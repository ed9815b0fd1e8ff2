import FiniteState.Proofs.Decoding
import FiniteState.Regex.Outline

/-!
# What an Outline Tells

An outline tells the whole tree, down to every symbol and every end of a range, provided that each
character leaf has one symbol.

Symbols are written as they are, apart from a quote, and a line feed or a brace among them looks
like one of the outline's own. But a symbol has a fixed place behind the opening of its leaf. Only a
quote takes two places, and the first of them holds what could also be a backslash alone; then it is
the third that tells which it is. So it is known where a leaf ends. A node with children has them on
lines that are indented further than the brace that closes it, so behind each child it is known
whether another one follows.

The induction is on one of two trees whose texts begin alike. It has to take in what stands behind
the texts, since behind a child stands the rest of its parent.

## Main definitions

* `Regex.OneSymbol`: Every character leaf has one symbol.
* `Regex.text`: The outline of a tree below other nodes.
* `Regex.Kind`, `Regex.kind`: What a node is, apart from what it holds.
* `Regex.inside`: What follows the opening of a node.

## Theorems

* `Regex.text_eq`: The text of a node begins with its indentation and its opening.
* `Regex.Kind.apart_opening`: The openings of nodes are told apart.
* `Regex.eq_of_items_eq`: What stands on the lines of a node is told from them.
* `Regex.apart_text`: Trees are told apart.
* `Regex.outline_eq_iff`: Outlines are equal only if the trees are.
-/

namespace FiniteState

namespace Regex

mutual

/-- Every character leaf has one symbol. This leaves open whether terms are missing. -/
def OneSymbol : Regex → Prop
  | character symbols => ∃ c, symbols = [c]
  | concatenation parts => OneSymbolAll parts
  | alternation branches => OneSymbolAll branches
  | iteration body => body.OneSymbol
  | optional body => body.OneSymbol
  | _ => True

/-- Every character leaf of trees has one symbol. -/
def OneSymbolAll : List Regex → Prop
  | [] => True
  | node :: rest => node.OneSymbol ∧ OneSymbolAll rest

end

theorem oneSymbolAll_iff {nodes : List Regex} :
    OneSymbolAll nodes ↔ ∀ node ∈ nodes, node.OneSymbol := by
  induction nodes with
  | nil => simp [OneSymbolAll]
  | cons node rest ih => rw [OneSymbolAll, ih, List.forall_mem_cons]

/-! ### Texts -/

/-- The blanks in front of a line. -/
def indentation (level : Nat) : List Char :=
  List.replicate (4 * level) ' '

/-- The line that closes a node, with the line feed in front of it. -/
def closing (level : Nat) : List Char :=
  '\n' :: (indentation level ++ ['\x7d'])

/-- The outline of a tree at a level of indentation. -/
def text (level : Nat) (node : Regex) : List Char :=
  Text.unlines ((outlineLines level node).map String.toList)

/-- The line of a range at a level of indentation. -/
def rangeText (level : Nat) (range : Char × Char) : List Char :=
  (indented level (rangeLine range)).toList

/-- What a node is, apart from what it holds. -/
inductive Kind
  | character
  | characterSet
  | wildcard
  | concatenation
  | alternation
  | iteration
  | optional

/-- What the text of a node begins with. -/
def Kind.opening : Kind → String
  | character => "CharacterNode \x7b \""
  | characterSet => "CharacterSetNode \x7b"
  | wildcard => "WildcardNode \x7b\x7d"
  | concatenation => "ConcatenationNode \x7b"
  | alternation => "GroupNode \x7b"
  | iteration => "IterationNode \x7b"
  | optional => "OptionalNode \x7b"

/-- What a node is. -/
def kind : Regex → Kind
  | character _ => .character
  | characterSet _ => .characterSet
  | wildcard => .wildcard
  | missing => .character
  | concatenation _ => .concatenation
  | alternation _ => .alternation
  | iteration _ => .iteration
  | optional _ => .optional

/-- Texts on lines of their own, and the line that closes the node around them. -/
def items {α : Type} (level : Nat) (text : α → List Char) (xs : List α) : List Char :=
  xs.flatMap (fun x => '\n' :: text x) ++ closing level

/-- What follows the opening of a node. -/
def inside (level : Nat) : Regex → List Char
  | character symbols => (if symbols = ['"'] then ['\\', '"'] else symbols) ++ ['"', ' ', '\x7d']
  | characterSet ranges => items level (rangeText (level + 1)) ranges
  | wildcard => []
  | missing => ['N', 'o', 'n', 'e', '"', ' ', '\x7d']
  | concatenation parts => items level (text (level + 1)) parts
  | alternation branches => items level (text (level + 1)) branches
  | iteration body => items level (text (level + 1)) [body]
  | optional body => items level (text (level + 1)) [body]

theorem toList_indented (level : Nat) (line : String) :
    (indented level line).toList = indentation level ++ line.toList := by
  simp [indented, indentation]

theorem outlineLines_ne_nil (level : Nat) (node : Regex) : outlineLines level node ≠ [] := by
  cases node <;> simp [outlineLines, enclosed]

/-- The lines of a tree with a line feed in front of each. -/
theorem flatMap_outlineLines (level : Nat) (node : Regex) :
    (outlineLines level node).flatMap (fun line => '\n' :: line.toList) =
      '\n' :: text level node := by
  have hne : (outlineLines level node).map String.toList ≠ [] := by
    simpa using outlineLines_ne_nil level node
  rw [text, Text.cons_unlines hne, List.flatMap_map]

theorem flatMap_outlineAll (level : Nat) (nodes : List Regex) :
    (outlineAll level nodes).flatMap (fun line => '\n' :: line.toList) =
      nodes.flatMap (fun node => '\n' :: text level node) := by
  induction nodes with
  | nil => rfl
  | cons node rest ih =>
    rw [outlineAll, List.flatMap_append, flatMap_outlineLines, ih, List.flatMap_cons]

/-- The text of a node with lines inside. -/
theorem unlines_enclosed (level : Nat) (name : String) (lines : List String) :
    Text.unlines ((enclosed level name lines).map String.toList) =
      indentation level ++ ((name ++ " \x7b").toList ++
        (lines.flatMap (fun line => '\n' :: line.toList) ++ closing level)) := by
  have hfeed := Text.cons_unlines (List.cons_ne_nil (indented level (name ++ " \x7b")).toList
    ((lines ++ [indented level "\x7d"]).map String.toList))
  rw [enclosed, List.map_cons]
  refine List.cons_injective (hfeed.trans ?_)
  simp [List.flatMap_map, toList_indented, closing]

/-- The text of a node begins with its indentation and its opening. -/
theorem text_eq (level : Nat) (node : Regex) :
    text level node = indentation level ++ (node.kind.opening.toList ++ node.inside level) := by
  cases node with
  | character symbols =>
    by_cases hquote : symbols = ['"'] <;>
      simp [text, outlineLines, Text.unlines, List.intercalate, toList_indented, quotedSymbols,
        kind, Kind.opening, inside, hquote]
  | wildcard | missing =>
    simp [text, outlineLines, Text.unlines, List.intercalate, toList_indented, kind, Kind.opening,
      inside]
  | characterSet ranges =>
    -- What has items opens a brace, and its items come one level further in.
    rw [text, outlineLines, unlines_enclosed, List.flatMap_map]
    simp [kind, Kind.opening, inside, items, rangeText]
  | concatenation nodes | alternation nodes =>
    rw [text, outlineLines, unlines_enclosed, flatMap_outlineAll]
    simp [kind, Kind.opening, inside, items]
  | iteration body | optional body =>
    rw [text, outlineLines, unlines_enclosed, flatMap_outlineLines]
    simp [kind, Kind.opening, inside, items]

/-! ### What is told -/

/-- The openings of nodes are told apart. -/
theorem Kind.apart_opening (k k' : Kind) : Text.Apart (fun k => k.opening.toList) k k' := by
  intro u v h
  cases k <;> cases k' <;> simp [opening] at h ⊢ <;> exact h

/-- Ranges are told apart. The two forms of their lines begin with different letters. -/
theorem apart_rangeText (level : Nat) (range range' : Char × Char) :
    Text.Apart (rangeText level) range range' := by
  obtain ⟨low, high⟩ := range
  obtain ⟨low', high'⟩ := range'
  intro u v h
  simp only [rangeText, toList_indented, List.append_assoc] at h
  have hline := List.append_cancel_left h
  unfold rangeLine at hline
  by_cases heq : low = high <;> by_cases heq' : low' = high' <;> simp_all

/-- What stands on the lines of a node is told from them if the texts are indented further than the
    node is. -/
theorem eq_of_items_eq {α : Type} {level : Nat} {text : α → List Char} {xs ys : List α}
    {u v : List Char} (hapart : ∀ x ∈ xs, ∀ y ∈ ys, Text.Apart text x y)
    (hindented : ∀ x, indentation (level + 1) <+: text x)
    (h : items level text xs ++ u = items level text ys ++ v) : xs = ys ∧ u = v := by
  -- Where the brace of the closing line stands, the other lines have a blank.
  have hclosing : ∀ x rest w, '\n' :: text x ++ rest ≠ closing level ++ w := by
    intro x rest w hsame
    rcases hindented x with ⟨line, hline⟩
    have hdeeper : indentation (level + 1) = indentation level ++ [' ', ' ', ' ', ' '] := by
      rw [indentation, Nat.mul_succ, List.replicate_add]
      rfl
    rw [← hline, hdeeper, closing] at hsame
    simp at hsame
  rw [items, items, List.append_assoc, List.append_assoc] at h
  have hboth := Text.eq_of_flatMap_append_eq (fun x hx y hy => (hapart x hx y hy).cons '\n')
    (fun x _ rest => hclosing x rest v) (fun y _ rest => hclosing y rest u) h
  exact ⟨hboth.1, List.append_cancel_left hboth.2⟩

theorem indentation_prefix_text (level : Nat) (node : Regex) :
    indentation level <+: text level node := by
  rw [text_eq]
  exact List.prefix_append _ _

theorem indentation_prefix_rangeText (level : Nat) (range : Char × Char) :
    indentation level <+: rangeText level range := by
  rw [rangeText, toList_indented]
  exact List.prefix_append _ _

/-- A symbol is told from what is between the quotes, and a missing one too. -/
theorem eq_of_inside_eq {level : Nat} {a b : Regex} {u v : List Char}
    (ha : a.kind = .character) (hb : b.kind = .character) (honeA : a.OneSymbol)
    (honeB : b.OneSymbol) (h : inside level a ++ u = inside level b ++ v) : a = b ∧ u = v := by
  have hcases : ∀ {node : Regex}, node.kind = .character → node.OneSymbol →
      node = missing ∨ ∃ c, node = character [c] := by
    intro node hnode hone
    cases node with
    | character symbols =>
      rcases hone with ⟨c, rfl⟩
      exact Or.inr ⟨c, rfl⟩
    | missing => exact Or.inl rfl
    | _ => exact absurd hnode (by simp [kind])
  rcases hcases ha honeA with rfl | ⟨c, rfl⟩ <;> rcases hcases hb honeB with rfl | ⟨d, rfl⟩
  · exact ⟨rfl, List.append_cancel_left h⟩
  · by_cases hd : d = '"' <;> simp [inside, hd] at h
  · by_cases hc : c = '"' <;> simp [inside, hc] at h
  · by_cases hc : c = '"' <;> by_cases hd : d = '"'
    · rw [hc, hd] at h ⊢
      exact ⟨rfl, List.append_cancel_left h⟩
    -- A backslash in front of a quote is a symbol by itself if no other quote follows.
    · simp [inside, hc, hd] at h
    · simp [inside, hc, hd] at h
    · simpa [inside, hc, hd] using h

mutual

/-- Trees are told apart, by induction on one of them. -/
theorem apart_text (a : Regex) (level : Nat) (ha : a.OneSymbol) :
    ∀ b : Regex, b.OneSymbol → Text.Apart (text level) a b := by
  intro b hb u v h
  simp only [text_eq, List.append_assoc] at h
  -- The opening tells the kinds apart, whatever follows it.
  rcases a.kind.apart_opening b.kind _ _ (List.append_cancel_left h) with ⟨hkind, hinside⟩
  -- Items are told apart from each other by the induction hypothesis, and from the closing brace by
  -- their deeper indentation.
  have hitems : ∀ {nodes nodes' : List Regex},
      (∀ x ∈ nodes, ∀ y ∈ nodes', Text.Apart (text (level + 1)) x y) →
        items level (text (level + 1)) nodes ++ u = items level (text (level + 1)) nodes' ++ v →
          nodes = nodes' ∧ u = v :=
    fun hapart => eq_of_items_eq hapart (indentation_prefix_text (level + 1))
  cases a with
  | character | missing => exact eq_of_inside_eq rfl hkind.symm ha hb hinside
  | characterSet ranges =>
    cases b with
    | characterSet ranges' =>
      have hranges := eq_of_items_eq (fun x _ y _ => apart_rangeText (level + 1) x y)
        (indentation_prefix_rangeText (level + 1)) hinside
      exact ⟨by rw [hranges.1], hranges.2⟩
    | _ => exact absurd hkind (by simp [kind])
  | wildcard =>
    cases b with
    | wildcard => exact ⟨rfl, hinside⟩
    | _ => exact absurd hkind (by simp [kind])
  | concatenation parts =>
    cases b with
    | concatenation parts' =>
      have hparts := hitems (fun x hx y hy =>
        apart_textAll parts (level + 1) ha x hx y (oneSymbolAll_iff.1 hb y hy)) hinside
      exact ⟨by rw [hparts.1], hparts.2⟩
    | _ => exact absurd hkind (by simp [kind])
  | alternation branches =>
    cases b with
    | alternation branches' =>
      have hbranches := hitems (fun x hx y hy =>
        apart_textAll branches (level + 1) ha x hx y (oneSymbolAll_iff.1 hb y hy)) hinside
      exact ⟨by rw [hbranches.1], hbranches.2⟩
    | _ => exact absurd hkind (by simp [kind])
  | iteration body =>
    cases b with
    | iteration body' =>
      have hbody := hitems (List.forall_mem_singleton.2 (List.forall_mem_singleton.2
        (apart_text body (level + 1) ha body' hb))) hinside
      exact ⟨by rw [(List.cons.inj hbody.1).1], hbody.2⟩
    | _ => exact absurd hkind (by simp [kind])
  | optional body =>
    cases b with
    | optional body' =>
      have hbody := hitems (List.forall_mem_singleton.2 (List.forall_mem_singleton.2
        (apart_text body (level + 1) ha body' hb))) hinside
      exact ⟨by rw [(List.cons.inj hbody.1).1], hbody.2⟩
    | _ => exact absurd hkind (by simp [kind])

theorem apart_textAll (nodes : List Regex) (level : Nat) (h : OneSymbolAll nodes) :
    ∀ a ∈ nodes, ∀ b : Regex, b.OneSymbol → Text.Apart (text level) a b := by
  cases nodes with
  | nil => exact List.forall_mem_nil _
  | cons node rest =>
    exact List.forall_mem_cons.2 ⟨apart_text node level h.1, apart_textAll rest level h.2⟩

end

theorem toList_outline (node : Regex) : node.outline.toList = text 0 node := by
  rw [outline, String.toList_intercalate, text, Text.unlines]
  rfl

/-- The outlines of two trees are equal only if the trees are. -/
theorem outline_eq_iff {a b : Regex} (ha : a.OneSymbol) (hb : b.OneSymbol) :
    a.outline = b.outline ↔ a = b := by
  constructor
  · intro h
    -- Unique decoding leaves room for what follows, and nothing follows here.
    have htexts : text 0 a ++ [] = text 0 b ++ [] := by
      rw [← toList_outline, ← toList_outline, h]
    exact (apart_text a 0 ha b hb _ _ htexts).1
  · rintro rfl
    rfl

/-- A row in which a quote comes before a range that ends with a brace. -/
def quoteTree : Regex :=
  .concatenation [.character ['"'], .characterSet [(' ', '\x7d'), ('\n', '\n')]]

/-- The same row with a backslash in place of the quote. -/
def backslashTree : Regex :=
  .concatenation [.character ['\\'], .characterSet [(' ', '\x7d'), ('\n', '\n')]]

theorem outline_quoteTree_ne :
    quoteTree.OneSymbol ∧ backslashTree.OneSymbol ∧ quoteTree.outline ≠ backslashTree.outline := by
  have hquote : quoteTree.OneSymbol := ⟨⟨'"', rfl⟩, trivial, trivial⟩
  have hbackslash : backslashTree.OneSymbol := ⟨⟨'\\', rfl⟩, trivial, trivial⟩
  have hne : quoteTree ≠ backslashTree := by simp [quoteTree, backslashTree]
  exact ⟨hquote, hbackslash, mt (outline_eq_iff hquote hbackslash).1 hne⟩

/-- With two symbols in a leaf, the backslash may be one of them. -/
example : (character ['\\', '"']).outline = (character ['"']).outline := by decide +kernel

end Regex

end FiniteState
