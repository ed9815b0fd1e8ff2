import FiniteState.Pattern.Parser
import FiniteState.Proofs.Thompson

/-!
# The Grammar of Patterns

Which patterns there are and which trees they stand for, said without a reader. A pattern spells
lexemes, and lexemes derive a tree by the rules of the grammar.

The rules are those of the parser, and so is the limit on nesting, which is why a derivation has a
depth of groups. What a reader finds out by looking one token ahead is no part of the grammar: a
derivation says only which lexemes belong to which part of the tree.

## Main definitions

* `Regex.Readable`: Trees of the form that patterns are read as.
* `Pattern.Spelling`: The lexemes that a text spells.
* `Pattern.Shows`: The character that a lexeme stands for.
* `Pattern.Items`: The ranges that lexemes between brackets stand for.
* `Pattern.Quantifies`, `Pattern.Quantified`: What quantifiers make of a tree.
* `Pattern.Derives`: The trees that lexemes derive by a rule at a depth of groups.
* `Pattern.Parses`: The trees of a pattern.

## Theorems

* `Pattern.Derives.exists_start`: What lexemes derive by a term or a suffix begins with a term.
* `Pattern.Derives.readable`: Trees derived from symbols are readable.
* `Regex.supported_of_readable`: Readable trees hold symbols only.
-/

namespace FiniteState

namespace Regex

mutual

/-- A tree is of a form that patterns are read as. -/
def Readable : Regex → Prop
  | character symbols => ∃ c, symbols = [c] ∧ isSymbol c = true
  | characterSet ranges => ∀ range ∈ ranges,
      isSymbol range.1 = true ∧ isSymbol range.2 = true ∧ range.1 ≤ range.2
  | wildcard => True
  | missing => False
  | concatenation parts => parts.length ≠ 1 ∧ ReadableAll parts
  | alternation branches => 2 ≤ branches.length ∧ ReadableAll branches
  | iteration body => body.Readable
  | optional body => body.Readable

/-- Trees are of a form that patterns are read as. -/
def ReadableAll : List Regex → Prop
  | [] => True
  | node :: rest => node.Readable ∧ ReadableAll rest

end

theorem readableAll_iff {nodes : List Regex} :
    ReadableAll nodes ↔ ∀ node ∈ nodes, node.Readable := by
  induction nodes with
  | nil => simp [ReadableAll]
  | cons node rest ih => rw [ReadableAll, ih, List.forall_mem_cons]

/-- A character between two symbols is a symbol. -/
theorem isSymbol_of_between {low high c : Char} (hlow : isSymbol low = true)
    (hhigh : isSymbol high = true) (hle : low ≤ c) (hge : c ≤ high) :
    isSymbol c = true := by
  rw [isSymbol_eq_true_iff] at hlow hhigh ⊢
  have hle' : low.toNat ≤ c.toNat := UInt32.le_iff_toNat_le.1 hle
  have hge' : c.toNat ≤ high.toNat := UInt32.le_iff_toNat_le.1 hge
  omega

mutual

/-- Readable trees hold symbols only. -/
theorem supported_of_readable (node : Regex) (h : node.Readable) : node.Supported := by
  cases node with
  | character symbols =>
    rcases h with ⟨c, rfl, hc⟩
    exact List.forall_mem_singleton.2 hc
  | characterSet ranges =>
    -- All characters between two symbols are symbols.
    intro range hrange c hle hge
    rcases h range hrange with ⟨hlow, hhigh, -⟩
    exact isSymbol_of_between hlow hhigh hle hge
  | wildcard => trivial
  | missing => exact absurd h id
  | concatenation parts => exact supported_of_readableAll parts h.2
  | alternation branches => exact supported_of_readableAll branches h.2
  | iteration body => exact supported_of_readable body h
  | optional body => exact supported_of_readable body h

theorem supported_of_readableAll (nodes : List Regex) (h : ReadableAll nodes) :
    SupportedAll nodes := by
  cases nodes with
  | nil => trivial
  | cons node rest => exact ⟨supported_of_readable node h.1, supported_of_readableAll rest h.2⟩

end

end Regex

namespace Pattern

/-- The lexemes that a text spells, all of its characters being symbols. -/
inductive Spelling : List Char → List Lexeme → Prop
  | nil : Spelling [] []
  | bare {c : Char} {text : List Char} {lexemes : List Lexeme} (hsymbol : isSymbol c = true)
      (hbackslash : c ≠ '\\') (rest : Spelling text lexemes) :
      Spelling (c :: text) (bareLexeme c :: lexemes)
  | escaped {c : Char} {text : List Char} {lexemes : List Lexeme} (hsymbol : isSymbol c = true)
      (rest : Spelling text lexemes) : Spelling ('\\' :: c :: text) (.escaped c :: lexemes)

/-- The character that a lexeme stands for where operators have no meaning. -/
inductive Shows : Lexeme → Char → Prop
  | operator (c : Char) : Shows (.operator c) c
  | plain (c : Char) : Shows (.plain c) c
  | escaped (c : Char) : Shows (.escaped c) c

/-- Whether an item of a character class can begin with a lexeme. -/
def StartsItem (lexeme : Lexeme) : Prop :=
  lexeme ≠ .operator ']' ∧ lexeme ≠ .plain '-'

/-- The ranges that lexemes between brackets stand for: symbols, and pairs of symbols in order with
    a hyphen between them. -/
inductive Items : List Lexeme → List (Char × Char) → Prop
  | nil : Items [] []
  | symbol {l : Lexeme} {c : Char} {lexemes : List Lexeme} {ranges : List (Char × Char)}
      (hstart : StartsItem l) (hc : Shows l c) (rest : Items lexemes ranges) :
      Items (l :: lexemes) ((c, c) :: ranges)
  | range {l u : Lexeme} {low high : Char} {lexemes : List Lexeme} {ranges : List (Char × Char)}
      (hstart : StartsItem l) (hlow : Shows l low) (hupper : u ≠ .operator ']')
      (hhigh : Shows u high) (hle : low ≤ high) (rest : Items lexemes ranges) :
      Items (l :: .plain '-' :: u :: lexemes) ((low, high) :: ranges)

/-- What a quantifier makes of a tree. -/
inductive Quantifies : Lexeme → Regex → Regex → Prop
  | plus (node : Regex) : Quantifies (.operator '+') node (.iteration node)
  | star (node : Regex) : Quantifies (.operator '*') node (.optional (.iteration node))
  | question (node : Regex) : Quantifies (.operator '?') node (.optional node)

/-- What quantifiers in order make of a tree at a depth of groups. No tree on the way is higher than
    the groups leave room for. -/
inductive Quantified (depth : Int) : List Lexeme → Regex → Regex → Prop
  | nil (node : Regex) : Quantified depth [] node node
  | cons {l : Lexeme} {lexemes : List Lexeme} {node outer last : Regex}
      (hl : Quantifies l node outer) (hheight : depth + outer.height ≤ maxNesting)
      (rest : Quantified depth lexemes outer last) : Quantified depth (l :: lexemes) node last

/-- Trees in a row. One by itself stays as it is. -/
def inRow : List Regex → Regex
  | [node] => node
  | nodes => .concatenation nodes

/-- Trees side by side. One by itself stays as it is. -/
def sideBySide (first : Regex) : List Regex → Regex
  | [] => first
  | others => .alternation (first :: others)

/-- The lexemes of branches with bars between them. -/
def withBars (first : List Lexeme × Regex) (others : List (List Lexeme × Regex)) : List Lexeme :=
  first.1 ++ others.flatMap fun branch => .operator '|' :: branch.1

/-- The trees that lexemes derive by a rule at a depth of groups. The parts of an expression and the
    branches of an alternation are pairs of lexemes and the tree derived from them. -/
inductive Derives : Int → Rule → List Lexeme → Regex → Prop
  | wildcard {depth : Int} : Derives depth .term [.operator '.'] .wildcard
  | plain {depth : Int} (c : Char) : Derives depth .term [.plain c] (.character [c])
  | escaped {depth : Int} (c : Char) : Derives depth .term [.escaped c] (.character [c])
  | characterClass {depth : Int} {lexemes : List Lexeme} {ranges : List (Char × Char)}
      (hitems : Items lexemes ranges) :
      Derives depth .term (.operator '[' :: (lexemes ++ [.operator ']'])) (.characterSet ranges)
  | parentheses {depth : Int} {lexemes : List Lexeme} {node : Regex}
      (hdepth : depth + 1 ≤ maxNesting) (inner : Derives (depth + 1) .group lexemes node) :
      Derives depth .term (.operator '(' :: (lexemes ++ [.operator ')'])) node
  | suffix {depth : Int} {lexemes quantifiers : List Lexeme} {node outer : Regex}
      (term : Derives depth .term lexemes node)
      (hquantified : Quantified depth quantifiers node outer) :
      Derives depth .suffix (lexemes ++ quantifiers) outer
  | expression {depth : Int} (parts : List (List Lexeme × Regex))
      (hparts : ∀ part ∈ parts, Derives depth .suffix part.1 part.2) :
      Derives depth .expression (parts.flatMap Prod.fst) (inRow (parts.map Prod.snd))
  | alternation {depth : Int} (first : List Lexeme × Regex) (others : List (List Lexeme × Regex))
      (hbranches : ∀ branch ∈ first :: others, Derives depth .expression branch.1 branch.2)
      (hempty : others = [] ∨ ∀ branch ∈ first :: others, branch.1 ≠ []) :
      Derives depth .alternation (withBars first others)
        (sideBySide first.2 (others.map Prod.snd))
  | group {depth : Int} (first : List Lexeme × Regex) (others : List (List Lexeme × Regex))
      (hbranches : ∀ branch ∈ first :: others, Derives depth .expression branch.1 branch.2) :
      Derives depth .group (withBars first others) (sideBySide first.2 (others.map Prod.snd))

/-- The trees of a pattern: those that its lexemes derive as an alternation outside of groups. -/
def Parses (pattern : List Char) (node : Regex) : Prop :=
  ∃ lexemes, Spelling pattern lexemes ∧ Derives 0 .alternation lexemes node

/-- Whether a term can begin with a lexeme. -/
def StartsTerm : Lexeme → Prop
  | .operator c => c = '.' ∨ c = '(' ∨ c = '['
  | .plain _ => True
  | .escaped _ => True
  | .finish => False

variable {depth : Int} {lexemes : List Lexeme} {node outer : Regex}

theorem Derives.term_start (h : Derives depth .term lexemes node) :
    ∃ l rest, lexemes = l :: rest ∧ StartsTerm l := by
  cases h with
  | wildcard => exact ⟨_, _, rfl, Or.inl rfl⟩
  | plain c => exact ⟨_, _, rfl, trivial⟩
  | escaped c => exact ⟨_, _, rfl, trivial⟩
  | characterClass _ => exact ⟨_, _, rfl, Or.inr (Or.inr rfl)⟩
  | parentheses _ _ => exact ⟨_, _, rfl, Or.inr (Or.inl rfl)⟩

/-- A suffixed term is not empty, and begins with a lexeme that a term can begin with. -/
theorem Derives.suffix_start (h : Derives depth .suffix lexemes node) :
    ∃ l rest, lexemes = l :: rest ∧ StartsTerm l := by
  cases h with
  | suffix term _ =>
    rcases term.term_start with ⟨l, rest, rfl, hl⟩
    exact ⟨l, _, rfl, hl⟩

/-- The lexemes of a text show symbols only. -/
theorem Spelling.isSymbol {text : List Char} (h : Spelling text lexemes) :
    ∀ l ∈ lexemes, ∀ c, Shows l c → FiniteState.isSymbol c = true := by
  induction h with
  | nil => simp
  | @bare c text lexemes hsymbol _ _ ih =>
    refine List.forall_mem_cons.2 ⟨fun d hd => ?_, ih⟩
    -- Whether the lexeme is an operator or not, it shows its own character.
    have hcd : d = c := by
      unfold bareLexeme at hd
      split at hd <;> cases hd <;> rfl
    rwa [hcd]
  | escaped hsymbol _ ih =>
    refine List.forall_mem_cons.2 ⟨fun d hd => ?_, ih⟩
    cases hd
    exact hsymbol

theorem Items.readable {ranges : List (Char × Char)} (h : Items lexemes ranges)
    (hsymbols : ∀ l ∈ lexemes, ∀ c, Shows l c → FiniteState.isSymbol c = true) :
    (Regex.characterSet ranges).Readable := by
  induction h with
  | nil => simp [Regex.Readable]
  | @symbol l c _ _ _ hc _ ih =>
    rcases List.forall_mem_cons.1 hsymbols with ⟨hl, hrest⟩
    exact List.forall_mem_cons.2 ⟨⟨hl c hc, hl c hc, Char.le_refl c⟩, ih hrest⟩
  -- The hyphen between the ends is no end.
  | @range l u low high _ _ _ hlow _ hhigh hle _ ih =>
    simp only [List.forall_mem_cons] at hsymbols
    rcases hsymbols with ⟨hl, -, hu, hrest⟩
    exact List.forall_mem_cons.2 ⟨⟨hl low hlow, hu high hhigh, hle⟩, ih hrest⟩

theorem Quantified.readable (h : Quantified depth lexemes node outer) (hnode : node.Readable) :
    outer.Readable := by
  induction h with
  | nil => exact hnode
  | cons hl _ _ ih => exact ih (by cases hl <;> exact hnode)

theorem readable_inRow {nodes : List Regex} (h : ∀ node ∈ nodes, node.Readable) :
    (inRow nodes).Readable := by
  unfold inRow
  split
  · exact h _ List.mem_cons_self
  next hlength =>
    -- A row of a single node is that node, so this one has another length.
    refine ⟨fun hone => ?_, Regex.readableAll_iff.2 h⟩
    rcases List.length_eq_one_iff.1 hone with ⟨node, rfl⟩
    exact hlength node rfl

theorem readable_sideBySide {first : Regex} {others : List Regex}
    (h : ∀ node ∈ first :: others, node.Readable) : (sideBySide first others).Readable := by
  cases others with
  | nil => exact h _ List.mem_cons_self
  | cons second others => exact ⟨by simp, Regex.readableAll_iff.2 h⟩

/-- The lexemes of a branch are among those of all branches, in order. -/
theorem sublist_withBars {first branch : List Lexeme × Regex}
    {others : List (List Lexeme × Regex)} (h : branch ∈ first :: others) :
    branch.1.Sublist (withBars first others) := by
  rcases List.mem_cons.1 h with rfl | hother
  · exact List.sublist_append_left _ _
  · have hwithBar := List.mem_map_of_mem (f := fun b => Lexeme.operator '|' :: b.1) hother
    rw [withBars, List.flatMap_def]
    exact (List.sublist_cons_self _ _).trans
      ((List.sublist_flatten_of_mem hwithBar).trans (List.sublist_append_right _ _))

/-- Where each branch with symbols only has a readable tree, the tree of all is readable. -/
theorem readable_withBars {first : List Lexeme × Regex} {others : List (List Lexeme × Regex)}
    (h : ∀ branch ∈ first :: others,
      (∀ l ∈ branch.1, ∀ c, Shows l c → FiniteState.isSymbol c = true) → branch.2.Readable)
    (hsymbols : ∀ l ∈ withBars first others, ∀ c, Shows l c → FiniteState.isSymbol c = true) :
    (sideBySide first.2 (others.map Prod.snd)).Readable := by
  refine readable_sideBySide fun node hnode => ?_
  have hnode' : node ∈ (first :: others).map Prod.snd := hnode
  rcases List.mem_map.1 hnode' with ⟨branch, hbranch, rfl⟩
  exact h branch hbranch fun l hl => hsymbols l ((sublist_withBars hbranch).subset hl)

/-- A tree that is derived from symbols is readable. -/
theorem Derives.readable {rule : Rule} (h : Derives depth rule lexemes node)
    (hsymbols : ∀ l ∈ lexemes, ∀ c, Shows l c → FiniteState.isSymbol c = true) :
    node.Readable := by
  induction h with
  | wildcard => trivial
  | plain c => exact ⟨c, rfl, hsymbols _ List.mem_cons_self c (.plain c)⟩
  | escaped c => exact ⟨c, rfl, hsymbols _ List.mem_cons_self c (.escaped c)⟩
  | characterClass hitems =>
    exact hitems.readable fun l hl => hsymbols l (by simp [hl])
  | parentheses _ _ ih => exact ih fun l hl => hsymbols l (by simp [hl])
  | suffix _ hquantified ih =>
    exact hquantified.readable (ih fun l hl => hsymbols l (List.mem_append_left _ hl))
  | expression parts _ ih =>
    -- The lexemes of each part are among those of the row.
    refine readable_inRow fun node hnode => ?_
    rcases List.mem_map.1 hnode with ⟨part, hpart, rfl⟩
    exact ih part hpart fun l hl => hsymbols l (List.mem_flatMap.2 ⟨part, hpart, hl⟩)
  | alternation first others _ _ ih => exact readable_withBars ih hsymbols
  | group first others _ ih => exact readable_withBars ih hsymbols

theorem Parses.readable {pattern : List Char} (h : Parses pattern node) : node.Readable := by
  rcases h with ⟨lexemes, hspelling, hderives⟩
  exact hderives.readable hspelling.isSymbol

theorem Parses.supported {pattern : List Char} (h : Parses pattern node) : node.Supported :=
  Regex.supported_of_readable node h.readable

end Pattern

end FiniteState
