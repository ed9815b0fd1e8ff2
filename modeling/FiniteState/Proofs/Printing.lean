import FiniteState.Proofs.Parsing

/-!
# Printing Trees

Every tree of a form that patterns are read as has a pattern that is read as that tree. The printer
writes a row as its parts and an alternation as its branches with bars between them, each part and
each branch by itself: a row or an alternation below another node stands in parentheses, be it empty
or not. A symbol gets a backslash where it would mean something else without one, and that differs
between the inside of a class and the outside, and between the two ends of a range.

Printing goes by way of lexemes, like reading. That the lexemes derive the tree is shown along the
tree, at any depth of groups. What carries the induction is that the depth and the height of the
tree together stay within the limit on nesting: parentheses add one to the depth, and the parts of
what they hold are lower by one at least. So groups never lie too deep, and a quantifier always has
room for the tree that it makes.

## Main definitions

* `Pattern.Lexeme.text`, `Pattern.textOf`: Lexemes as text.
* `Pattern.guarded`: The lexeme of a symbol, with a backslash where it needs one.
* `Regex.lexemes`, `Regex.print`: The pattern of a tree.

## Theorems

* `Pattern.spelling_textOf`: Lexemes written as text are spelled by it.
* `Pattern.Derives.quantify`: One more quantifier behind a suffixed term.
* `Pattern.derives_row`, `Pattern.derives_branches`: Parts in a row and branches side by side.
* `Regex.derives_parenthesized`: The lexemes of a tree below another node derive the tree.
* `Pattern.parse_print`: A printed tree is read back as itself.
-/

namespace FiniteState

namespace Pattern

/-- The text that a lexeme is written as. -/
def Lexeme.text : Lexeme → List Char
  | operator c => [c]
  | plain c => [c]
  | escaped c => ['\\', c]
  | finish => []

/-- The text that lexemes are written as. -/
def textOf (lexemes : List Lexeme) : List Char :=
  lexemes.flatMap Lexeme.text

/-- The lexeme of a symbol, with a backslash before the symbols that mean something else where it
    stands, and before the backslash. -/
def guarded (special : Char → Bool) (c : Char) : Lexeme :=
  if special c || c == '\\' then .escaped c else bareLexeme c

/-- The lexemes of a range of a character class. A range of one symbol is that symbol. -/
def rangeLexemes (range : Char × Char) : List Lexeme :=
  let low := guarded (fun c => c == ']' || c == '-') range.1
  if range.1 = range.2 then [low] else [low, .plain '-', guarded (· == ']') range.2]

/-- Lexemes in parentheses. -/
def inParentheses (lexemes : List Lexeme) : List Lexeme :=
  .operator '(' :: (lexemes ++ [.operator ')'])

end Pattern

namespace Regex

open Pattern

/-- Whether a tree is a row or an alternation. -/
def isComposite : Regex → Bool
  | concatenation _ => true
  | alternation _ => true
  | _ => false

/-- The lexemes of a tree that stands below another node, given those that it has by itself. -/
def parenthesized (node : Regex) (lexemes : List Lexeme) : List Lexeme :=
  if node.isComposite then inParentheses lexemes else lexemes

mutual

/-- The lexemes of a tree that stands by itself. -/
def lexemes : Regex → List Lexeme
  | character symbols => symbols.map (guarded Pattern.isOperator)
  | characterSet ranges => .operator '[' :: (ranges.flatMap rangeLexemes ++ [.operator ']'])
  | wildcard => [.operator '.']
  | missing => []
  | concatenation parts => (lexemesAll parts).flatten
  | alternation branches => List.intercalate [.operator '|'] (lexemesAll branches)
  | iteration body => body.parenthesized body.lexemes ++ [.operator '+']
  | optional body => body.parenthesized body.lexemes ++ [.operator '?']

/-- The lexemes of trees that stand below another node, for each of them. -/
def lexemesAll : List Regex → List (List Lexeme)
  | [] => []
  | node :: rest => node.parenthesized node.lexemes :: lexemesAll rest

end

/-- Whether a tree is the row without parts. -/
def isEmptyRow : Regex → Bool
  | concatenation [] => true
  | _ => false

/-- The pattern of a tree. An alternation with an empty branch is written in parentheses. -/
def print (node : Regex) : List Char :=
  match node with
  | alternation branches =>
    if branches.any isEmptyRow then textOf (inParentheses node.lexemes) else textOf node.lexemes
  | _ => textOf node.lexemes

end Regex

namespace Pattern

/-! ### Lexemes as text -/

/-- A lexeme is read back from its text. -/
def Legible : Lexeme → Prop
  | .operator c => isOperator c = true
  | .plain c => isOperator c = false ∧ c ≠ '\\' ∧ isSymbol c = true
  | .escaped c => isSymbol c = true
  | .finish => False

theorem isSymbol_of_isOperator {c : Char} (h : isOperator c = true) :
    FiniteState.isSymbol c = true ∧ c ≠ '\\' := by
  simp only [isOperator, List.contains_cons, List.contains_nil, Bool.or_false, Bool.or_eq_true,
    beq_iff_eq] at h
  rcases h with rfl | rfl | rfl | rfl | rfl | rfl | rfl | rfl | rfl <;> decide

/-- Lexemes written as text are spelled by it. -/
theorem spelling_textOf {lexemes : List Lexeme} (h : ∀ l ∈ lexemes, Legible l) :
    Spelling (textOf lexemes) lexemes := by
  induction lexemes with
  | nil => exact .nil
  | cons l lexemes ih =>
    rcases List.forall_mem_cons.1 h with ⟨hl, hrest⟩
    have hspelling := ih hrest
    rw [textOf, List.flatMap_cons]
    cases l with
    | operator c =>
      have hoperator : isOperator c = true := hl
      have hsymbol := isSymbol_of_isOperator hoperator
      have hbare := Spelling.bare hsymbol.1 hsymbol.2 hspelling
      rwa [bareLexeme, if_pos hoperator] at hbare
    -- A plain character is no operator, so it is read as itself.
    | plain c =>
      have hbare := Spelling.bare hl.2.2 hl.2.1 hspelling
      rwa [bareLexeme, if_neg (Bool.eq_false_iff.1 hl.1)] at hbare
    | escaped c => exact .escaped hl hspelling
    | finish => exact absurd hl id

section Guarded

variable {special : Char → Bool} {c : Char}

theorem shows_guarded (special : Char → Bool) (c : Char) : Shows (guarded special c) c := by
  unfold guarded bareLexeme
  split
  · exact .escaped c
  · split
    · exact .operator c
    · exact .plain c

theorem legible_guarded (hc : isSymbol c = true) : Legible (guarded special c) := by
  unfold guarded bareLexeme
  by_cases h : (special c || c == '\\') = true
  · rw [if_pos h]
    exact hc
  · rw [if_neg h]
    rw [Bool.or_eq_true, beq_iff_eq, not_or] at h
    split
    next hoperator => exact hoperator
    next hoperator => exact ⟨Bool.eq_false_iff.2 hoperator, h.2, hc⟩

/-- A symbol that would mean something else has a backslash. -/
theorem guarded_eq_escaped (h : special c = true) : guarded special c = .escaped c := by
  rw [guarded, h, Bool.true_or, if_pos rfl]

theorem guarded_ne {l : Lexeme} (h : ∀ d, Shows l d → special d = true)
    (hl : ∀ d, l ≠ .escaped d) : guarded special c ≠ l := by
  rintro rfl
  exact hl c (guarded_eq_escaped (h c (shows_guarded special c)))

end Guarded

/-- The lexemes of ranges stand for the ranges. -/
theorem items_rangeLexemes {ranges : List (Char × Char)}
    (h : ∀ range ∈ ranges, range.1 ≤ range.2) : Items (ranges.flatMap rangeLexemes) ranges := by
  induction ranges with
  | nil => exact .nil
  | cons range ranges ih =>
    rcases List.forall_mem_cons.1 h with ⟨hle, hrest⟩
    obtain ⟨low, high⟩ := range
    -- Without the backslash the one would end the class and the other could not begin a range.
    have hstart : StartsItem (guarded (fun c => c == ']' || c == '-') low) :=
      ⟨guarded_ne (by rintro _ ⟨⟩; rfl) (by simp), guarded_ne (by rintro _ ⟨⟩; rfl) (by simp)⟩
    have hlow := shows_guarded (fun c => c == ']' || c == '-') low
    rw [List.flatMap_cons, rangeLexemes]
    by_cases heq : low = high
    · subst heq
      rw [if_pos rfl]
      exact .symbol hstart hlow (ih hrest)
    · rw [if_neg heq]
      have hupper : guarded (· == ']') high ≠ .operator ']' :=
        guarded_ne (by rintro _ ⟨⟩; rfl) (by simp)
      exact .range hstart hlow hupper (shows_guarded _ high) hle (ih hrest)

/-! ### Derivations of lexemes -/

section Derivations

variable {depth : Int} {lexemes : List Lexeme} {node outer : Regex}

theorem Quantified.concat {quantifiers : List Lexeme} {l : Lexeme} {last : Regex}
    (h : Quantified depth quantifiers node outer) (hl : Quantifies l outer last)
    (hheight : depth + last.height ≤ maxNesting) :
    Quantified depth (quantifiers ++ [l]) node last := by
  induction h with
  | nil => exact .cons hl hheight (.nil _)
  | cons hfirst hfits _ ih => exact .cons hfirst hfits (ih hl)

/-- A suffixed term with one more quantifier is a suffixed term. -/
theorem Derives.quantify {l : Lexeme} (h : Derives depth .suffix lexemes node)
    (hl : Quantifies l node outer) (hheight : depth + outer.height ≤ maxNesting) :
    Derives depth .suffix (lexemes ++ [l]) outer := by
  cases h with
  | suffix hterm hquantified =>
    rw [List.append_assoc]
    exact .suffix hterm (hquantified.concat hl hheight)

theorem Derives.suffix_of_term (h : Derives depth .term lexemes node) :
    Derives depth .suffix lexemes node := by
  have hsuffix := Derives.suffix h (.nil node)
  rwa [List.append_nil] at hsuffix

/-- A suffixed term by itself is an expression. -/
theorem Derives.expression_of_suffix (h : Derives depth .suffix lexemes node) :
    Derives depth .expression lexemes node := by
  have hexpression := Derives.expression [(lexemes, node)] (by simpa using h)
  rwa [List.flatMap_singleton] at hexpression

/-- An expression by itself is an alternation, and a group. -/
theorem Derives.branches_of_expression (h : Derives depth .expression lexemes node)
    (allowEmpty : Bool) : Derives depth (branchesRule allowEmpty) lexemes node :=
  derives_branchesRule_iff.2 ⟨(lexemes, node), [], h, by simp, by simp [withBars], rfl⟩

theorem derives_character {c : Char} :
    Derives depth .term [guarded isOperator c] (.character [c]) := by
  by_cases hoperator : isOperator c = true
  · rw [guarded_eq_escaped hoperator]
    exact .escaped c
  · unfold guarded bareLexeme
    split
    · exact .escaped c
    · exact .plain c

/-- What stands in parentheses is a group one level deeper. -/
theorem derives_inParentheses (hdepth : depth + 1 ≤ maxNesting)
    (h : Derives (depth + 1) .group lexemes node) :
    Derives depth .suffix (inParentheses lexemes) node :=
  (Derives.parentheses hdepth h).suffix_of_term

variable {pieces : List (List Lexeme)} {nodes : List Regex}

/-- Suffixed terms in a row derive a row, unless there is only one of them. -/
theorem derives_row (h : List.Forall₂ (Derives depth .suffix) pieces nodes)
    (hlength : nodes.length ≠ 1) :
    Derives depth .expression pieces.flatten (.concatenation nodes) := by
  rcases List.forall₂_iff_zip.1 h with ⟨hsame, hparts⟩
  have hexpression := Derives.expression (pieces.zip nodes) fun part hpart => hparts hpart
  have hrow : inRow nodes = .concatenation nodes := by
    unfold inRow
    split
    · exact absurd rfl hlength
    · rfl
  rwa [List.flatMap_def, List.map_fst_zip hsame.le, List.map_snd_zip hsame.ge, hrow] at hexpression

theorem intercalate_cons {first : List Lexeme} {bar : Lexeme} :
    List.intercalate [bar] (first :: pieces) = first ++ pieces.flatMap (bar :: ·) := by
  induction pieces generalizing first with
  | nil => simp
  | cons second pieces ih => simp [List.intercalate_cons_cons, ih]

theorem mem_intercalate {bar l : Lexeme} (h : l ∈ List.intercalate [bar] pieces) :
    l = bar ∨ ∃ piece ∈ pieces, l ∈ piece := by
  cases pieces with
  | nil => simp at h
  | cons first pieces =>
    rw [intercalate_cons, List.mem_append, List.mem_flatMap] at h
    rcases h with hl | ⟨piece, hpiece, hl⟩
    · exact Or.inr ⟨first, List.mem_cons_self, hl⟩
    · rcases List.mem_cons.1 hl with rfl | hl
      · exact Or.inl rfl
      · exact Or.inr ⟨piece, List.mem_cons_of_mem _ hpiece, hl⟩

/-- Suffixed terms with bars between them derive an alternation, also where empty branches are not
    allowed: none of them is empty. -/
theorem derives_branches (h : List.Forall₂ (Derives depth .suffix) pieces nodes)
    (hlength : 2 ≤ nodes.length) (allowEmpty : Bool) :
    Derives depth (branchesRule allowEmpty) (List.intercalate [.operator '|'] pieces)
      (.alternation nodes) := by
  cases h with
  | nil => exact absurd hlength (by decide)
  | @cons lexemes node pieces nodes hfirst hothers =>
    rcases List.forall₂_iff_zip.1 hothers with ⟨hsame, hbranches⟩
    -- A suffixed term begins with a lexeme.
    have hne : ∀ {lexemes node}, Derives depth .suffix lexemes node → lexemes ≠ [] := by
      intro lexemes node hsuffix
      rcases hsuffix.suffix_start with ⟨l, rest, rfl, -⟩
      exact List.cons_ne_nil l rest
    refine derives_branchesRule_iff.2 ⟨(lexemes, node), pieces.zip nodes,
      hfirst.expression_of_suffix, fun branch hbranch => ?_, ?_, ?_⟩
    · have hsuffix := hbranches hbranch
      exact ⟨hsuffix.expression_of_suffix, Or.inr ⟨hne hfirst, hne hsuffix⟩⟩
    · have hpieces := List.map_fst_zip hsame.le
      rw [intercalate_cons, withBars, ← hpieces, List.flatMap_map, hpieces]
    · rw [List.map_snd_zip hsame.ge]
      unfold sideBySide
      split
      · exact absurd hlength (by simp)
      · rfl

end Derivations

end Pattern

namespace Regex

open Pattern

/-! ### Printed trees -/

theorem legible_parenthesized (node : Regex) {lexemes : List Lexeme}
    (h : ∀ l ∈ lexemes, Legible l) : ∀ l ∈ node.parenthesized lexemes, Legible l := by
  unfold parenthesized
  split
  · refine List.forall_mem_cons.2 ⟨rfl, List.forall_mem_append.2 ⟨h, ?_⟩⟩
    simp [Legible, Pattern.isOperator]
  · exact h

theorem legible_rangeLexemes {range : Char × Char} (hlow : isSymbol range.1 = true)
    (hhigh : isSymbol range.2 = true) : ∀ l ∈ rangeLexemes range, Legible l := by
  unfold rangeLexemes
  split
  · exact List.forall_mem_singleton.2 (legible_guarded hlow)
  · have hhyphen : Legible (.plain '-') := by simp [Legible, Pattern.isOperator, isSymbol]
    simp [legible_guarded hlow, legible_guarded hhigh, hhyphen]

mutual

/-- The lexemes of a tree are read back from their text. -/
theorem legible_lexemes (node : Regex) (h : node.Readable) : ∀ l ∈ node.lexemes, Legible l := by
  cases node with
  | character symbols =>
    rcases h with ⟨c, rfl, hc⟩
    exact List.forall_mem_singleton.2 (legible_guarded hc)
  | characterSet ranges =>
    -- The brackets are operators, and between them there are guarded ends of ranges.
    refine List.forall_mem_cons.2 ⟨rfl, List.forall_mem_append.2 ⟨fun l hl => ?_, ?_⟩⟩
    · rcases List.mem_flatMap.1 hl with ⟨range, hrange, hl⟩
      exact legible_rangeLexemes (h range hrange).1 (h range hrange).2.1 l hl
    · exact List.forall_mem_singleton.2 rfl
  | wildcard => exact List.forall_mem_singleton.2 rfl
  | missing => exact absurd h id
  | concatenation parts =>
    intro l hl
    rcases List.mem_flatten.1 hl with ⟨piece, hpiece, hl⟩
    exact legible_lexemesAll parts h.2 piece hpiece l hl
  | alternation branches =>
    intro l hl
    rcases mem_intercalate hl with rfl | ⟨piece, hpiece, hl⟩
    · exact rfl
    · exact legible_lexemesAll branches h.2 piece hpiece l hl
  | iteration body =>
    exact List.forall_mem_append.2
      ⟨legible_parenthesized body (legible_lexemes body h), List.forall_mem_singleton.2 rfl⟩
  | optional body =>
    exact List.forall_mem_append.2
      ⟨legible_parenthesized body (legible_lexemes body h), List.forall_mem_singleton.2 rfl⟩

theorem legible_lexemesAll (nodes : List Regex) (h : ReadableAll nodes) :
    ∀ piece ∈ lexemesAll nodes, ∀ l ∈ piece, Legible l := by
  cases nodes with
  | nil => simp [lexemesAll]
  | cons node rest =>
    exact List.forall_mem_cons.2
      ⟨legible_parenthesized node (legible_lexemes node h.1), legible_lexemesAll rest h.2⟩

end

mutual

/-- The lexemes of a tree below another node derive the tree as a suffixed term. -/
theorem derives_parenthesized (depth : Int) (node : Regex) (h : node.Readable)
    (hheight : depth + node.height ≤ maxNesting) :
    Derives depth .suffix (node.parenthesized node.lexemes) node := by
  cases node with
  | character symbols =>
    rcases h with ⟨c, rfl, -⟩
    exact derives_character.suffix_of_term
  | characterSet ranges =>
    have hitems := items_rangeLexemes fun range hrange => (h range hrange).2.2
    exact (Derives.characterClass hitems).suffix_of_term
  | wildcard => exact Derives.wildcard.suffix_of_term
  | missing => exact absurd h id
  | concatenation parts =>
    -- The parts are lower by one, which makes up for the parentheses.
    rw [height] at hheight
    have hparts := derives_parenthesizedAll (depth + 1) parts h.2 (by omega)
    have hrow := derives_row hparts h.1
    exact derives_inParentheses (by omega) (hrow.branches_of_expression true)
  | alternation branches =>
    rw [height] at hheight
    have hbranches := derives_parenthesizedAll (depth + 1) branches h.2 (by omega)
    exact derives_inParentheses (by omega) (derives_branches hbranches h.1 true)
  | iteration body =>
    have hbody := derives_parenthesized depth body h (by rw [height] at hheight; omega)
    exact hbody.quantify (.plus body) hheight
  | optional body =>
    have hbody := derives_parenthesized depth body h (by rw [height] at hheight; omega)
    exact hbody.quantify (.question body) hheight

theorem derives_parenthesizedAll (depth : Int) (nodes : List Regex) (h : ReadableAll nodes)
    (hheight : depth + heightAll nodes ≤ maxNesting) :
    List.Forall₂ (Derives depth .suffix) (lexemesAll nodes) nodes := by
  cases nodes with
  | nil => exact .nil
  | cons node rest =>
    rw [heightAll] at hheight
    exact .cons (derives_parenthesized depth node h.1 (by omega))
      (derives_parenthesizedAll depth rest h.2 (by omega))

end

/-- The lexemes of a tree that stands by itself derive the tree as a whole pattern. -/
theorem derives_lexemes (node : Regex) (h : node.Readable)
    (hheight : (node.height : Int) ≤ maxNesting) : Derives 0 .alternation node.lexemes node := by
  have hzero : (0 : Int) + node.height ≤ maxNesting := by rwa [Int.zero_add]
  cases node with
  | concatenation parts =>
    rw [height] at hzero
    have hparts := derives_parenthesizedAll 0 parts h.2 (by omega)
    exact (derives_row hparts h.1).branches_of_expression false
  | alternation branches =>
    rw [height] at hzero
    have hbranches := derives_parenthesizedAll 0 branches h.2 (by omega)
    exact derives_branches hbranches h.1 false
  -- Anything else is a suffixed term by itself.
  | _ =>
    have hsuffix := derives_parenthesized 0 _ h hzero
    exact hsuffix.expression_of_suffix.branches_of_expression false

end Regex

namespace Pattern

variable {node : Regex}

theorem parse_textOf {lexemes : List Lexeme} (hlegible : ∀ l ∈ lexemes, Legible l)
    (h : Derives 0 .alternation lexemes node) : parse (textOf lexemes) = .ok node :=
  parse_eq_ok_iff.2 ⟨lexemes, spelling_textOf hlegible, h⟩

/-- A printed tree is read back as itself, with and without parentheses around an alternation that
    has an empty branch. -/
theorem parse_print (node : Regex) (hreadable : node.Readable)
    (hheight : (node.height : Int) ≤ maxNesting) :
    parse node.print = .ok node ∧ parse (textOf node.lexemes) = .ok node := by
  have hlegible := node.legible_lexemes hreadable
  have hbare := parse_textOf hlegible (node.derives_lexemes hreadable hheight)
  refine ⟨?_, hbare⟩
  cases node with
  | alternation branches =>
    rw [Regex.print]
    split
    · -- The parentheses are those that the alternation would have below another node.
      have hsuffix := Regex.derives_parenthesized 0 _ hreadable (by rwa [Int.zero_add])
      exact parse_textOf (Regex.legible_parenthesized (.alternation branches) hlegible)
        (hsuffix.expression_of_suffix.branches_of_expression false)
    · exact hbare
  | _ => exact hbare

end Pattern

/-- A tree with empty branches at the root and below, quantifiers one behind another, and operators
    as symbols outside and inside of a class. -/
def Regex.bristlingTree : Regex :=
  .alternation
    [.concatenation [],
      .optional (.iteration (.optional (.alternation [.character ['+'], .concatenation []]))),
      .concatenation [.characterSet [(']', ']'), ('-', '-'), ('+', '\\')], .character ['\\']]]

example : Regex.bristlingTree.print = "(()|(\\+|())?+?|([\\]\\-+-\\\\]\\\\))".toList := by decide

theorem Pattern.parse_print_bristlingTree :
    Regex.bristlingTree.Readable ∧ (Regex.bristlingTree.height : Int) ≤ maxNesting ∧
      parse Regex.bristlingTree.print = .ok Regex.bristlingTree ∧
        parse (textOf Regex.bristlingTree.lexemes) = .ok Regex.bristlingTree := by
  have hreadable : Regex.bristlingTree.Readable := by
    simp [Regex.bristlingTree, Regex.Readable, Regex.ReadableAll, isSymbol]
  have hheight : (Regex.bristlingTree.height : Int) ≤ maxNesting := by decide
  exact ⟨hreadable, hheight, parse_print _ hreadable hheight⟩

end FiniteState
