import FiniteState.Proofs.Printing
import Mathlib

/-!
# Patterns in Parentheses

A pattern in parentheses is read as it is by itself, whatever stands around it. So patterns compose:
in a row, side by side, and with a quantifier behind them, their trees stay what they are.

For a reader this would have to be shown of every token it looks at ahead, and of every position it
compares. For the grammar it is a statement about one derivation: what lexemes derive outside of
groups they derive in a group. Two things differ there. Empty branches are allowed, which takes
nothing away, and the depth is greater by one. The limit on nesting bears upon the depth in two
places, at a parenthesis and at a quantifier. Both have room if the parentheses that are still to be
opened and the height of the tree have room together (`Derives.atDepth`). The induction is along the
derivation: parentheses add one to the depth and take one from those to be opened, and no part has
more to be opened or a higher tree than the whole.

Parentheses that open no group, in a class or behind a backslash, are counted as well where the
characters of a pattern are. That makes the count too large at worst.

## Main definitions

* `Pattern.openings`: How many parentheses lexemes open.
* `Pattern.grouped`: A pattern in parentheses.
* `Pattern.Groups`: A pattern in parentheses is a suffixed term with a certain tree.

## Theorems

* `Pattern.Derives.atDepth`: A derivation can be carried to any depth that has room for it.
* `Pattern.groups_of_parse`: A pattern can be put into parentheses if there is room for them.
* `Pattern.parse_flatten_grouped`: Patterns in parentheses in a row.
* `Pattern.parse_intercalate_grouped`: Patterns in parentheses with bars between them.
* `Pattern.Groups.parse_quantified`: A pattern in parentheses with a quantifier behind it.
* `Pattern.parse_grouped`: Patterns compose under grouping.
-/

namespace FiniteState

namespace Regex

theorem height_le_heightAll {node : Regex} {nodes : List Regex} (h : node ∈ nodes) :
    node.height ≤ heightAll nodes := by
  induction nodes with
  | nil => exact absurd h List.not_mem_nil
  | cons first nodes ih =>
    rw [heightAll]
    rcases List.mem_cons.1 h with rfl | h
    · exact Nat.le_max_left _ _
    · exact (ih h).trans (Nat.le_max_right _ _)

end Regex

namespace Pattern

variable {depth other : Int} {lexemes : List Lexeme} {node outer : Regex}

/-! ### Heights of parts -/

theorem height_le_inRow {nodes : List Regex} (h : node ∈ nodes) :
    node.height ≤ (inRow nodes).height := by
  unfold inRow
  split
  · rw [List.mem_singleton.1 h]
  · exact (Regex.height_le_heightAll h).trans (Nat.le_succ _)

theorem height_le_sideBySide {first : Regex} {others : List Regex} (h : node ∈ first :: others) :
    node.height ≤ (sideBySide first others).height := by
  cases others with
  | nil => rw [List.mem_singleton.1 h, sideBySide]
  | cons second others => exact (Regex.height_le_heightAll h).trans (Nat.le_succ _)

theorem Quantifies.height_le {l : Lexeme} (h : Quantifies l node outer) :
    node.height ≤ outer.height := by
  cases h with
  | plus => exact Nat.le_succ _
  | star => exact (Nat.le_succ _).trans (Nat.le_succ _)
  | question => exact Nat.le_succ _

theorem Quantified.height_le (h : Quantified depth lexemes node outer) :
    node.height ≤ outer.height := by
  induction h with
  | nil => exact Nat.le_refl _
  | cons hl _ _ ih => exact hl.height_le.trans ih

/-- The trees on the way are no higher than the last, so all of them fit where it does. -/
theorem Quantified.atDepth (h : Quantified depth lexemes node outer)
    (hroom : other + outer.height ≤ maxNesting) : Quantified other lexemes node outer := by
  induction h with
  | nil => exact .nil _
  | cons hl _ hrest ih =>
    have hle := hrest.height_le
    exact .cons hl (by omega) (ih hroom)

/-! ### Room for a derivation -/

/-- The number of parentheses that lexemes open. -/
def openings (lexemes : List Lexeme) : Nat :=
  lexemes.count (.operator '(')

theorem openings_le {part : List Lexeme} (h : part.Sublist lexemes) :
    openings part ≤ openings lexemes :=
  h.count_le _

/-- A text has no fewer parentheses than its lexemes open. -/
theorem Spelling.openings_le {text : List Char} (h : Spelling text lexemes) :
    openings lexemes ≤ text.count '(' := by
  induction h with
  | nil => exact Nat.le_refl _
  | @bare c text lexemes _ _ _ ih =>
    rw [openings] at ih ⊢
    by_cases hc : c = '('
    · -- This one opens a group, unless it stands in a class.
      subst hc
      have hlexeme : bareLexeme '(' = .operator '(' := rfl
      rw [hlexeme, List.count_cons_self, List.count_cons_self]
      exact Nat.succ_le_succ ih
    · have hlexeme : bareLexeme c ≠ .operator '(' := by
        unfold bareLexeme
        split <;> simp [hc]
      rw [List.count_cons_of_ne hlexeme, List.count_cons_of_ne hc]
      exact ih
  -- An escaped parenthesis is counted among the characters, but opens nothing.
  | @escaped c text lexemes _ _ ih =>
    have hlexeme : Lexeme.escaped c ≠ .operator '(' := by simp
    have hsublist : text.Sublist ('\\' :: c :: text) := by simp
    rw [openings, List.count_cons_of_ne hlexeme]
    exact ih.trans (hsublist.count_le _)

/-- Where there is room for branches side by side, there is room for each of them. -/
theorem room_of_branch {first branch : List Lexeme × Regex} {others : List (List Lexeme × Regex)}
    (hbranch : branch ∈ first :: others)
    (hroom : other + openings (withBars first others)
      + (sideBySide first.2 (others.map Prod.snd)).height ≤ maxNesting) :
    other + openings branch.1 + branch.2.height ≤ maxNesting := by
  have hopenings := openings_le (sublist_withBars hbranch)
  have hheight : branch.2.height ≤ (sideBySide first.2 (others.map Prod.snd)).height :=
    height_le_sideBySide (List.mem_map_of_mem (f := Prod.snd) hbranch)
  omega

/-- What lexemes derive at one depth of groups they derive at any other that leaves room for all
    parentheses and for the tree. -/
theorem Derives.atDepth {rule : Rule} (h : Derives depth rule lexemes node)
    (hroom : other + openings lexemes + node.height ≤ maxNesting) :
    Derives other rule lexemes node := by
  induction h generalizing other with
  | wildcard => exact .wildcard
  | plain c => exact .plain c
  | escaped c => exact .escaped c
  | characterClass hitems => exact .characterClass hitems
  | @parentheses depth lexemes node _ _ ih =>
    -- The depth grows by one and the parentheses left are fewer by one.
    have hopenings : openings (.operator '(' :: (lexemes ++ [.operator ')']))
        = openings lexemes + 1 := by
      simp [openings]
    rw [hopenings] at hroom
    exact .parentheses (by omega) (ih (by omega))
  | @suffix _ lexemes quantifiers _ _ _ hquantified ih =>
    have hopenings := openings_le (List.sublist_append_left lexemes quantifiers)
    -- The term below the quantifiers is no higher than what they make of it.
    have hheight := hquantified.height_le
    exact .suffix (ih (by omega)) (hquantified.atDepth (by omega))
  | expression parts _ ih =>
    refine .expression parts fun part hpart => ih part hpart ?_
    have hheight := height_le_inRow (List.mem_map_of_mem (f := Prod.snd) hpart)
    have hopenings := openings_le (List.sublist_flatten_of_mem
      (List.mem_map_of_mem (f := Prod.fst) hpart))
    rw [List.flatMap_def] at hroom
    omega
  | alternation first others _ hempty ih =>
    exact .alternation first others
      (fun branch hbranch => ih branch hbranch (room_of_branch hbranch hroom)) hempty
  | group first others _ ih =>
    exact .group first others
      fun branch hbranch => ih branch hbranch (room_of_branch hbranch hroom)

/-! ### Patterns in parentheses -/

/-- A pattern in parentheses. -/
def grouped (pattern : List Char) : List Char :=
  '(' :: (pattern ++ [')'])

/-- A pattern in parentheses is a suffixed term of a whole pattern, with a certain tree. -/
def Groups (pattern : List Char) (node : Regex) : Prop :=
  ∃ lexemes, Spelling (grouped pattern) lexemes ∧ Derives 0 .suffix lexemes node

theorem Spelling.append {text text' : List Char} {lexemes' : List Lexeme}
    (h : Spelling text lexemes) (h' : Spelling text' lexemes') :
    Spelling (text ++ text') (lexemes ++ lexemes') := by
  induction h with
  | nil => exact h'
  | bare hsymbol hbackslash _ ih => exact .bare hsymbol hbackslash ih
  | escaped hsymbol _ ih => exact .escaped hsymbol ih

/-- An operator by itself spells itself. -/
theorem spelling_operator {c : Char} (h : isOperator c = true) :
    Spelling [c] [.operator c] := by
  have hsymbol := isSymbol_of_isOperator h
  have hbare := Spelling.bare hsymbol.1 hsymbol.2 .nil
  rwa [bareLexeme, if_pos h] at hbare

theorem Spelling.grouped {text : List Char} (h : Spelling text lexemes) :
    Spelling (grouped text) (inParentheses lexemes) :=
  (spelling_operator rfl).append (h.append (spelling_operator rfl))

/-- An alternation is a group. -/
theorem Derives.group_of_alternation (h : Derives depth .alternation lexemes node) :
    Derives depth .group lexemes node := by
  cases h with
  | alternation first others hbranches _ => exact .group first others hbranches

/-- A pattern that leaves room for one more pair of parentheses can be put into them. -/
theorem groups_of_parse {pattern : List Char} (h : parse pattern = .ok node)
    (hroom : (pattern.count '(' : Int) + node.height < maxNesting) : Groups pattern node := by
  rcases parse_eq_ok_iff.1 h with ⟨lexemes, hspelling, hderives⟩
  have hopenings := hspelling.openings_le
  -- The whole pattern was derived outside of groups, and is carried into one.
  have hgroup : Derives (0 + 1) .group lexemes node :=
    hderives.group_of_alternation.atDepth (by omega)
  exact ⟨inParentheses lexemes, hspelling.grouped, derives_inParentheses (by omega) hgroup⟩

/-- The lexemes of patterns in parentheses, and what is derived from them. -/
theorem exists_pieces {patterns : List (List Char)} {nodes : List Regex}
    (h : List.Forall₂ Groups patterns nodes) : ∃ pieces,
      List.Forall₂ Spelling (patterns.map grouped) pieces ∧
        List.Forall₂ (Derives 0 .suffix) pieces nodes := by
  induction h with
  | nil => exact ⟨[], .nil, .nil⟩
  | cons hfirst _ ih =>
    rcases hfirst with ⟨lexemes, hspelling, hderives⟩
    rcases ih with ⟨pieces, hspellings, hall⟩
    exact ⟨lexemes :: pieces, .cons hspelling hspellings, .cons hderives hall⟩

theorem Spelling.flatten {texts : List (List Char)} {pieces : List (List Lexeme)}
    (h : List.Forall₂ Spelling texts pieces) : Spelling texts.flatten pieces.flatten := by
  induction h with
  | nil => exact .nil
  | cons hfirst _ ih => exact hfirst.append ih

theorem Spelling.intercalate {texts : List (List Char)} {pieces : List (List Lexeme)}
    (h : List.Forall₂ Spelling texts pieces) :
    Spelling (List.intercalate ['|'] texts) (List.intercalate [.operator '|'] pieces) := by
  induction h with
  | nil => exact .nil
  | cons hfirst hothers ih =>
    cases hothers with
    | nil => simpa using hfirst
    | cons =>
      rw [List.intercalate_cons_cons, List.intercalate_cons_cons]
      exact (hfirst.append (spelling_operator rfl)).append ih

variable {patterns : List (List Char)} {nodes : List Regex}

/-- Patterns in parentheses one after another are read as a row of their trees. -/
theorem parse_flatten_grouped (h : List.Forall₂ Groups patterns nodes)
    (hlength : nodes.length ≠ 1) :
    parse (patterns.map grouped).flatten = .ok (.concatenation nodes) := by
  rcases exists_pieces h with ⟨pieces, hspellings, hderives⟩
  exact parse_eq_ok_iff.2 ⟨pieces.flatten, .flatten hspellings,
    (derives_row hderives hlength).branches_of_expression false⟩

/-- Patterns in parentheses with bars between them are read as an alternation of their trees. -/
theorem parse_intercalate_grouped (h : List.Forall₂ Groups patterns nodes)
    (hlength : 2 ≤ nodes.length) :
    parse (List.intercalate ['|'] (patterns.map grouped)) = .ok (.alternation nodes) := by
  rcases exists_pieces h with ⟨pieces, hspellings, hderives⟩
  exact parse_eq_ok_iff.2 ⟨List.intercalate [.operator '|'] pieces, .intercalate hspellings,
    derives_branches hderives hlength false⟩

theorem parse_of_suffix {pattern : List Char} (hspelling : Spelling pattern lexemes)
    (h : Derives 0 .suffix lexemes node) : parse pattern = .ok node :=
  parse_eq_ok_iff.2 ⟨lexemes, hspelling, h.expression_of_suffix.branches_of_expression false⟩

/-- A pattern in parentheses is read as the pattern. -/
theorem Groups.parse_eq {pattern : List Char} (h : Groups pattern node) :
    parse (grouped pattern) = .ok node := by
  rcases h with ⟨lexemes, hspelling, hderives⟩
  exact parse_of_suffix hspelling hderives

/-- A pattern in parentheses and a quantifier behind it are read as what the quantifier makes of the
    tree. -/
theorem Groups.parse_quantified {pattern : List Char} {c : Char} (h : Groups pattern node)
    (hc : isOperator c = true) (hquantifies : Quantifies (.operator c) node outer)
    (hheight : (outer.height : Int) ≤ maxNesting) :
    parse (grouped pattern ++ [c]) = .ok outer := by
  rcases h with ⟨lexemes, hspelling, hderives⟩
  exact parse_of_suffix (hspelling.append (spelling_operator hc))
    (hderives.quantify hquantifies (by rwa [Int.zero_add]))

/-- Patterns in parentheses compose: they are read the same wherever they stand, as long as their
    own parentheses and the heights of their trees leave room for two more nodes. -/
theorem parse_grouped {p q : List Char} {P Q : Regex}
    (hp : parse p = .ok P) (hproom : (p.count '(' : Int) + P.height ≤ maxNesting - 2)
    (hq : parse q = .ok Q) (hqroom : (q.count '(' : Int) + Q.height ≤ maxNesting - 2) :
    parse (grouped p) = parse p ∧
      parse (grouped p ++ grouped q) = .ok (.concatenation [P, Q]) ∧
      parse (grouped p ++ '|' :: grouped q) = .ok (.alternation [P, Q]) ∧
      parse (grouped p ++ ['+']) = .ok (.iteration P) ∧
      parse (grouped p ++ ['?']) = .ok (.optional P) ∧
      parse (grouped p ++ ['*']) = .ok (.optional (.iteration P)) := by
  have hgroup : Groups p P := groups_of_parse hp (by omega)
  have hgroups : List.Forall₂ Groups [p, q] [P, Q] :=
    .cons hgroup (.cons (groups_of_parse hq (by omega)) .nil)
  have hrow := parse_flatten_grouped hgroups (by simp)
  have hbranches := parse_intercalate_grouped hgroups (by simp)
  refine ⟨hgroup.parse_eq.trans hp.symm, by simpa using hrow, by simpa using hbranches,
    hgroup.parse_quantified rfl (.plus P) ?_, hgroup.parse_quantified rfl (.question P) ?_,
    hgroup.parse_quantified rfl (.star P) ?_⟩
  -- What is left is the height below each quantifier, which the room of two nodes covers.
  all_goals
    simp only [Regex.height]
    omega

/-- The tree of a pattern with an empty branch, whose last parenthesis has a backslash. -/
def trailingTree : Regex :=
  .alternation
    [.character ['x'],
      .concatenation
        [.optional (.iteration (.alternation [.character ['y'], .concatenation []])),
          .character ['(']]]

/-- The tree of a pattern with parentheses in a class. -/
def bracketsTree : Regex :=
  .optional (.characterSet [(')', ')'), ('|', '|'), ('(', '(')])

theorem parse_grouped_trailingTree :
    (parse "x|(y|)*\\(".toList = .ok trailingTree ∧
      parse "[)|(]?".toList = .ok bracketsTree) ∧
    parse "(x|(y|)*\\()".toList = .ok trailingTree ∧
    parse "(x|(y|)*\\()([)|(]?)".toList = .ok (.concatenation [trailingTree, bracketsTree]) ∧
    parse "(x|(y|)*\\()|([)|(]?)".toList = .ok (.alternation [trailingTree, bracketsTree]) ∧
    parse "(x|(y|)*\\()+".toList = .ok (.iteration trailingTree) ∧
    parse "(x|(y|)*\\()?".toList = .ok (.optional trailingTree) ∧
    parse "(x|(y|)*\\()*".toList = .ok (.optional (.iteration trailingTree)) := by
  have htrailing : parse "x|(y|)*\\(".toList = .ok trailingTree := by cbv
  have hbrackets : parse "[)|(]?".toList = .ok bracketsTree := by cbv
  rcases parse_grouped htrailing (by decide) hbrackets (by decide) with ⟨hitself, hcompounds⟩
  exact ⟨⟨htrailing, hbrackets⟩, hitself.trans htrailing, hcompounds⟩

end Pattern

end FiniteState
