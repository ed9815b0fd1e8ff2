import FiniteState.Proofs.Constructions
import FiniteState.Regex.Outline

/-!
# Heights of Parsed Trees

However long a pattern is, its tree has a height below a constant, so what goes down the tree by
recursion makes a bounded number of nested calls.

Two limits come together here. Groups lie inside one another only up to a depth, but a group without
a quantifier may hold an alternation with a row in it, and so add two levels to the tree. A
quantifier may raise a tree no further than what its depth leaves of the same limit, so behind a
quantifier the height counts once for every level, and there is less room than without. The bound
that holds at every depth is thus that of the groups alone (`Derives.height_le`): twice the depth
that is left, and up to three for the alternation, the row and the term at the bottom. Parentheses
take one off what is left and lead from a group to a term, which is what the two levels of a group
are worth.

The bound is reached by groups with an alternation and a row in each (`nestedTree`).

Recursion on a tree calls itself on the children. With such a step written out, what is done beyond
as many nested calls as the tree is high makes no difference (`Regex.iterate_eq`).

## Main definitions

* `Regex.children`: The nodes below the root.
* `Regex.compileStep`, `Regex.outlineStep`: One call, given what the nested calls return.
* `Regex.DescendsWithin`: A number of nested calls is enough for a tree.
* `Pattern.Constructed`: The construction of a whole pattern.
* `Pattern.nested`, `Pattern.nestedTree`: A pattern with a tree as high as can be.

## Theorems

* `Regex.descendsWithin_of_height_le`: As many nested calls as the height are enough.
* `Pattern.Derives.height_le`: The bound at every depth.
* `Pattern.parse_nested`: It is reached.
* `Pattern.parse_height_bounded`: Quantifiers, trees and recursion keep within their bounds.
-/

namespace FiniteState

namespace Regex

/-! ### Recursion on trees -/

/-- The nodes right below the root. -/
def children : Regex → List Regex
  | concatenation parts => parts
  | alternation branches => branches
  | iteration body => [body]
  | optional body => [body]
  | _ => []

theorem height_pos (node : Regex) : 0 < node.height := by
  cases node <;> simp [height]

theorem height_lt_of_mem_children {node child : Regex} (h : child ∈ node.children) :
    child.height < node.height := by
  cases node with
  | concatenation parts => exact Nat.lt_succ_of_le (height_le_heightAll h)
  | alternation branches => exact Nat.lt_succ_of_le (height_le_heightAll h)
  | iteration body =>
    rw [List.mem_singleton.1 h]
    exact Nat.lt_succ_self _
  | optional body =>
    rw [List.mem_singleton.1 h]
    exact Nat.lt_succ_self _
  | _ => exact absurd h List.not_mem_nil

/-- Where a function calls itself on the children only, the calls beyond the height of a tree make
    no difference, whatever is done in their place. -/
theorem iterate_eq {β : Type} {step : (Regex → β) → Regex → β} {f : Regex → β}
    (hstep : ∀ call node, (∀ child ∈ node.children, call child = f child) → step call node = f node)
    (beyond : Regex → β) {count : Nat} {node : Regex} (h : node.height ≤ count) :
    (step^[count] beyond) node = f node := by
  induction count generalizing node with
  | zero => exact absurd node.height_pos (by omega)
  | succ count ih =>
    -- The first call hands the children to what has one nested call less.
    rw [Function.iterate_succ_apply']
    refine hstep _ node fun child hchild => ih ?_
    have hlt := height_lt_of_mem_children hchild
    omega

/-- One call of `compile`, given what the nested calls return. -/
def compileStep (call : Regex → Except Automaton.Fault Automaton) :
    Regex → Except Automaton.Fault Automaton
  | character symbols => do return singleEdges (← checkSymbols symbols)
  | characterSet ranges => do
    let characters ← ranges.mapM fun range => checkSymbols (charactersBetween range.1 range.2)
    return singleEdges characters.flatten
  | wildcard => return singleEdges symbols
  | missing => throw .missingCharacter
  | concatenation parts => do Automaton.concatenation (← parts.mapM call)
  | alternation branches => do Automaton.disjunction (← branches.mapM call)
  | iteration body => do Automaton.iteration (← call body)
  | optional body => do Automaton.option (← call body)

/-- One call of `outlineLines`, given what the nested calls return. -/
def outlineStep (call : Regex → Nat → List String) : Regex → Nat → List String
  | character symbols, level =>
    [indented level ("CharacterNode \x7b " ++ quotedSymbols symbols ++ " \x7d")]
  | characterSet ranges, level =>
    enclosed level "CharacterSetNode"
      (ranges.map fun range => indented (level + 1) (rangeLine range))
  | wildcard, level => [indented level "WildcardNode \x7b\x7d"]
  | missing, level => [indented level "CharacterNode \x7b \"None\" \x7d"]
  | concatenation parts, level =>
    enclosed level "ConcatenationNode" (parts.flatMap fun part => call part (level + 1))
  | alternation branches, level =>
    enclosed level "GroupNode" (branches.flatMap fun branch => call branch (level + 1))
  | iteration body, level => enclosed level "IterationNode" (call body (level + 1))
  | optional body, level => enclosed level "OptionalNode" (call body (level + 1))

/-- A number of nested calls is enough to turn a tree into an automaton and into an outline: it
    makes no difference what is done in place of further ones. -/
def DescendsWithin (count : Nat) (node : Regex) : Prop :=
  (∀ beyond, (compileStep^[count] beyond) node = node.compile) ∧
    ∀ beyond level, (outlineStep^[count] beyond) node level = outlineLines level node

theorem mapM_eq_compileAll {call : Regex → Except Automaton.Fault Automaton} {nodes : List Regex}
    (h : ∀ node ∈ nodes, call node = node.compile) : nodes.mapM call = compileAll nodes := by
  induction nodes with
  | nil => rfl
  | cons node nodes ih =>
    rcases List.forall_mem_cons.1 h with ⟨hnode, hnodes⟩
    rw [List.mapM_cons, hnode, ih hnodes]
    rfl

theorem flatMap_eq_outlineAll {call : Regex → Nat → List String} {nodes : List Regex}
    (h : ∀ node ∈ nodes, call node = fun level => outlineLines level node) (level : Nat) :
    (nodes.flatMap fun node => call node level) = outlineAll level nodes := by
  induction nodes with
  | nil => rfl
  | cons node nodes ih =>
    rcases List.forall_mem_cons.1 h with ⟨hnode, hnodes⟩
    rw [List.flatMap_cons, hnode, ih hnodes]
    rfl

theorem compileStep_eq (call : Regex → Except Automaton.Fault Automaton) (node : Regex)
    (h : ∀ child ∈ node.children, call child = child.compile) :
    compileStep call node = node.compile := by
  cases node with
  | concatenation parts =>
    have hparts : ∀ part ∈ parts, call part = part.compile := h
    rw [compileStep, mapM_eq_compileAll hparts, compile]
  | alternation branches =>
    have hbranches : ∀ branch ∈ branches, call branch = branch.compile := h
    rw [compileStep, mapM_eq_compileAll hbranches, compile]
  | iteration body => rw [compileStep, h body List.mem_cons_self, compile]
  | optional body => rw [compileStep, h body List.mem_cons_self, compile]
  -- Leaves make no calls.
  | _ => rw [compileStep, compile]

theorem outlineStep_eq (call : Regex → Nat → List String) (node : Regex)
    (h : ∀ child ∈ node.children, call child = fun level => outlineLines level child) :
    outlineStep call node = fun level => outlineLines level node := by
  funext level
  cases node with
  | concatenation parts =>
    have hparts : ∀ part ∈ parts, call part = fun level => outlineLines level part := h
    rw [outlineStep, flatMap_eq_outlineAll hparts, outlineLines]
  | alternation branches =>
    have hbranches : ∀ branch ∈ branches, call branch = fun level => outlineLines level branch := h
    rw [outlineStep, flatMap_eq_outlineAll hbranches, outlineLines]
  | iteration body => rw [outlineStep, h body List.mem_cons_self, outlineLines]
  | optional body => rw [outlineStep, h body List.mem_cons_self, outlineLines]
  | _ => rw [outlineStep, outlineLines]

/-- As many nested calls as the tree is high are enough. -/
theorem descendsWithin_of_height_le {count : Nat} {node : Regex} (h : node.height ≤ count) :
    node.DescendsWithin count :=
  ⟨fun beyond => iterate_eq compileStep_eq beyond h,
    fun beyond level => congrFun (iterate_eq outlineStep_eq beyond h) level⟩

theorem heightAll_le {nodes : List Regex} {bound : Nat} (h : ∀ node ∈ nodes, node.height ≤ bound) :
    heightAll nodes ≤ bound := by
  induction nodes with
  | nil => exact Nat.zero_le _
  | cons node nodes ih =>
    rcases List.forall_mem_cons.1 h with ⟨hnode, hnodes⟩
    rw [heightAll]
    exact Nat.max_le.2 ⟨hnode, ih hnodes⟩

end Regex

namespace Pattern

/-! ### The bound -/

variable {depth : Int} {lexemes : List Lexeme} {node outer : Regex}

theorem height_inRow_le {nodes : List Regex} {bound : Nat}
    (h : ∀ node ∈ nodes, node.height ≤ bound) : (inRow nodes).height ≤ bound + 1 := by
  unfold inRow
  split
  · exact (h _ List.mem_cons_self).trans (Nat.le_succ _)
  · exact Nat.succ_le_succ (Regex.heightAll_le h)

theorem height_sideBySide_le {first : Regex} {others : List Regex} {bound : Nat}
    (h : ∀ node ∈ first :: others, node.height ≤ bound) :
    (sideBySide first others).height ≤ bound + 1 := by
  cases others with
  | nil => exact (h _ List.mem_cons_self).trans (Nat.le_succ _)
  | cons second others => exact Nat.succ_le_succ (Regex.heightAll_le h)

/-- Either there is no quantifier, or the last of them has kept to the limit. -/
theorem Quantified.eq_or_height_le {quantifiers : List Lexeme}
    (h : Quantified depth quantifiers node outer) :
    outer = node ∨ depth + outer.height ≤ maxNesting := by
  induction h with
  | nil => exact Or.inl rfl
  | cons _ hheight _ ih =>
    rcases ih with rfl | hle
    · exact Or.inr hheight
    · exact Or.inr hle

/-- What a rule may add to the levels of the groups that can still be opened. -/
def slack : Rule → Nat
  | .term => 1
  | .suffix => 1
  | .expression => 2
  | .alternation => 3
  | .group => 3

theorem height_branches_le {first : List Lexeme × Regex} {others : List (List Lexeme × Regex)}
    {bound : Nat} (h : ∀ branch ∈ first :: others, branch.2.height ≤ bound) :
    (sideBySide first.2 (others.map Prod.snd)).height ≤ bound + 1 :=
  height_sideBySide_le fun _ hnode => by
    rcases List.mem_map.1 (show _ ∈ (first :: others).map Prod.snd from hnode) with
      ⟨branch, hbranch, rfl⟩
    exact h branch hbranch

/-- Every group that can still be opened allows for two levels. -/
theorem Derives.height_le {rule : Rule} (h : Derives depth rule lexemes node) {room : Nat}
    (hroom : depth + room = maxNesting) : node.height ≤ 2 * room + slack rule := by
  induction h generalizing room with
  | wildcard => exact Nat.le_add_left _ _
  | plain c => exact Nat.le_add_left _ _
  | escaped c => exact Nat.le_add_left _ _
  | characterClass _ => exact Nat.le_add_left _ _
  | @parentheses depth _ _ hdepth _ ih =>
    -- One level deeper, the alternation and the row of the group take the place of its own room.
    obtain ⟨inner, rfl⟩ : ∃ inner, room = inner + 1 := ⟨room - 1, by omega⟩
    push_cast at hroom
    have hinner : depth + 1 + inner = maxNesting := by omega
    have hle := ih hinner
    simp only [slack] at hle ⊢
    omega
  | suffix _ hquantified ih =>
    -- A quantifier leaves less room than the term that it stands behind.
    rcases hquantified.eq_or_height_le with rfl | hle
    · exact ih hroom
    · simp only [slack]
      omega
  | expression parts _ ih =>
    refine height_inRow_le fun node hnode => ?_
    rcases List.mem_map.1 hnode with ⟨part, hpart, rfl⟩
    exact ih part hpart hroom
  | alternation first others _ _ ih =>
    exact height_branches_le fun branch hbranch => ih branch hbranch hroom
  | group first others _ ih =>
    exact height_branches_le fun branch hbranch => ih branch hbranch hroom

/-! ### It is reached -/

/-- A character, and behind a bar another one with a pattern behind it. -/
def besides (pattern : List Char) : List Char :=
  'x' :: '|' :: 'y' :: pattern

/-- The tree of a pattern that stands besides. -/
def besidesTree (node : Regex) : Regex :=
  .alternation [.character ['x'], .concatenation [.character ['y'], node]]

/-- A number of groups in one another, with an alternation and a row in each. -/
def nested : Nat → List Char
  | 0 => besides ['x']
  | groups + 1 => besides (grouped (nested groups))

/-- The tree of nested groups. -/
def nestedTree : Nat → Regex
  | 0 => besidesTree (.character ['x'])
  | groups + 1 => besidesTree (nestedTree groups)

theorem height_nestedTree (groups : Nat) : (nestedTree groups).height = 2 * groups + 3 := by
  induction groups with
  | zero => rfl
  | succ groups ih =>
    rw [nestedTree, besidesTree]
    simp only [Regex.height, Regex.heightAll, ih]
    omega

theorem Spelling.besides {text : List Char} (h : Spelling text lexemes) :
    Spelling (besides text) (.plain 'x' :: .operator '|' :: .plain 'y' :: lexemes) :=
  .bare (by decide) (by decide) (.bare (by decide) (by decide) (.bare (by decide) (by decide) h))

theorem Derives.besides (h : Derives depth .suffix lexemes node) :
    Derives depth .alternation (.plain 'x' :: .operator '|' :: .plain 'y' :: lexemes)
      (besidesTree node) := by
  have hx : Derives depth .expression [.plain 'x'] (.character ['x']) :=
    (Derives.plain 'x').suffix_of_term.expression_of_suffix
  -- The term stands behind the second letter in the same row.
  have hrow : Derives depth .expression (.plain 'y' :: lexemes)
      (.concatenation [.character ['y'], node]) := by
    have hparts := derives_row (.cons (Derives.plain 'y').suffix_of_term (.cons h .nil)) (by simp)
    simpa using hparts
  have hbranches := Derives.alternation ([.plain 'x'], .character ['x'])
    [(.plain 'y' :: lexemes, .concatenation [.character ['y'], node])]
    (List.forall_mem_cons.2 ⟨hx, List.forall_mem_singleton.2 hrow⟩) (Or.inr (by simp))
  rw [withBars, List.flatMap_singleton] at hbranches
  exact hbranches

theorem exists_derives_nested (groups : Nat) (hdepth : depth + groups ≤ maxNesting) :
    ∃ lexemes, Spelling (nested groups) lexemes ∧
      Derives depth .alternation lexemes (nestedTree groups) := by
  induction groups generalizing depth with
  | zero =>
    exact ⟨_, .besides (.bare (by decide) (by decide) .nil),
      (Derives.plain 'x').suffix_of_term.besides⟩
  | succ groups ih =>
    push_cast at hdepth
    -- One more pair of parentheses goes one level deeper.
    have hinner : depth + 1 + groups ≤ maxNesting := by omega
    rcases ih hinner with ⟨lexemes, hspelling, hderives⟩
    exact ⟨_, hspelling.grouped.besides,
      (derives_inParentheses (by omega) hderives.group_of_alternation).besides⟩

/-- Groups nested as deep as can be are read. -/
theorem parse_nested : parse (nested maxNesting.toNat) = .ok (nestedTree maxNesting.toNat) :=
  parse_eq_ok_iff.2 (exists_derives_nested _ (by decide))

/-! ### Everything keeps within the bounds -/

/-- How a whole pattern is constructed. -/
def Constructed (pattern : List Char) (c : Construction) : Prop :=
  Spelling pattern c.lexemes ∧ Constructs 0 .alternation c

/-- A pattern that is read has one construction, and every tree that a quantifier made in it fits
    the depth it was made at. The tree of the whole has at most two levels for each group that may
    be opened and three more, and some tree has as many. So that many nested calls are enough to go
    down any tree that a pattern is read as. -/
theorem parse_height_bounded (pattern : List Char) (node : Regex)
    (h : parse pattern = .ok node) :
    (∃ c, Constructed pattern c ∧ c.tree = node ∧ c.Bounded ∧
      ∀ other, Constructed pattern other → other = c) ∧
    (node.height : Int) ≤ 2 * maxNesting + 3 ∧
    node.DescendsWithin (2 * maxNesting + 3).toNat ∧
    ∃ highest tree, parse highest = .ok tree ∧ (tree.height : Int) = 2 * maxNesting + 3 := by
  rcases parse_eq_ok_iff.1 h with ⟨lexemes, hspelling, hderives⟩
  have hlimit : (0 : Int) + maxNesting.toNat = maxNesting := by decide
  have hheight : node.height ≤ 2 * maxNesting.toNat + 3 := hderives.height_le hlimit
  refine ⟨?_, by omega, Regex.descendsWithin_of_height_le (by omega), ?_⟩
  · rcases hderives.exists_construction with ⟨c, hc, rfl, htree, hbounded⟩
    refine ⟨c, ⟨hspelling, hc⟩, htree, hbounded, ?_⟩
    rintro other ⟨hspelling', hother⟩
    exact hother.unique hc (hspelling'.unique hspelling)
  -- As many groups as may be opened, each beside two letters, reach the bound.
  · refine ⟨_, _, parse_nested, ?_⟩
    rw [height_nestedTree]
    omega

/-- One quantifier stands within the group of another. -/
theorem parse_height_bounded_quantifiedGroup : ∃ node,
    parse "x|(y*z)+".toList = .ok node ∧ node.DescendsWithin (2 * maxNesting + 3).toNat ∧
      ∃ c, Constructed "x|(y*z)+".toList c ∧ c.tree = node ∧ c.Bounded ∧
        ∀ other, Constructed "x|(y*z)+".toList other → other = c := by
  have h : parse "x|(y*z)+".toList = .ok (.alternation [.character ['x'], .iteration
      (.concatenation [.optional (.iteration (.character ['y'])), .character ['z']])]) := by
    cbv
  have hbounded := parse_height_bounded _ _ h
  exact ⟨_, h, hbounded.2.2.1, hbounded.1⟩

end Pattern

end FiniteState
