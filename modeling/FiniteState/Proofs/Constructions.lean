import FiniteState.Proofs.Grouping

/-!
# Constructions

How lexemes are made into a tree, with the trees that quantifiers make on the way and the depth of
groups that each of them is made at. The tree of a whole pattern does not tell these: parentheses
without a quantifier leave nothing in it, so the depth is lost.

The grammar has limits, which keep out what is too deep, and it could not be asked whether they are
kept. A construction knows of no limits. So what the limits achieve is a statement about the
constructions of the patterns that are read, of which it has to be known that they are what the
parser went through. That is because there is no choice: lexemes have one construction
(`Constructs.unique`). A term is over where its lexemes are, whatever follows. Quantifiers, an
expression and branches go on as far as they can, and are compared up to a lexeme that they cannot
contain.

## Main definitions

* `Pattern.Construction`: Lexemes, their tree, and the trees that quantifiers made of its parts.
* `Pattern.Constructs`: The constructions by a rule at a depth of groups.
* `Pattern.Construction.Bounded`: No quantifier made a tree that is too high for its depth.

## Theorems

* `Pattern.Spelling.unique`: A text spells one list of lexemes.
* `Pattern.Constructs.unique`: Lexemes have one construction.
* `Pattern.Derives.exists_construction`: What the grammar derives has a construction within the
  limits.
-/

namespace FiniteState

namespace Pattern

/-- Lexemes with the tree that stands for them, and the trees that quantifiers made of its parts,
    each with the depth of groups it was made at. -/
structure Construction where
  lexemes : List Lexeme
  tree : Regex
  made : List (Int × Regex)

namespace Construction

/-- A quantifier behind what has been constructed at a depth of groups. -/
def quantify (depth : Int) (inner : Construction) (l : Lexeme) : Construction :=
  let outer := (quantified ⟨l, 0⟩ inner.tree).getD inner.tree
  ⟨inner.lexemes ++ [l], outer, inner.made ++ [(depth, outer)]⟩

/-- A construction in parentheses. -/
def inGroup (inner : Construction) : Construction :=
  ⟨.operator '(' :: (inner.lexemes ++ [.operator ')']), inner.tree, inner.made⟩

/-- Constructions in a row. -/
def ofRow (parts : List Construction) : Construction :=
  ⟨parts.flatMap lexemes, inRow (parts.map tree), parts.flatMap made⟩

/-- The lexemes of branches with a bar before each. -/
def barred (branches : List Construction) : List Lexeme :=
  branches.flatMap fun branch => .operator '|' :: branch.lexemes

/-- Constructions side by side, with bars between them. -/
def ofBranches (first : Construction) (others : List Construction) : Construction :=
  ⟨first.lexemes ++ barred others, sideBySide first.tree (others.map tree),
    first.made ++ others.flatMap made⟩

/-- No tree that a quantifier made is higher than its depth leaves room for. -/
def Bounded (c : Construction) : Prop :=
  ∀ pair ∈ c.made, pair.1 + pair.2.height ≤ maxNesting

end Construction

/-- The constructions by a rule at a depth of groups, whatever the depth and the heights are. -/
inductive Constructs : Int → Rule → Construction → Prop
  | wildcard {depth : Int} : Constructs depth .term ⟨[.operator '.'], .wildcard, []⟩
  | plain {depth : Int} (c : Char) : Constructs depth .term ⟨[.plain c], .character [c], []⟩
  | escaped {depth : Int} (c : Char) : Constructs depth .term ⟨[.escaped c], .character [c], []⟩
  | characterClass {depth : Int} {lexemes : List Lexeme} {ranges : List (Char × Char)}
      (hitems : Items lexemes ranges) : Constructs depth .term
        ⟨.operator '[' :: (lexemes ++ [.operator ']']), .characterSet ranges, []⟩
  | parentheses {depth : Int} {inner : Construction} (h : Constructs (depth + 1) .group inner) :
      Constructs depth .term inner.inGroup
  | suffix {depth : Int} {term : Construction} (h : Constructs depth .term term)
      (quantifiers : List Lexeme) (hquantifiers : ∀ l ∈ quantifiers, IsQuantifier l) :
      Constructs depth .suffix (quantifiers.foldl (Construction.quantify depth) term)
  | expression {depth : Int} (parts : List Construction)
      (h : ∀ part ∈ parts, Constructs depth .suffix part) :
      Constructs depth .expression (.ofRow parts)
  | alternation {depth : Int} (first : Construction) (others : List Construction)
      (h : ∀ branch ∈ first :: others, Constructs depth .expression branch) :
      Constructs depth .alternation (.ofBranches first others)
  | group {depth : Int} (first : Construction) (others : List Construction)
      (h : ∀ branch ∈ first :: others, Constructs depth .expression branch) :
      Constructs depth .group (.ofBranches first others)

/-! ### There is one construction -/

/-- A text spells one list of lexemes. -/
theorem Spelling.unique {text : List Char} {lexemes others : List Lexeme}
    (h : Spelling text lexemes) (h' : Spelling text others) : lexemes = others := by
  induction h generalizing others with
  | nil =>
    cases h'
    rfl
  -- What a text spells first is decided by whether it begins with a backslash.
  | bare _ hbackslash _ ih =>
    cases h' with
    | bare _ _ rest => rw [ih rest]
    | escaped _ _ => exact absurd rfl hbackslash
  | escaped _ _ ih =>
    cases h' with
    | bare _ hbackslash _ => exact absurd rfl hbackslash
    | escaped _ rest => rw [ih rest]

theorem Shows.unique {l : Lexeme} {c d : Char} (h : Shows l c) (h' : Shows l d) : c = d := by
  cases h <;> cases h' <;> rfl

/-- Where an item is over and the class goes on or ends, no hyphen comes next. -/
theorem Items.head_ne_hyphen {lexemes x : List Lexeme} {ranges : List (Char × Char)}
    (h : Items lexemes ranges) {l : Lexeme} {rest : List Lexeme}
    (heq : lexemes ++ .operator ']' :: x = l :: rest) : l ≠ .plain '-' := by
  cases lexemes with
  | nil =>
    rw [← (List.cons.inj heq).1]
    simp
  | cons l' _ =>
    rw [← (List.cons.inj heq).1]
    exact h.start.2

/-- The items of a class are told by its lexemes, up to the bracket. -/
theorem Items.unique {lexemes others x y : List Lexeme} {ranges ranges' : List (Char × Char)}
    (h : Items lexemes ranges) (h' : Items others ranges')
    (heq : lexemes ++ .operator ']' :: x = others ++ .operator ']' :: y) :
    lexemes = others ∧ ranges = ranges' ∧ x = y := by
  -- A hyphen behind the first symbol tells a range from a symbol by itself, as no item begins with
  -- one, and the bracket tells the end, as none begins with that either.
  induction h generalizing others ranges' with
  | nil =>
    cases h' with
    | nil => exact ⟨rfl, rfl, (List.cons.inj heq).2⟩
    | symbol hstart _ _ => exact absurd (List.cons.inj heq).1.symm hstart.1
    | range hstart _ _ _ _ _ => exact absurd (List.cons.inj heq).1.symm hstart.1
  | symbol hstart hc hrest ih =>
    cases h' with
    | nil => exact absurd (List.cons.inj heq).1 hstart.1
    | symbol _ hc' hrest' =>
      rcases List.cons.inj heq with ⟨rfl, htail⟩
      rcases ih hrest' htail with ⟨rfl, rfl, rfl⟩
      rw [hc.unique hc']
      exact ⟨rfl, rfl, rfl⟩
    | range _ _ _ _ _ _ => exact absurd rfl (hrest.head_ne_hyphen (List.cons.inj heq).2)
  | range hstart hlow _ hhigh _ hrest ih =>
    cases h' with
    | nil => exact absurd (List.cons.inj heq).1 hstart.1
    | symbol _ _ hrest' => exact absurd rfl (hrest'.head_ne_hyphen (List.cons.inj heq).2.symm)
    | range _ hlow' _ hhigh' _ hrest' =>
      simp only [List.cons_append, List.cons.injEq, true_and] at heq
      rcases heq with ⟨rfl, rfl, heq⟩
      rcases ih hrest' heq with ⟨rfl, rfl, rfl⟩
      rw [hlow.unique hlow', hhigh.unique hhigh']
      exact ⟨rfl, rfl, rfl⟩

theorem lexemes_foldl_quantify (depth : Int) (term : Construction) (quantifiers : List Lexeme) :
    (quantifiers.foldl (Construction.quantify depth) term).lexemes =
      term.lexemes ++ quantifiers := by
  induction quantifiers generalizing term with
  | nil => rw [List.foldl_nil, List.append_nil]
  | cons l quantifiers ih =>
    rw [List.foldl_cons, ih, Construction.quantify, List.append_assoc, List.singleton_append]

/-- Quantifiers are over where no other comes next. -/
theorem quantifiers_unique {u v x y : List Lexeme} (hu : ∀ l ∈ u, IsQuantifier l)
    (hv : ∀ l ∈ v, IsQuantifier l) (hx : ¬ IsQuantifier (x.headD .finish))
    (hy : ¬ IsQuantifier (y.headD .finish)) (heq : u ++ x = v ++ y) : u = v ∧ x = y := by
  induction u generalizing v with
  | nil =>
    cases v with
    | nil => exact ⟨rfl, heq⟩
    | cons l v =>
      -- Then what comes behind would begin with a quantifier.
      rw [show x = l :: (v ++ y) from heq] at hx
      exact absurd (hv l List.mem_cons_self) hx
  | cons l u ih =>
    cases v with
    | nil =>
      rw [show y = l :: (u ++ x) from heq.symm] at hy
      exact absurd (hu l List.mem_cons_self) hy
    | cons l' v =>
      rcases List.cons.inj heq with ⟨rfl, htail⟩
      rcases ih (List.forall_mem_cons.1 hu).2 (List.forall_mem_cons.1 hv).2 htail with ⟨rfl, rfl⟩
      exact ⟨rfl, rfl⟩

theorem Constructs.term_start {depth : Int} {c : Construction} (h : Constructs depth .term c) :
    ∃ l rest, c.lexemes = l :: rest ∧ StartsTerm l := by
  cases h with
  | wildcard => exact ⟨_, _, rfl, Or.inl rfl⟩
  | plain c => exact ⟨_, _, rfl, trivial⟩
  | escaped c => exact ⟨_, _, rfl, trivial⟩
  | characterClass _ => exact ⟨_, _, rfl, Or.inr (Or.inr rfl)⟩
  | parentheses _ => exact ⟨_, _, rfl, Or.inr (Or.inl rfl)⟩

theorem Constructs.suffix_start {depth : Int} {c : Construction} (h : Constructs depth .suffix c) :
    ∃ l rest, c.lexemes = l :: rest ∧ StartsTerm l := by
  cases h with
  | suffix hterm quantifiers _ =>
    rcases hterm.term_start with ⟨l, rest, hl, hstart⟩
    refine ⟨l, rest ++ quantifiers, ?_, hstart⟩
    rw [lexemes_foldl_quantify, hl, List.cons_append]

/-- Where what is constructed by a rule can be told to end, given the lexeme that comes next. -/
def Follows : Rule → Lexeme → Prop
  | .term, _ => True
  | .suffix, l => ¬ IsQuantifier l
  | .expression, l => EndsExpression l
  | .alternation, l => EndsBranches l
  | .group, l => EndsBranches l

/-- No other construction by the rule has the same lexemes, or goes on beyond them. -/
def Alone (depth : Int) (rule : Rule) (c : Construction) : Prop :=
  ∀ other x y, Constructs depth rule other → c.lexemes ++ x = other.lexemes ++ y →
    Follows rule (x.headD .finish) → Follows rule (y.headD .finish) → c = other ∧ x = y

section Alone

variable {depth : Int} {x y : List Lexeme}

/-- What follows a suffixed term in a row is another one, or the end of the expression. -/
theorem follows_suffix_row {parts : List Construction}
    (h : ∀ part ∈ parts, Constructs depth .suffix part) (hx : EndsExpression (x.headD .finish)) :
    Follows .suffix ((parts.flatMap Construction.lexemes ++ x).headD .finish) := by
  cases parts with
  | nil => exact hx.not_isQuantifier
  | cons part parts =>
    rcases (h part List.mem_cons_self).suffix_start with ⟨l, rest, hl, hstart⟩
    rw [List.flatMap_cons, hl]
    exact hstart.not_isQuantifier

/-- An expression does not begin where it ends. -/
theorem not_endsExpression_of_row {part : Construction} (h : Constructs depth .suffix part)
    {z : List Lexeme} : ¬ EndsExpression ((part.lexemes ++ z).headD .finish) := by
  rcases h.suffix_start with ⟨l, rest, hl, hstart⟩
  rw [hl]
  exact hstart.not_endsExpression

theorem row_unique {parts others : List Construction}
    (halone : ∀ part ∈ parts, Alone depth .suffix part)
    (hparts : ∀ part ∈ parts, Constructs depth .suffix part)
    (hothers : ∀ part ∈ others, Constructs depth .suffix part)
    (hx : EndsExpression (x.headD .finish)) (hy : EndsExpression (y.headD .finish))
    (heq : parts.flatMap Construction.lexemes ++ x = others.flatMap Construction.lexemes ++ y) :
    parts = others ∧ x = y := by
  -- Neither row can go on where the other has ended, since that is no place for a term.
  induction parts generalizing others with
  | nil =>
    cases others with
    | nil => exact ⟨rfl, heq⟩
    | cons other others =>
      rw [show x = _ from heq, List.flatMap_cons, List.append_assoc] at hx
      exact absurd hx (not_endsExpression_of_row (hothers other List.mem_cons_self))
  | cons part parts ih =>
    rcases List.forall_mem_cons.1 hparts with ⟨hpart, hparts⟩
    rcases List.forall_mem_cons.1 halone with ⟨hfirst, halone⟩
    cases others with
    | nil =>
      rw [show y = _ from heq.symm, List.flatMap_cons, List.append_assoc] at hy
      exact absurd hy (not_endsExpression_of_row hpart)
    | cons other others =>
      rcases List.forall_mem_cons.1 hothers with ⟨hother, hlast⟩
      simp only [List.flatMap_cons, List.append_assoc] at heq
      rcases hfirst other _ _ hother heq (follows_suffix_row hparts hx)
        (follows_suffix_row hlast hy) with ⟨rfl, hrest⟩
      rcases ih halone hparts hlast hrest with ⟨rfl, rfl⟩
      exact ⟨rfl, rfl⟩

/-- What follows an expression among branches is a bar, or the end of the branches. -/
theorem endsExpression_barred {branches : List Construction}
    (hx : EndsBranches (x.headD .finish)) :
    EndsExpression ((Construction.barred branches ++ x).headD .finish) := by
  cases branches with
  | nil => exact hx.imp_right Or.inr
  | cons branch branches => exact Or.inr (Or.inl rfl)

theorem barred_unique {branches others : List Construction}
    (halone : ∀ branch ∈ branches, Alone depth .expression branch)
    (hothers : ∀ branch ∈ others, Constructs depth .expression branch)
    (hx : EndsBranches (x.headD .finish)) (hy : EndsBranches (y.headD .finish))
    (heq : Construction.barred branches ++ x = Construction.barred others ++ y) :
    branches = others ∧ x = y := by
  -- A bar does not end the branches, so one list of branches cannot be over before the other.
  have hbar : ∀ {z : List Lexeme}, ¬ EndsBranches ((Lexeme.operator '|' :: z).headD .finish) := by
    intro z hends
    rcases hends with hends | hends <;> simp at hends
  induction branches generalizing others with
  | nil =>
    cases others with
    | nil => exact ⟨rfl, heq⟩
    | cons other others =>
      rw [show x = _ from heq] at hx
      exact absurd hx hbar
  | cons branch branches ih =>
    rcases List.forall_mem_cons.1 halone with ⟨hfirst, halone⟩
    cases others with
    | nil =>
      rw [show y = _ from heq.symm] at hy
      exact absurd hy hbar
    | cons other others =>
      rcases List.forall_mem_cons.1 hothers with ⟨hother, hlast⟩
      have heq' : branch.lexemes ++ (Construction.barred branches ++ x) =
          other.lexemes ++ (Construction.barred others ++ y) := by
        simpa [Construction.barred] using heq
      rcases hfirst other _ _ hother heq' (endsExpression_barred hx) (endsExpression_barred hy) with
        ⟨rfl, hrest⟩
      rcases ih halone hlast hrest with ⟨rfl, rfl⟩
      exact ⟨rfl, rfl⟩

theorem branches_unique {first first' : Construction} {others others' : List Construction}
    (halone : ∀ branch ∈ first :: others, Alone depth .expression branch)
    (h : ∀ branch ∈ first' :: others', Constructs depth .expression branch)
    (hx : EndsBranches (x.headD .finish)) (hy : EndsBranches (y.headD .finish))
    (heq : (Construction.ofBranches first others).lexemes ++ x =
      (Construction.ofBranches first' others').lexemes ++ y) :
    first = first' ∧ others = others' ∧ x = y := by
  rcases List.forall_mem_cons.1 halone with ⟨hfirst, halone⟩
  rcases List.forall_mem_cons.1 h with ⟨hfirst', hothers'⟩
  have heq' : first.lexemes ++ (Construction.barred others ++ x) =
      first'.lexemes ++ (Construction.barred others' ++ y) := by
    simpa [Construction.ofBranches] using heq
  rcases hfirst first' _ _ hfirst' heq' (endsExpression_barred hx) (endsExpression_barred hy) with
    ⟨rfl, hrest⟩
  rcases barred_unique halone hothers' hx hy hrest with ⟨rfl, rfl⟩
  exact ⟨rfl, rfl, rfl⟩

/-- By each rule there is one construction up to where it can be told to end. -/
theorem Constructs.alone {rule : Rule} {c : Construction} (h : Constructs depth rule c) :
    Alone depth rule c := by
  -- The other construction is by the same rule, and for a term its first lexeme tells which case.
  induction h with
  | wildcard =>
    intro other x y hother heq _ _
    cases hother with
    | wildcard => exact ⟨rfl, (List.cons.inj heq).2⟩
    | _ => simp [Construction.inGroup] at heq
  | plain c =>
    intro other x y hother heq _ _
    cases hother with
    | plain c' =>
      simp only [List.cons_append, List.cons.injEq, Lexeme.plain.injEq, List.nil_append] at heq
      rcases heq with ⟨rfl, rfl⟩
      exact ⟨rfl, rfl⟩
    | _ => simp [Construction.inGroup] at heq
  | escaped c =>
    intro other x y hother heq _ _
    cases hother with
    | escaped c' =>
      simp only [List.cons_append, List.cons.injEq, Lexeme.escaped.injEq, List.nil_append] at heq
      rcases heq with ⟨rfl, rfl⟩
      exact ⟨rfl, rfl⟩
    | _ => simp [Construction.inGroup] at heq
  | characterClass hitems =>
    intro other x y hother heq _ _
    cases hother with
    | characterClass hitems' =>
      simp only [List.cons_append, List.append_assoc, List.cons.injEq, true_and,
        List.nil_append] at heq
      rcases hitems.unique hitems' heq with ⟨rfl, rfl, rfl⟩
      exact ⟨rfl, rfl⟩
    | _ => simp [Construction.inGroup] at heq
  | parentheses _ ih =>
    intro other x y hother heq _ _
    cases hother with
    | @parentheses _ inner' h' =>
      simp only [Construction.inGroup, List.cons_append, List.append_assoc, List.cons.injEq,
        true_and, List.nil_append] at heq
      -- The parenthesis that closes the one group closes the other.
      rcases ih inner' _ _ h' heq (Or.inr rfl) (Or.inr rfl) with ⟨rfl, hrest⟩
      exact ⟨rfl, (List.cons.inj hrest).2⟩
    | _ => simp [Construction.inGroup] at heq
  | suffix _ quantifiers hquantifiers ih =>
    intro other x y hother heq hx hy
    cases hother with
    | suffix hterm' quantifiers' hquantifiers' =>
      simp only [lexemes_foldl_quantify, List.append_assoc] at heq
      -- The terms are the same whatever follows, and then the quantifiers are what is left.
      rcases ih _ _ _ hterm' heq trivial trivial with ⟨rfl, hrest⟩
      rcases quantifiers_unique hquantifiers hquantifiers' hx hy hrest with ⟨rfl, rfl⟩
      exact ⟨rfl, rfl⟩
  | expression parts hparts ih =>
    intro other x y hother heq hx hy
    cases hother with
    | expression parts' hparts' =>
      rcases row_unique ih hparts hparts' hx hy heq with ⟨rfl, rfl⟩
      exact ⟨rfl, rfl⟩
  | alternation first others _ ih =>
    intro other x y hother heq hx hy
    cases hother with
    | alternation first' others' h' =>
      rcases branches_unique ih h' hx hy heq with ⟨rfl, rfl, rfl⟩
      exact ⟨rfl, rfl⟩
  | group first others _ ih =>
    intro other x y hother heq hx hy
    cases hother with
    | group first' others' h' =>
      rcases branches_unique ih h' hx hy heq with ⟨rfl, rfl, rfl⟩
      exact ⟨rfl, rfl⟩

/-- Lexemes have one construction. -/
theorem Constructs.unique {rule : Rule} {c other : Construction} (h : Constructs depth rule c)
    (hother : Constructs depth rule other) (heq : c.lexemes = other.lexemes) : c = other := by
  have hfollows : Follows rule (([] : List Lexeme).headD .finish) := by
    cases rule <;> simp [Follows, IsQuantifier, EndsExpression, EndsBranches]
  exact (h.alone other [] [] hother (by rw [heq]) hfollows hfollows).1

end Alone

/-! ### What the grammar derives is constructed within the limits -/

section Limits

variable {depth : Int} {lexemes : List Lexeme} {node outer : Regex}

/-- The limit is kept by each of the quantifiers. -/
theorem Quantified.bounded {quantifiers : List Lexeme} (h : Quantified depth quantifiers node outer)
    {c : Construction} (htree : c.tree = node) (hbounded : c.Bounded) :
    (quantifiers.foldl (Construction.quantify depth) c).tree = outer ∧
      (quantifiers.foldl (Construction.quantify depth) c).Bounded := by
  induction h generalizing c with
  | nil => exact ⟨htree, hbounded⟩
  | @cons l _ node outer _ hl hheight _ ih =>
    have hquantified : quantified ⟨l, 0⟩ node = some outer := quantified_eq_some_iff.2 hl
    have houter : (quantified ⟨l, 0⟩ c.tree).getD c.tree = outer := by
      rw [htree, hquantified, Option.getD_some]
    -- The pairs of the quantifiers before are within the limit, and so is that of the one that
    -- comes next.
    refine ih houter fun pair hpair => ?_
    rcases List.mem_append.1 hpair with hpair | hpair
    · exact hbounded pair hpair
    · rw [List.mem_singleton.1 hpair, houter]
      exact hheight

theorem Quantified.isQuantifier {quantifiers : List Lexeme}
    (h : Quantified depth quantifiers node outer) : ∀ l ∈ quantifiers, IsQuantifier l := by
  induction h with
  | nil => exact List.forall_mem_nil _
  | cons hl _ _ ih => exact List.forall_mem_cons.2 ⟨hl.isQuantifier, ih⟩

/-- Where each of some parts can be constructed, all of them can be. -/
theorem exists_constructions {rule : Rule} {parts : List (List Lexeme × Regex)}
    (h : ∀ part ∈ parts, ∃ c : Construction,
      Constructs depth rule c ∧ c.lexemes = part.1 ∧ c.tree = part.2 ∧ c.Bounded) :
    ∃ cs : List Construction, (∀ c ∈ cs, Constructs depth rule c) ∧ (∀ c ∈ cs, c.Bounded) ∧
      parts = cs.map fun c => (c.lexemes, c.tree) := by
  induction parts with
  | nil => exact ⟨[], List.forall_mem_nil _, List.forall_mem_nil _, rfl⟩
  | cons part parts ih =>
    rcases List.forall_mem_cons.1 h with ⟨⟨c, hc, hlexemes, htree, hbounded⟩, hrest⟩
    rcases ih hrest with ⟨cs, hcs, hbounded', rfl⟩
    refine ⟨c :: cs, List.forall_mem_cons.2 ⟨hc, hcs⟩,
      List.forall_mem_cons.2 ⟨hbounded, hbounded'⟩, ?_⟩
    rw [List.map_cons, hlexemes, htree]

theorem bounded_flatMap {cs : List Construction} (h : ∀ c ∈ cs, c.Bounded) :
    ∀ pair ∈ cs.flatMap Construction.made, pair.1 + pair.2.height ≤ maxNesting := by
  intro pair hpair
  rcases List.mem_flatMap.1 hpair with ⟨c, hc, hpair⟩
  exact h c hc pair hpair

/-- Branches that can be constructed can be so side by side. -/
theorem exists_ofBranches {first : List Lexeme × Regex} {others : List (List Lexeme × Regex)}
    (h : ∀ branch ∈ first :: others, ∃ c : Construction,
      Constructs depth .expression c ∧ c.lexemes = branch.1 ∧ c.tree = branch.2 ∧ c.Bounded) :
    ∃ (c : Construction) (cs : List Construction),
      (∀ branch ∈ c :: cs, Constructs depth .expression branch) ∧
        (Construction.ofBranches c cs).lexemes = withBars first others ∧
          (Construction.ofBranches c cs).tree = sideBySide first.2 (others.map Prod.snd) ∧
            (Construction.ofBranches c cs).Bounded := by
  rcases List.forall_mem_cons.1 h with ⟨⟨c, hc, hlexemes, htree, hbounded⟩, hothers⟩
  rcases exists_constructions hothers with ⟨cs, hcs, hbounded', rfl⟩
  refine ⟨c, cs, List.forall_mem_cons.2 ⟨hc, hcs⟩, ?_, ?_, ?_⟩
  · simp [Construction.ofBranches, Construction.barred, withBars, hlexemes, List.flatMap_map]
  · rw [Construction.ofBranches, htree, List.map_map]
    rfl
  · exact List.forall_mem_append.2 ⟨hbounded, bounded_flatMap hbounded'⟩

/-- What the grammar derives has a construction, and that is within the limits. -/
theorem Derives.exists_construction {rule : Rule} (h : Derives depth rule lexemes node) :
    ∃ c : Construction, Constructs depth rule c ∧ c.lexemes = lexemes ∧ c.tree = node ∧
      c.Bounded := by
  induction h with
  | wildcard => exact ⟨_, .wildcard, rfl, rfl, List.forall_mem_nil _⟩
  | plain c => exact ⟨_, .plain c, rfl, rfl, List.forall_mem_nil _⟩
  | escaped c => exact ⟨_, .escaped c, rfl, rfl, List.forall_mem_nil _⟩
  | characterClass hitems => exact ⟨_, .characterClass hitems, rfl, rfl, List.forall_mem_nil _⟩
  | parentheses _ _ ih =>
    rcases ih with ⟨c, hc, rfl, rfl, hbounded⟩
    exact ⟨c.inGroup, .parentheses hc, rfl, rfl, hbounded⟩
  -- Only quantifiers record heights, and each of them has been checked in the derivation.
  | suffix _ hquantified ih =>
    rcases ih with ⟨c, hc, rfl, htree, hbounded⟩
    rcases hquantified.bounded htree hbounded with ⟨htree', hbounded'⟩
    exact ⟨_, .suffix hc _ hquantified.isQuantifier, lexemes_foldl_quantify _ _ _, htree',
      hbounded'⟩
  | expression parts _ ih =>
    rcases exists_constructions ih with ⟨cs, hcs, hbounded, rfl⟩
    refine ⟨_, .expression cs hcs, ?_, ?_, bounded_flatMap hbounded⟩
    · simp [Construction.ofRow, List.flatMap_map]
    · rw [Construction.ofRow, List.map_map]
      rfl
  | alternation first others _ _ ih =>
    rcases exists_ofBranches ih with ⟨c, cs, hcs, hlexemes, htree, hbounded⟩
    exact ⟨_, .alternation c cs hcs, hlexemes, htree, hbounded⟩
  | group first others _ ih =>
    rcases exists_ofBranches ih with ⟨c, cs, hcs, hlexemes, htree, hbounded⟩
    exact ⟨_, .group c cs hcs, hlexemes, htree, hbounded⟩

end Limits

end Pattern

end FiniteState
