import Mathlib.Data.List.Forall2

/-!
# Outcomes

Steps that may fail, one after another and over the members of a list. A sequence succeeds if all
of its steps do, and a list is gone through if that succeeds at every member.

Two runs may also be compared without looking at how they end. `Agree` says that both fail, whatever
the faults are, or that both succeed with values that are alike; it is carried from step to step. Of
two lists with the same members, in whatever order and however often, both are gone through or
neither is, and the results have the same members again.

## Main definitions

* `Agree`: Two outcomes are both faults, or values that are alike.

## Theorems

* `bind_eq_ok_iff`, `mapError_eq_ok_iff`, `guard_eq_ok_iff`: When a sequence succeeds.
* `mapM_eq_ok_iff`: A function that may fail succeeds on a list if it does on every member.
* `bind_eq_error_iff`, `mapError_eq_error_iff`, `map_eq_error_iff`: When it fails.
* `mapM_eq_error`, `exists_of_mapM_eq_error`: It stops at the first member on which it fails.
* `mapM_map_eq`: Doing something to every result.
* `exists_mapM_iff`, `mem_mapM_iff`: Whether a list is gone through, and what the results are.
* `Agree.bind`, `agree_mapM`: Agreement from step to step, and over lists with the same members.
-/

namespace FiniteState

section Success

variable {α β ε ε' : Type}

/-- A sequence succeeds if both steps do. -/
theorem bind_eq_ok_iff {step : Except ε α} {next : α → Except ε β} {result : β} :
    (step >>= next) = .ok result ↔ ∃ value, step = .ok value ∧ next value = .ok result := by
  cases step <;> simp [bind, Except.bind]

/-- A sequence fails if one of its steps does. -/
theorem bind_eq_error_iff {step : Except ε α} {next : α → Except ε β} {error : ε} :
    (step >>= next) = .error error ↔
      step = .error error ∨ ∃ value, step = .ok value ∧ next value = .error error := by
  cases step <;> simp [bind, Except.bind]

/-- Other words for a fault change nothing about success. -/
theorem mapError_eq_ok_iff {f : ε → ε'} {outcome : Except ε α} {value : α} :
    outcome.mapError f = .ok value ↔ outcome = .ok value := by
  cases outcome <;> simp [Except.mapError]

theorem mapError_eq_error_iff {f : ε → ε'} {outcome : Except ε α} {error : ε'} :
    outcome.mapError f = .error error ↔ ∃ reason, outcome = .error reason ∧ f reason = error := by
  cases outcome <;> simp [Except.mapError]

theorem map_eq_error_iff {f : α → β} {outcome : Except ε α} {error : ε} :
    outcome.map f = .error error ↔ outcome = .error error := by
  cases outcome <;> simp [Except.map]

/-- What comes after a check is done only if the check does not fail. -/
theorem guard_eq_ok_iff {condition : Prop} [Decidable condition] {fault : ε}
    {next : PUnit → Except ε α} {value : α} :
    (if condition then throw fault >>= next else next ⟨⟩) = .ok value ↔
      ¬ condition ∧ next ⟨⟩ = .ok value := by
  by_cases h : condition
  · rw [if_pos h, bind_eq_ok_iff]
    simp [h, throw, throwThe, MonadExceptOf.throw]
  · rw [if_neg h]
    simp [h]

variable {f : α → Except ε β} {items : List α} {results : List β}

/-- A function that may fail succeeds on a list if it does on every member. -/
theorem mapM_eq_ok_iff :
    items.mapM f = .ok results ↔
      List.Forall₂ (fun item result => f item = .ok result) items results := by
  induction items generalizing results with
  | nil => cases results <;> simp [pure, Except.pure]
  | cons item items ih =>
    rw [List.mapM_cons]
    -- Success of the whole is success of the first and success of the others, on both sides.
    simp only [bind_eq_ok_iff, ih, pure, Except.pure, Except.ok.injEq, List.forall₂_cons_left_iff]
    constructor
    · intro h
      rcases h with ⟨result, hresult, others, hothers, rfl⟩
      exact ⟨result, others, hresult, hothers, rfl⟩
    · intro h
      rcases h with ⟨result, others, hresult, hothers, rfl⟩
      exact ⟨result, hresult, others, hothers, rfl⟩

/-- A function that may fail stops at the first member of a list on which it fails. -/
theorem mapM_eq_error {before after : List α} {item : α} {error : ε}
    (hbefore : ∀ x ∈ before, ∃ y, f x = .ok y) (hitem : f item = .error error) :
    (before ++ item :: after).mapM f = .error error := by
  induction before with
  | nil =>
    rw [List.nil_append, List.mapM_cons, hitem]
    rfl
  | cons x before ih =>
    rcases List.forall_mem_cons.1 hbefore with ⟨⟨y, hx⟩, hrest⟩
    rw [List.cons_append, List.mapM_cons, hx, ih hrest]
    rfl

/-- It fails only if it does on a member. -/
theorem exists_of_mapM_eq_error {error : ε} (h : items.mapM f = .error error) :
    ∃ item ∈ items, f item = .error error := by
  induction items with
  | nil => exact nomatch h
  | cons item items ih =>
    rw [List.mapM_cons, bind_eq_error_iff] at h
    rcases h with hitem | ⟨result, -, hrest⟩
    · exact ⟨item, List.mem_cons_self, hitem⟩
    -- The first member has its result, so that one of the others fails.
    · rcases bind_eq_error_iff.1 hrest with hrest | ⟨others, -, hpure⟩
      · rcases ih hrest with ⟨other, hother, hfault⟩
        exact ⟨other, List.mem_cons_of_mem item hother, hfault⟩
      · exact nomatch hpure

/-- A list is gone through if the function succeeds on every member. -/
theorem exists_mapM_iff :
    (∃ results, items.mapM f = .ok results) ↔ ∀ item ∈ items, ∃ result, f item = .ok result := by
  simp only [mapM_eq_ok_iff]
  induction items with
  | nil => simp
  | cons item items ih =>
    rw [List.forall_mem_cons, ← ih]
    simp only [List.forall₂_cons_left_iff]
    constructor
    · intro h
      rcases h with ⟨-, result, others, hresult, hothers, -⟩
      exact ⟨⟨result, hresult⟩, others, hothers⟩
    · intro h
      rcases h with ⟨⟨result, hresult⟩, others, hothers⟩
      exact ⟨_, result, others, hresult, hothers, rfl⟩

/-- The results are what the function makes of the members. -/
theorem mem_mapM_iff (h : items.mapM f = .ok results) {result : β} :
    result ∈ results ↔ ∃ item ∈ items, f item = .ok result := by
  have hall := mapM_eq_ok_iff.1 h
  -- Only what succeeded matters for the induction.
  clear h
  induction hall with
  | nil => simp
  | @cons item first items others hitem _ ih =>
    simp only [List.mem_cons, ih, exists_eq_or_imp, hitem, Except.ok.injEq]
    exact or_congr_left eq_comm

/-- What is done to every result may as well be done when the list has been gone through. -/
theorem mapM_map_eq {γ : Type} (f : α → Except ε β) (g : β → γ) (items : List α) :
    items.mapM (fun item => (f item).map g) = (items.mapM f).map (List.map g) := by
  induction items with
  | nil => rfl
  | cons item items ih =>
    rw [List.mapM_cons, List.mapM_cons, ih]
    -- A failure on the way is the same failure on both sides.
    cases f item with
    | error error => rfl
    | ok result => cases items.mapM f <;> rfl

/-- What a function that may fail makes of members has every property that its results have. -/
theorem forall_mem_of_mapM {holds : β → Prop} (h : items.mapM f = .ok results)
    (hf : ∀ item result, f item = .ok result → holds result) :
    ∀ result ∈ results, holds result := by
  intro result hresult
  rcases (mem_mapM_iff h).1 hresult with ⟨item, -, hitem⟩
  exact hf item result hitem

end Success

/-! ### Outcomes that agree -/

/-- Two outcomes agree if both are faults, or both are values, and these are alike. -/
inductive Agree {α β ε ε' : Type} (alike : α → β → Prop) : Except ε α → Except ε' β → Prop
  | faults (fault : ε) (other : ε') : Agree alike (.error fault) (.error other)
  | values {value : α} {other : β} (h : alike value other) : Agree alike (.ok value) (.ok other)

section Agree

variable {α β γ δ ε ε' : Type} {alike : α → β → Prop} {similar : γ → δ → Prop}

/-- Outcomes agree after another step if that agrees on values that are alike. -/
theorem Agree.bind {outcome : Except ε α} {other : Except ε β} (h : Agree alike outcome other)
    {next : α → Except ε γ} {nextOther : β → Except ε δ}
    (hnext : ∀ value other, alike value other → Agree similar (next value) (nextOther other)) :
    Agree similar (outcome >>= next) (other >>= nextOther) := by
  cases h with
  | faults fault other => exact .faults fault other
  | values h => exact hnext _ _ h

theorem Agree.imp {wider : α → β → Prop} {outcome : Except ε α} {other : Except ε' β}
    (h : Agree alike outcome other) (hwider : ∀ value value', alike value value' →
      wider value value') : Agree wider outcome other := by
  cases h with
  | faults fault other => exact .faults fault other
  | values h => exact .values (hwider _ _ h)

/-- The words for faults do not matter to agreement. -/
theorem Agree.mapError {outcome : Except ε α} {other : Except ε β} (h : Agree alike outcome other)
    (f : ε → ε') : Agree alike (outcome.mapError f) (other.mapError f) := by
  cases h with
  | faults fault other => exact .faults (f fault) (f other)
  | values h => exact .values h

/-- Equal outcomes agree. -/
theorem agree_refl (outcome : Except ε α) : Agree Eq outcome outcome := by
  cases outcome with
  | error fault => exact .faults fault fault
  | ok value => exact .values rfl

/-- What agrees with a value is that value. -/
theorem Agree.eq_ok {value : α} {outcome : Except ε' α}
    (h : Agree Eq (.ok value : Except ε α) outcome) : outcome = .ok value := by
  cases h with
  | values h => rw [h]

/-- Of two lists with the same members both are gone through or neither is, and the results have
    the same members. -/
theorem agree_mapM {f : α → Except ε β} {items others : List α}
    (h : ∀ item, item ∈ items ↔ item ∈ others) :
    Agree (fun results results' => ∀ result : β, result ∈ results ↔ result ∈ results')
      (items.mapM f) (others.mapM f) := by
  -- Success depends on the members only. So whichever fails, the other one fails as well.
  have hboth : (∃ results, items.mapM f = .ok results) ↔
      ∃ results, others.mapM f = .ok results := by
    simp only [exists_mapM_iff, h]
  cases hitems : items.mapM f with
  | error fault =>
    cases hothers : others.mapM f with
    | error other => exact .faults fault other
    | ok results =>
      rcases hboth.2 ⟨results, hothers⟩ with ⟨results', hresults'⟩
      rw [hitems] at hresults'
      exact nomatch hresults'
  | ok results =>
    rcases hboth.1 ⟨results, hitems⟩ with ⟨results', hothers⟩
    rw [hothers]
    refine .values fun result => ?_
    rw [mem_mapM_iff hitems, mem_mapM_iff hothers]
    simp only [h]

end Agree

end FiniteState
