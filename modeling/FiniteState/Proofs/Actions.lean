import FiniteState.Proofs.Outcomes

/-!
# Actions on a State

Steps that change a state and may fail. What a step has changed before it fails stays changed, so
what is said about the state afterwards has to hold however the step has ended. `Maintains` says
that a property of the state survives in both cases, and that the value has a property if there is
one. It is carried from step to step and over lists, so that a property need only be looked at where
a single step changes something.

A step that makes its one change after all its checks is a simpler case. It ends as `settle` says:
with the change, or as if it had not been taken.

## Main definitions

* `settle`: The end of an action that checks something and makes one change after that.
* `EndsIn`: A state with a property is left, and a value with another property if there is one.
* `Maintains`: A property of the state survives an action.
* `Tracks`: An action ends as an outcome that knows no state does.

## Theorems

* `bind_apply_of_ok`, `bind_apply_of_error`: What comes after an action that has ended.
* `Maintains.bind`, `maintains_mapM`, `maintains_forM`: Actions one after another.
* `maintains_of_settle`: Actions that make one change after their checks.
* `Tracks.bind`, `Tracks.maintaining`: An action that tracks an outcome, step by step.
* `Maintains.adapt`, `Tracks.adapt`: Other words for a fault.
-/

namespace FiniteState

variable {ε ε' σ α β : Type}

section Apply

variable {action : EStateM ε σ α} {next : α → EStateM ε σ β} {before after : σ}

/-- What comes after an action that succeeds goes on from its value and its state. -/
theorem bind_apply_of_ok {value : α} (h : action before = .ok value after) :
    (action >>= next) before = next value after := by
  change EStateM.bind action next before = next value after
  rw [EStateM.bind, h]

/-- Nothing comes after an action that fails. -/
theorem bind_apply_of_error {fault : ε} (h : action before = .error fault after) :
    (action >>= next) before = .error fault after := by
  change EStateM.bind action next before = .error fault after
  rw [EStateM.bind, h]

end Apply

/-- How an action ends that checks something and makes one change after that: with the change if the
    check succeeds, and with nothing changed if it fails. -/
def settle (check : Except ε α) (before : σ) (change : α → σ) : EStateM.Result ε σ PUnit :=
  match check with
  | .ok value => .ok ⟨⟩ (change value)
  | .error fault => .error fault before

/-- An action has left a state with a property, and if it has succeeded, its value has another. -/
inductive EndsIn (invariant : σ → Prop) (holds : α → Prop) : EStateM.Result ε σ α → Prop
  | ok {value : α} {after : σ} (hstate : invariant after) (hvalue : holds value) :
      EndsIn invariant holds (.ok value after)
  | error {fault : ε} {after : σ} (hstate : invariant after) :
      EndsIn invariant holds (.error fault after)

/-- A property of the state survives an action, however that ends, and if it succeeds, its value has
    another property. -/
def Maintains (invariant : σ → Prop) (action : EStateM ε σ α) (holds : α → Prop) : Prop :=
  ∀ before, invariant before → EndsIn invariant holds (action before)

section Maintains

variable {invariant : σ → Prop} {holds : α → Prop} {also : β → Prop} {action : EStateM ε σ α}
  {next : α → EStateM ε σ β} {f : β → EStateM ε σ α} {items : List β}

theorem maintains_pure {value : α} (h : holds value) :
    Maintains invariant (pure value : EStateM ε σ α) holds :=
  fun _ hbefore => .ok hbefore h

theorem maintains_throw (fault : ε) :
    Maintains invariant (throw fault : EStateM ε σ α) holds :=
  fun _ hbefore => .error hbefore

theorem maintains_get : Maintains invariant (get : EStateM ε σ σ) invariant :=
  fun _ hbefore => .ok hbefore hbefore

theorem Maintains.bind (h : Maintains invariant action holds)
    (hnext : ∀ value, holds value → Maintains invariant (next value) also) :
    Maintains invariant (action >>= next) also := by
  intro before hbefore
  have haction := h before hbefore
  cases hresult : action before with
  | ok value after =>
    rw [hresult] at haction
    rw [bind_apply_of_ok hresult]
    -- What the first action has left is what the second one starts from.
    cases haction with
    | ok hafter hvalue => exact hnext value hvalue after hafter
  | error fault after =>
    rw [hresult] at haction
    rw [bind_apply_of_error hresult]
    cases haction with
    | error hafter => exact .error hafter

/-- A check that may fail in front of an action changes nothing. -/
theorem maintains_guard {condition : Prop} [Decidable condition] {fault : ε}
    {next : PUnit → EStateM ε σ α} (h : Maintains invariant (next ⟨⟩) holds) :
    Maintains invariant (if condition then throw fault >>= next else next ⟨⟩) holds := by
  split
  next => exact fun _ hbefore => .error hbefore
  next => exact h

/-- A property survives a change after checks if it survives the change. -/
theorem maintains_of_settle {action : EStateM ε σ PUnit} {check : σ → Except ε α}
    {change : σ → α → σ} (haction : ∀ before, action before = settle (check before) before
      (change before))
    (h : ∀ before value, invariant before → check before = .ok value →
      invariant (change before value)) : Maintains invariant action fun _ => True := by
  intro before hbefore
  rw [haction]
  cases hcheck : check before with
  | ok value => exact .ok (h before value hbefore hcheck) trivial
  | error fault => exact .error hbefore

/-- The words for a fault do not matter to the state. -/
theorem Maintains.adapt (h : Maintains invariant action holds) (words : ε → ε') :
    Maintains invariant (EStateM.adaptExcept words action) holds := by
  intro before hbefore
  have haction := h before hbefore
  unfold EStateM.adaptExcept
  generalize action before = result at haction ⊢
  cases haction with
  | ok hafter hvalue => exact .ok hafter hvalue
  | error hafter => exact .error hafter

theorem maintains_mapM (h : ∀ item ∈ items, Maintains invariant (f item) holds) :
    Maintains invariant (items.mapM f) fun values => ∀ value ∈ values, holds value := by
  induction items with
  | nil => exact maintains_pure (List.forall_mem_nil _)
  | cons item items ih =>
    rcases List.forall_mem_cons.1 h with ⟨hitem, hitems⟩
    rw [List.mapM_cons]
    refine hitem.bind fun value hvalue => (ih hitems).bind fun values hvalues => ?_
    exact maintains_pure (List.forall_mem_cons.2 ⟨hvalue, hvalues⟩)

theorem maintains_forM {f : β → EStateM ε σ PUnit}
    (h : ∀ item ∈ items, Maintains invariant (f item) fun _ => True) :
    Maintains invariant (items.forM f) fun _ => True := by
  induction items with
  | nil => exact maintains_pure trivial
  | cons item items ih =>
    rcases List.forall_mem_cons.1 h with ⟨hitem, hitems⟩
    rw [List.forM]
    exact hitem.bind fun _ _ => ih hitems

end Maintains

/-! ### Actions that track an outcome -/

/-- An action has ended as an outcome does: both have failed with the same fault, or both have a
    value, and these go together in the state that the action has left. -/
inductive Tracks (goes : α → σ → β → Prop) : Except ε β → EStateM.Result ε σ α → Prop
  | ok {value : α} {after : σ} {result : β} (h : goes value after result) :
      Tracks goes (.ok result) (.ok value after)
  | error {fault : ε} {after : σ} : Tracks goes (.error fault) (.error fault after)

section Tracks

variable {γ δ : Type} {goes : α → σ → β → Prop} {also : γ → σ → δ → Prop} {action : EStateM ε σ α}
  {outcome : Except ε β} {before : σ}

theorem tracks_pure {value : α} {result : β} (h : goes value before result) :
    Tracks goes (pure result : Except ε β) ((pure value : EStateM ε σ α) before) :=
  .ok h

/-- An action tracks an outcome after another step if it does so from values that go together. -/
theorem Tracks.bind (h : Tracks goes outcome (action before)) {next : α → EStateM ε σ γ}
    {nextOutcome : β → Except ε δ} (hnext : ∀ value after result, goes value after result →
      Tracks also (nextOutcome result) (next value after)) :
    Tracks also (outcome >>= nextOutcome) ((action >>= next) before) := by
  cases hresult : action before with
  | ok value after =>
    rw [hresult] at h
    rw [bind_apply_of_ok hresult]
    cases h with
    | ok hgoes => exact hnext value after _ hgoes
  | error fault after =>
    rw [hresult] at h
    -- The outcome fails with the same fault, and nothing comes after it there either.
    rw [bind_apply_of_error hresult]
    cases h
    exact .error

/-- What an action maintains holds in addition of what it leaves. -/
theorem Tracks.maintaining (h : Tracks goes outcome (action before)) {invariant : σ → Prop}
    {holds : α → Prop} (haction : Maintains invariant action holds) (hbefore : invariant before) :
    Tracks (fun value after result => goes value after result ∧ invariant after ∧ holds value)
      outcome (action before) := by
  have hends := haction before hbefore
  generalize action before = result at h hends ⊢
  cases h with
  | ok hgoes =>
    cases hends with
    | ok hafter hvalue => exact .ok ⟨hgoes, hafter, hvalue⟩
  | error => exact .error

theorem Tracks.adapt (h : Tracks goes outcome (action before)) (words : ε → ε') :
    Tracks goes (outcome.mapError words) (EStateM.adaptExcept words action before) := by
  unfold EStateM.adaptExcept
  generalize action before = result at h ⊢
  cases h with
  | ok hgoes => exact .ok hgoes
  | error => exact .error

/-- An action that has succeeded has tracked a value. -/
theorem Tracks.exists_of_ok {value : α} {after : σ}
    (h : Tracks goes outcome (.ok value after)) :
    ∃ result, outcome = .ok result ∧ goes value after result := by
  cases h with
  | ok hgoes => exact ⟨_, rfl, hgoes⟩

theorem Tracks.exists_of_error {fault : ε} {after : σ}
    (h : Tracks goes outcome (.error fault after)) : outcome = .error fault := by
  cases h
  rfl

/-- An action that tracks a value succeeds. -/
theorem Tracks.exists_ok {result : β} (h : Tracks goes (.ok result) (action before)) :
    ∃ value after, action before = .ok value after ∧ goes value after result := by
  generalize action before = ended at h ⊢
  cases h with
  | ok hgoes => exact ⟨_, _, rfl, hgoes⟩

theorem Tracks.exists_error {fault : ε} (h : Tracks goes (.error fault) (action before)) :
    ∃ after, action before = .error fault after := by
  generalize action before = ended at h ⊢
  cases h
  exact ⟨_, rfl⟩

end Tracks

end FiniteState
