import FiniteState.Proofs.Expressions
import FiniteState.Workbench

/-!
# Programs over Automata

Whatever a program does on the workbench, all automata there stay consistent, those without a name
included, and an instruction that fails leaves every one of them as it was.

An instruction is a sequence of changes to cells of the store, and it may fail after some of them,
so the second is no matter of course. What has been changed by then are new automata, which nothing
refers to. Only three instructions change an automaton that has been there before, and these check
their arguments first. `Effect` lists the ways in which an instruction can end, and `effect_perform`
goes through the instructions. All else is read off that list, and the runs of programs follow by
induction.

## Main definitions

* `Workbench.Sound`: All automata are consistent, and names refer to automata.
* `Workbench.Reads`: An action changes nothing, and its value has a property.
* `Workbench.Effect`: How an instruction can end.

## Theorems

* `Workbench.reads_find`, `Workbench.reads_findAll`: Looking up only reads.
* `Workbench.effect_keep`, `Workbench.effect_alter`: Making an automaton, and changing one.
* `Workbench.effect_perform`: Every instruction ends in one of these ways.
* `Workbench.Sound.step`, `Workbench.keeps_step_of_error`: What a step preserves.
* `Workbench.Sound.run`: What a program preserves.
* `Workbench.run_consistent`: The automata of a program are consistent, and failures change none.
-/

namespace FiniteState

namespace Workbench

/-- All automata on the workbench are consistent, and each name refers to one of them. -/
structure Sound (bench : Workbench) : Prop where
  store : bench.store.Sound
  names : bench.names.Every fun a => a.index < bench.store.size

variable {bench : Workbench}

theorem sound_empty : Sound ∅ :=
  ⟨Store.sound_empty, Registry.every_empty⟩

/-- On a sound workbench, the automaton under a name is at the address of the name. -/
theorem Sound.holds (h : bench.Sound) {name : String} {a : Address}
    (ha : bench.names.get? name = some a) : a.Holds bench.store (bench.store.cell a) := by
  have hcell := Store.sound_iff.1 h.store a
  exact ⟨h.names.of_get? ha, hcell.eq_of, hcell.toWellFormed⟩

/-- What has come into the store since does not matter to a sound workbench. -/
theorem Sound.keep (h : bench.Sound) {store : Store} (hkeeps : bench.store.Keeps store) :
    Sound { bench with store := store } :=
  ⟨hkeeps.sound h.store, fun entry hentry => (h.names entry hentry).trans_le hkeeps.size_le⟩

/-- An action changes nothing, and if it succeeds then its value has a property. -/
def Reads {α : Type} (bench : Workbench) (action : Action α) (holds : α → Prop) : Prop :=
  (∃ value, action bench = .ok value bench ∧ holds value) ∨
    ∃ fault, action bench = .error fault bench

/-- How an instruction can end: it fails, it answers, it puts a new automaton under a name, or it
    changes an automaton in place. -/
inductive Effect (bench : Workbench) : EStateM.Result Fault Workbench Answer → Prop
  /-- Automata may be left behind, but those from before are as they were. -/
  | failed (fault : Fault) {store : Store} (hkeeps : bench.store.Keeps store) :
      Effect bench (.error fault { bench with store := store })
  | answered (value : Answer)
      (h : ∀ A, value = .automaton A → bench.store.Sound → A.Consistent) :
      Effect bench (.ok value bench)
  | kept (name : String) {a : Address} {store : Store} (hkeeps : bench.store.Keeps store)
      (hlt : bench.Sound → a.index < store.size) :
      Effect bench (.ok (.automaton (store.cell a)) ⟨store, bench.names.insert name a⟩)
  | altered (a : Address) {A : Stored} (hA : bench.store.Sound → A.Consistent) :
      Effect bench (.ok (.automaton ((bench.store.put a A).cell a))
        { bench with store := bench.store.put a A })

/-! ### What instructions are made of -/

section Actions

variable {α β ε : Type} {action : Action α} {holds : α → Prop}

/-- An instruction that reads first ends as what comes after does. -/
theorem Reads.effect {next : α → Action Answer} (h : Reads bench action holds)
    (hnext : ∀ value, holds value → Effect bench (next value bench)) :
    Effect bench ((action >>= next) bench) := by
  rcases h with ⟨value, heq, hvalue⟩ | ⟨fault, heq⟩
  · rw [bind_apply_of_ok heq]
    exact hnext value hvalue
  · rw [bind_apply_of_error heq]
    exact .failed fault (.refl _)

theorem get_bind_apply {next : Workbench → Action α} : (get >>= next) bench = next bench bench :=
  rfl

theorem look_bind_apply {a : Address} {next : Stored → Action α} :
    (look a >>= next) bench = next (bench.store.cell a) bench := rfl

theorem reads_find (bench : Workbench) (name : String) :
    Reads bench (find name) fun a => bench.names.get? name = some a := by
  unfold Reads
  rw [find, get_bind_apply]
  cases hfound : bench.names.get? name with
  | none => exact Or.inr ⟨.unknownName name, rfl⟩
  | some a => exact Or.inl ⟨a, rfl, rfl⟩

theorem reads_findAll (bench : Workbench) (names : List String) :
    Reads bench (names.mapM find) fun members =>
      ∀ a ∈ members, ∃ name, bench.names.get? name = some a := by
  induction names with
  | nil => exact Or.inl ⟨[], rfl, List.forall_mem_nil _⟩
  | cons name names ih =>
    unfold Reads
    rw [List.mapM_cons]
    rcases reads_find bench name with ⟨a, hfind, ha⟩ | ⟨fault, hfind⟩
    · rw [bind_apply_of_ok hfind]
      -- Looking up changes nothing, so the others are looked up on the same workbench.
      rcases ih with ⟨members, hall, hmembers⟩ | ⟨fault, hall⟩
      · rw [bind_apply_of_ok hall]
        exact Or.inl ⟨_, rfl, List.forall_mem_cons.2 ⟨⟨name, ha⟩, hmembers⟩⟩
      · exact Or.inr ⟨fault, bind_apply_of_error hall⟩
    · exact Or.inr ⟨fault, bind_apply_of_error hfind⟩

/-- An instruction that makes an automaton leaves those from before alone, and what it keeps under a
    name is in the store. -/
theorem effect_keep {make : EStateM ε Store Address} (fault : ε → Fault) (name : String)
    (hmake : Maintains (Store.Keeps bench.store) make (Address.Since bench.store))
    (htracks : bench.Sound → ∃ outcome, Tracks Address.Holds outcome (make bench.store)) :
    Effect bench ((onStore fault make >>= keep name) bench) := by
  have hends := hmake bench.store (.refl _)
  -- Success hands on an address that is new. A failure leaves automata behind that no name refers
  -- to.
  cases hresult : make bench.store with
  | ok a store =>
    have hstored : onStore fault make bench = .ok a { bench with store := store } := by
      rw [onStore, hresult]
    rw [hresult] at hends htracks
    rw [bind_apply_of_ok hstored]
    cases hends with
    | ok hkeeps hsince =>
      refine .kept name hkeeps fun hsound => ?_
      rcases htracks hsound with ⟨outcome, htracks⟩
      cases htracks with
      | ok hholds => exact hholds.lt
  | error reason store =>
    have hstored : onStore fault make bench =
        .error (fault reason) { bench with store := store } := by
      rw [onStore, hresult]
    rw [hresult] at hends
    rw [bind_apply_of_error hstored]
    cases hends with
    | error hkeeps => exact .failed _ hkeeps

/-- An instruction that changes an automaton in place does so after all its checks. -/
theorem effect_alter {change : Stored.Action Unit} (name : String)
    (hchange : Maintains Stored.Consistent change fun _ => True)
    (hfails : ∀ {A B : Stored} {fault : Automaton.Fault}, change A = .error fault B → B = A) :
    Effect bench (alter name change bench) := by
  refine (reads_find bench name).effect fun a _ => ?_
  rcases Store.edit_cases hchange hfails bench.store a with ⟨A, hedit, hA⟩ | ⟨fault, hedit⟩
  · have hstored : onStore .automaton (Store.edit a change) bench =
        .ok ⟨⟩ { bench with store := bench.store.put a A } := by
      rw [onStore, hedit]
    rw [bind_apply_of_ok hstored]
    exact .altered a hA
  · have hstored : onStore .automaton (Store.edit a change) bench =
        .error (.automaton fault) bench := by
      rw [onStore, hedit]
    rw [bind_apply_of_error hstored]
    exact .failed _ (.refl _)

end Actions

theorem map_ends_ne {A : Automaton} {f : Ends → Answer} {value : Answer}
    (h : ∀ ends, f ends ≠ value) : A.ends.map f ≠ .ok value := by
  cases A.ends with
  | ok ends => exact fun heq => h ends (Except.ok.inj heq)
  | error fault => exact fun heq => nomatch heq

/-- An automaton that is answered is the one that was asked about. -/
theorem eq_of_answer {A B : Stored} {question : Question}
    (h : answer A question = .ok (.automaton B)) : A = B := by
  cases question with
  | parts =>
    cases h
    rfl
  | isAtomic => exact absurd h (map_ends_ne fun _ => by simp)
  | entry => exact absurd h (map_ends_ne fun _ => by simp)
  | exit => exact absurd h (map_ends_ne fun _ => by simp)
  -- The other answers are no automata.
  | _ => cases h

section Operations

variable {base : Store}

theorem maintains_transformed (a : Address) (operation : Transformation) :
    Maintains (Store.Keeps base) (transformed a operation) (Address.Since base) := by
  cases operation with
  | copy => exact Store.maintains_copy a
  | reverse => exact Store.maintains_reverse a
  | determinize => exact Store.maintains_determinize a
  | minimize => exact Store.maintains_minimize a
  | option => exact Store.maintains_option a
  | iteration => exact Store.maintains_iteration a

theorem maintains_joined (members : List Address) (operation : Junction) :
    Maintains (Store.Keeps base) (joined members operation) (Address.Since base) := by
  cases operation with
  | concatenation => exact Store.maintains_concatenation members
  | disjunction => exact Store.maintains_disjunction members

theorem exists_tracks_transformed {a : Address} {A : Automaton} (h : a.Holds base A)
    (operation : Transformation) :
    ∃ outcome, Tracks Address.Holds outcome (transformed a operation base) := by
  cases operation with
  | copy => exact ⟨_, Store.tracks_copy h⟩
  | reverse => exact ⟨_, Store.tracks_reverse h⟩
  | determinize => exact ⟨_, Store.tracks_determinize h⟩
  | minimize => exact ⟨_, Store.tracks_minimize h⟩
  | option => exact ⟨_, Store.tracks_option h⟩
  | iteration => exact ⟨_, Store.tracks_iteration h⟩

theorem exists_tracks_joined {members : List Address} {automata : List Automaton}
    (h : List.Forall₂ (fun a A => a.Holds base A) members automata) (operation : Junction) :
    ∃ outcome, Tracks Address.Holds outcome (joined members operation base) := by
  cases operation with
  | concatenation => exact ⟨_, Store.tracks_concatenation h⟩
  | disjunction => exact ⟨_, Store.tracks_disjunction h⟩

end Operations

/-- Every instruction fails, answers, makes an automaton or changes one. -/
theorem effect_perform (bench : Workbench) (instruction : Instruction) :
    Effect bench (perform instruction bench) := by
  cases instruction with
  | create name count starting final =>
    exact effect_keep _ name (Store.maintains_create count starting final)
      fun _ => ⟨_, Store.tracks_create count starting final _⟩
  | ofMatrix name rows starting final =>
    exact effect_keep _ name (Store.maintains_ofMatrix rows starting final)
      fun _ => ⟨_, Store.tracks_ofMatrix rows starting final _⟩
  | ofTable name alphabet ordered table starting final =>
    exact effect_keep _ name (Store.maintains_ofTable _ table starting final)
      fun _ => ⟨_, Store.tracks_ofTable _ table starting final _⟩
  | ofRelation name count relation starting final =>
    exact effect_keep _ name (Store.maintains_ofRelation count relation starting final)
      fun _ => ⟨_, Store.tracks_ofRelation count relation starting final _⟩
  | ofPattern name pattern =>
    exact effect_keep _ name (Pattern.maintains_construct pattern.toList)
      fun _ => ⟨_, Pattern.tracks_construct pattern.toList _⟩
  | transform name operation operand =>
    refine (reads_find bench operand).effect fun a ha => ?_
    exact effect_keep _ name (maintains_transformed a operation)
      fun hsound => exists_tracks_transformed (hsound.holds ha) operation
  | join name operation operands =>
    refine (reads_findAll bench operands).effect fun members hmembers => ?_
    refine effect_keep _ name (maintains_joined members operation) fun hsound => ?_
    have hholds : List.Forall₂ (fun a (A : Automaton) => a.Holds bench.store A) members
        (members.map fun a => (bench.store.cell a).toAutomaton) := by
      rw [List.forall₂_map_right_iff, List.forall₂_same]
      intro a ha
      rcases hmembers a ha with ⟨_, hfound⟩
      exact hsound.holds hfound
    exact exists_tracks_joined hholds operation
  | connect name source target label =>
    exact effect_alter name (Stored.maintains_connect source target label)
      Stored.eq_of_connect_eq_error
  | setStarting name state value =>
    exact effect_alter name (Stored.maintains_setStarting state value)
      Stored.eq_of_setStarting_eq_error
  | setFinal name state value =>
    exact effect_alter name (Stored.maintains_setFinal state value) Stored.eq_of_setFinal_eq_error
  | ask name question =>
    -- Only the question for the parts shows an automaton, and that is the one asked about.
    refine (reads_find bench name).effect fun a _ => ?_
    rw [look_bind_apply]
    cases hanswer : answer (bench.store.cell a) question with
    | error fault => exact .failed (.automaton fault) (.refl _)
    | ok value =>
      refine .answered value fun A hA hsound => ?_
      rw [hA] at hanswer
      rw [← eq_of_answer hanswer]
      exact Store.sound_iff.1 hsound a
  | equal name other =>
    refine (reads_find bench name).effect fun a _ => ?_
    cases other with
    | none => exact .answered (.flag false) fun _ h => nomatch h
    | some other =>
      exact (reads_find bench other).effect fun b _ => .answered (.flag _) fun _ h => nomatch h

/-- After an instruction, all automata are consistent if they were before, the shown one as well. -/
theorem Sound.step (h : bench.Sound) (instruction : Instruction) :
    Sound (step bench instruction).after ∧
      ∀ A, (step bench instruction).outcome = .ok (.automaton A) → A.Consistent := by
  have heffect := effect_perform bench instruction
  unfold Workbench.step
  generalize perform instruction bench = result at heffect ⊢
  cases heffect with
  | failed fault hkeeps => exact ⟨h.keep hkeeps, fun A heq => nomatch heq⟩
  | answered value hvalue => exact ⟨h, fun A heq => hvalue A (Except.ok.inj heq) h.store⟩
  -- The shown automaton is the new one, which is in the store like all others.
  | @kept name a store hkeeps hlt =>
    have hkept := h.keep hkeeps
    refine ⟨⟨hkept.store, hkept.names.insert (hlt h) name⟩, fun A heq => ?_⟩
    cases heq
    exact Store.sound_iff.1 hkept.store a
  | @altered a A hA =>
    have hput : Sound { bench with store := bench.store.put a A } :=
      ⟨h.store.put (hA h.store), by simpa using h.names⟩
    refine ⟨hput, fun B heq => ?_⟩
    cases heq
    exact Store.sound_iff.1 hput.store a

/-- An instruction that fails leaves all automata as they were, and the names refer to them as
    before. -/
theorem keeps_step_of_error {instruction : Instruction} {fault : Fault}
    (h : (step bench instruction).outcome = .error fault) :
    (step bench instruction).after.names = bench.names ∧
      bench.store.Keeps (step bench instruction).after.store := by
  have heffect := effect_perform bench instruction
  unfold step at h ⊢
  generalize perform instruction bench = result at heffect h ⊢
  cases heffect with
  | failed fault hkeeps => exact ⟨rfl, hkeeps⟩
  -- The other effects belong to answers, and this one is a fault.
  | answered value _ => exact nomatch h
  | kept name _ _ => exact nomatch h
  | altered a _ => exact nomatch h

/-- After every instruction of a program, all automata are consistent if they were at first. -/
theorem Sound.run (h : bench.Sound) (program : List Instruction) :
    ∀ step ∈ run bench program, Sound step.after ∧
      ∀ A, step.outcome = .ok (.automaton A) → A.Consistent := by
  induction program generalizing bench with
  | nil => exact fun _ hstep => absurd hstep List.not_mem_nil
  | cons instruction rest ih =>
    have hfirst := h.step instruction
    exact List.forall_mem_cons.2 ⟨hfirst, ih hfirst.1⟩

/-- The automata of every program are consistent at any time, and an instruction that fails leaves
    all of them as they were. -/
theorem run_consistent (program : List Instruction) :
    (∀ step ∈ run ∅ program, Sound step.after ∧
      ∀ A, step.outcome = .ok (.automaton A) → A.Consistent) ∧
    ∀ (before : Workbench) (instruction : Instruction) (fault : Fault),
      (step before instruction).outcome = .error fault →
        (step before instruction).after.names = before.names ∧
          before.store.Keeps (step before instruction).after.store :=
  ⟨sound_empty.run program, fun _ _ _ h => keeps_step_of_error h⟩

/-- A program with two instructions that fail: there is no state 2, and an automaton that is given a
    bad label is left behind with one edge. -/
def faultyProgram : List Instruction :=
  [.create "a" 2 [0] [1], .connect "a" 0 1 "x", .connect "a" 1 2 "y",
    .ofRelation "a" 2 [(0, "x", 1), (1, "yy", 0)] [] [], .transform "b" .iteration "a"]

theorem run_consistent_faultyProgram : ∃ first second third fourth last,
    run ∅ faultyProgram = [first, second, third, fourth, last] ∧
      third.outcome = .error (.automaton (.missingState 2 2)) ∧
      second.after.store.Keeps third.after.store ∧
      fourth.outcome = .error (.automaton (.invalidSymbol "yy")) ∧
      third.after.store.Keeps fourth.after.store ∧
      third.after.store.size = 1 ∧ fourth.after.store.size = 2 ∧
      last.after.names.names = ["a", "b"] ∧ Sound last.after ∧
      ∃ A, last.outcome = .ok (.automaton A) ∧ A.Consistent := by
  rcases run_consistent faultyProgram with ⟨hsteps, hfailures⟩
  have hlast := hsteps _ (List.getLast_mem (by simp [faultyProgram, run]))
  exact ⟨_, _, _, _, _, rfl, rfl, (hfailures _ _ _ rfl).2, rfl, (hfailures _ _ _ rfl).2, rfl, rfl,
    rfl, hlast.1, _, rfl, hlast.2 _ rfl⟩

end Workbench

end FiniteState
