import FiniteState.Proofs.Adoption

/-!
# Commands of the Console

A command that fails leaves everything as it was. Nothing in the form of an action grants this: an
action may show a line, change the session or change an automaton in its cell, and fail after that.
It holds because every command first does all that can go wrong, and only then changes the session
and shows its lines. One command is an exception: building a pattern gives the name to the regular
expression before a copy of the automaton is made for it. Copying could fail then, but it does not,
since the automaton has just been made and is well formed.

`Outcome` lists the ways in which a command can end, and `outcome_perform` goes through the commands
once. Whatever is said about commands is read off that list. Most commands leave the regular
expressions alone. Those that do not are told apart by what becomes of the pattern of a name, which
`Command.patternAfter` says without a session.

## Main definitions

* `Command.patternAfter`: The pattern of a name after a command.
* `Command.KeepsPatterns`: A command gives no name a pattern and takes none away.
* `Session.Sound`: What holds of all sessions.
* `Console.Outcome`: How a command can end.

## Theorems

* `Console.exists_sayAll`: Showing lines does not change the session.
* `Console.outcome_lift`, `Console.outcome_state`, `Console.outcome_withAutomaton`: What commands
  begin with.
* `Console.outcome_onStore`, `Console.outcome_make`, `Console.outcome_edit`: Making an automaton,
  and changing one.
* `Console.outcome_perform`: Every command ends in one of these ways.
* `Console.eq_of_perform_eq_error`, `Console.eq_exit_of_perform_eq_ok_false`: Only successful
  commands change anything, and only one of them ends the dialogue.
* `Console.eq_of_execute_eq_error`: A line that fails leaves everything as it was.
-/

namespace FiniteState

namespace Command

/-- The pattern that a name has after a command, where `old` is the one that it had before. A name
    gets a pattern when it is built or loaded, and loses it when it is deleted. -/
def patternAfter (disk : Disk) (name : String) (old : Option (List Char)) :
    Command → Option (List Char)
  | build other pattern =>
    if other = name ∧ (Pattern.parse pattern.toList).isOk = true then some pattern.toList else old
  | load path =>
    match disk.load path with
    | .ok loaded => ((loaded.regexes.get? name).map Matcher.pattern).or old
    | .error _ => old
  | delete other => if other = name then none else old
  | clear => none
  | _ => old

/-- A command gives no name a pattern and takes none away. -/
def KeepsPatterns (disk : Disk) (command : Command) : Prop :=
  ∀ name old, command.patternAfter disk name old = old

end Command

/-- All automata of a session are consistent, names refer to automata of its store, and each regular
    expression has the automaton that its pattern is built into, which no name refers to. -/
structure Session.Sound (session : Session) : Prop where
  store : session.store.Sound
  addresses : session.addresses.Every fun a => a.index < session.store.size
  expressions : session.expressions.Every fun e => ∃ m : Matcher, m.Built ∧
    e.Holds session.store m
  separate : session.expressions.Every fun e => session.addresses.Every (· ≠ e.automaton)

/-- In a sound session, the automaton under a name is at the address of the name. -/
theorem Session.Sound.holds {session : Session} (h : session.Sound) {name : String} {a : Address}
    (ha : session.addresses.get? name = some a) :
    a.Holds session.store (session.store.cell a) := by
  have hcell := Store.sound_iff.1 h.store a
  exact ⟨h.addresses.of_get? ha, hcell.eq_of, hcell.toWellFormed⟩

namespace Console

variable {disk : Disk} {console : Console} {command : Command}

/-- How a command can end. It fails for a reason of its own and has changed nothing, it ends the
    dialogue, it shows something, or it changes the session in a certain way. -/
inductive Outcome (disk : Disk) (console : Console) :
    Command → EStateM.Result Fault Console Bool → Prop
  | failed {command : Command} (fault : Fault) (h : command.KeepsPatterns disk)
      (hfault : fault ≠ .blank) : Outcome disk console command (.error fault console)
  | left : Outcome disk console .exit (.ok false console)
  | told {command : Command} (shown : String) (h : command.KeepsPatterns disk) :
      Outcome disk console command (.ok true ⟨console.session, shown⟩)
  /-- A name refers to a new automaton. -/
  | kept {command : Command} (shown name : String) {a : Address} {store : Store}
      (h : command.KeepsPatterns disk) (hkeeps : console.session.store.Keeps store)
      (hsince : a.Since console.session.store)
      (hlt : console.session.Sound → a.index < store.size) :
      Outcome disk console command
        (.ok true ⟨⟨store, console.session.addresses.insert name a,
          console.session.expressions⟩, shown⟩)
  /-- The automaton that a name refers to has changed. -/
  | altered {command : Command} (shown name : String) {a : Address} {A : Stored}
      (h : command.KeepsPatterns disk) (ha : console.session.addresses.get? name = some a)
      (hA : console.session.store.Sound → A.Consistent) :
      Outcome disk console command
        (.ok true ⟨⟨console.session.store.put a A, console.session.addresses,
          console.session.expressions⟩, shown⟩)
  | loaded (shown path : String) (loaded : Loaded) {adopted : Session.Adopted} {store : Store}
      (h : disk.load path = .ok loaded)
      (hadopts : Session.Adopts loaded console.session.store store adopted) :
      Outcome disk console (.load path)
        (.ok true ⟨⟨store, console.session.addresses.merge adopted.addresses,
          console.session.expressions.merge adopted.expressions⟩, shown⟩)
  /-- A name has a regular expression, and it refers to a copy of its automaton. -/
  | built (shown name pattern : String) {e : Expression} {a : Address} {middle store : Store}
      (he : Expression.ofPattern pattern.toList console.session.store = .ok e middle)
      (ha : Store.copy e.automaton middle = .ok a store) :
      Outcome disk console (.build name pattern)
        (.ok true ⟨⟨store, console.session.addresses.insert name a,
          console.session.expressions.insert name e⟩, shown⟩)
  | deleted (shown name : String) :
      Outcome disk console (.delete name)
        (.ok true ⟨⟨console.session.store, console.session.addresses.erase name,
          console.session.expressions.erase name⟩, shown⟩)
  | cleared (shown : String) : Outcome disk console .clear (.ok true ⟨.empty, shown⟩)

/-! ### What commands are made of -/

section Actions

variable {α ε : Type}

theorem items_bind_apply {next : Session → Action α} :
    (items >>= next) console = next console.session console := rfl

/-- Showing lines does not change the session. -/
theorem exists_sayAll (lines : List String) (console : Console) :
    ∃ shown, sayAll lines console = .ok ⟨⟩ ⟨console.session, shown⟩ := by
  induction lines generalizing console with
  | nil => exact ⟨console.shown, rfl⟩
  | cons line lines ih => exact ih ⟨console.session, console.shown ++ line ++ "\n"⟩

/-- What comes after showing lines begins with the same session. -/
theorem exists_sayAll_bind (lines : List String) (console : Console) :
    ∃ shown, ∀ next : PUnit → Action α,
      (sayAll lines >>= next) console = next ⟨⟩ ⟨console.session, shown⟩ := by
  rcases exists_sayAll lines console with ⟨shown, h⟩
  exact ⟨shown, fun next => bind_apply_of_ok h⟩

/-- A command that begins with a result of its arguments fails with it or goes on. -/
theorem outcome_lift {fault : ε → Fault} {result : Except ε α} {next : α → Action Bool}
    (hfault : ∀ e, fault e ≠ .blank)
    (hkeeps : ∀ e, result = .error e → command.KeepsPatterns disk)
    (hnext : ∀ value, result = .ok value → Outcome disk console command (next value console)) :
    Outcome disk console command ((liftFault fault result >>= next) console) := by
  cases result with
  | error e => exact .failed (fault e) (hkeeps e rfl) (hfault e)
  | ok value => exact hnext value rfl

/-- A command that begins with a state of an automaton fails or goes on. -/
theorem outcome_state {A : Automaton} {text : String} {next : Int → Action Bool}
    (hkeeps : command.KeepsPatterns disk)
    (hnext : ∀ s, Outcome disk console command (next s console)) :
    Outcome disk console command ((state A text >>= next) console) := by
  rw [state, integer, bind_assoc]
  refine outcome_lift (fun _ => nofun) (fun _ _ => hkeeps) fun s _ => ?_
  by_cases hs : 0 ≤ s ∧ s < A.size
  · rw [if_pos hs]
    exact hnext s
  · rw [if_neg hs]
    exact .failed (.missingState text) hkeeps nofun

/-- A command on the automaton under a name says so if there is none. -/
theorem outcome_withAutomaton {name : String} {body : Address → Stored → Action Unit}
    (hkeeps : command.KeepsPatterns disk)
    (hbody : ∀ a, console.session.addresses.get? name = some a → Outcome disk console command
      ((body a (console.session.store.cell a) >>= fun _ => pure true) console)) :
    Outcome disk console command ((withAutomaton name body >>= fun _ => pure true) console) := by
  rw [withAutomaton, bind_assoc, items_bind_apply]
  cases hfound : console.session.addresses.get? name with
  | some a => exact hbody a hfound
  | none => exact .told _ hkeeps

theorem outcome_sayAll {lines : List String} (hkeeps : command.KeepsPatterns disk) :
    Outcome disk console command ((sayAll lines >>= fun _ => pure true) console) := by
  rcases exists_sayAll_bind (α := Bool) lines console with ⟨shown, h⟩
  rw [h]
  exact .told shown hkeeps

/-- Giving up what has been made leads back to the console. -/
theorem withStore_restore {store : Store} (h : console.session.store.Keeps store) :
    console.withStore (store.restore console.session.store) = console := by
  rw [h.restore_eq]
  rfl

/-- A command that makes automata gives them up if it fails there, or it goes on with them. -/
theorem outcome_onStore {fault : ε → Fault} {action : EStateM ε Store α} {holds : α → Prop}
    {next : α → Action Bool} (hfault : ∀ e, fault e ≠ .blank)
    (haction : Maintains (Store.Keeps console.session.store) action holds)
    (hkeeps : ∀ e store, action console.session.store = .error e store →
      command.KeepsPatterns disk)
    (hnext : ∀ value store, action console.session.store = .ok value store →
      console.session.store.Keeps store → holds value →
        Outcome disk console command (next value (console.withStore store))) :
    Outcome disk console command ((onStore fault action >>= next) console) := by
  have hends := haction console.session.store (.refl _)
  cases hresult : action console.session.store with
  | ok value store =>
    have hstored : onStore fault action console = .ok value (console.withStore store) := by
      rw [onStore, hresult]
    rw [hresult] at hends
    rw [bind_apply_of_ok hstored]
    cases hends with
    | ok hstore hvalue => exact hnext value store hresult hstore hvalue
  | error e store =>
    rw [hresult] at hends
    -- What has been made by then lies behind the automata from before, so giving it up brings the
    -- old store back.
    have hstored : onStore fault action console = .error (fault e) console := by
      rw [onStore, hresult]
      cases hends with
      | error hstore => exact congrArg (EStateM.Result.error (fault e)) (withStore_restore hstore)
    rw [bind_apply_of_error hstored]
    exact .failed (fault e) (hkeeps e store hresult) (hfault e)

/-- A command that finds something out with the help of automata gives them up in any case. -/
theorem outcome_aside {fault : ε → Fault} {action : EStateM ε Store α} {holds : α → Prop}
    {next : α → Action Bool} (hfault : ∀ e, fault e ≠ .blank)
    (haction : Maintains (Store.Keeps console.session.store) action holds)
    (hkeeps : command.KeepsPatterns disk)
    (hnext : ∀ value, Outcome disk console command (next value console)) :
    Outcome disk console command ((aside fault action >>= next) console) := by
  have hends := haction console.session.store (.refl _)
  -- The automata are given up whether the action has succeeded or not.
  cases hresult : action console.session.store with
  | ok value store =>
    rw [hresult] at hends
    have haside : aside fault action console = .ok value console := by
      rw [aside, hresult]
      cases hends with
      | ok hstore => exact congrArg (EStateM.Result.ok value) (withStore_restore hstore)
    rw [bind_apply_of_ok haside]
    exact hnext value
  | error e store =>
    rw [hresult] at hends
    have haside : aside fault action console = .error (fault e) console := by
      rw [aside, hresult]
      cases hends with
      | error hstore => exact congrArg (EStateM.Result.error (fault e)) (withStore_restore hstore)
    rw [bind_apply_of_error haside]
    exact .failed (fault e) hkeeps (hfault e)

/-- A command that changes the automaton under a name fails before it has changed anything, or it
    has changed that automaton. -/
theorem outcome_edit {name : String} {a : Address} {change : Stored.Action Unit}
    (hkeeps : command.KeepsPatterns disk)
    (ha : console.session.addresses.get? name = some a)
    (hchange : Maintains Stored.Consistent change fun _ => True)
    (hfails : ∀ {A B : Stored} {fault : Automaton.Fault}, change A = .error fault B → B = A) :
    Outcome disk console command
      ((onStore .automaton (Store.edit a change) >>= fun _ => pure true) console) := by
  rcases Store.edit_cases hchange hfails console.session.store a with ⟨A, hedit, hA⟩ | ⟨fault, hedit⟩
  · have hstored : onStore .automaton (Store.edit a change) console =
        .ok ⟨⟩ (console.withStore (console.session.store.put a A)) := by
      rw [onStore, hedit]
    rw [bind_apply_of_ok hstored]
    exact .altered _ name hkeeps ha hA
  · have hstored : onStore .automaton (Store.edit a change) console =
        .error (.automaton fault) console := by
      rw [onStore, hedit]
      -- Giving up what has come since takes nothing away from a store that has not changed.
      exact congrArg (EStateM.Result.error _) (withStore_restore (.refl _))
    rw [bind_apply_of_error hstored]
    exact .failed _ hkeeps nofun

/-- A command that makes an automaton for a name has not given the name away if it fails. -/
theorem outcome_make {fault : ε → Fault} {make : EStateM ε Store Address} (name line : String)
    (hfault : ∀ e, fault e ≠ .blank) (hkeeps : command.KeepsPatterns disk)
    (hmake : Maintains (Store.Keeps console.session.store) make
      (Address.Since console.session.store))
    (htracks : console.session.Sound →
      ∃ outcome, Tracks Address.Holds outcome (make console.session.store)) :
    Outcome disk console command
      ((onStore fault make >>= fun a => do keep name a; say line; return true) console) := by
  refine outcome_onStore hfault hmake (fun _ _ _ => hkeeps) fun a store ha hstore hsince => ?_
  refine .kept _ name hkeeps hstore hsince fun hsound => ?_
  rcases htracks hsound with ⟨outcome, htracks⟩
  rw [ha] at htracks
  rcases htracks.exists_of_ok with ⟨A, -, hA⟩
  exact hA.lt

end Actions

/-! ### Commands -/

theorem maintains_convert {base : Store} (conversion : Conversion) (a : Address) :
    Maintains (Store.Keeps base) (conversion.construct a) (Address.Since base) := by
  cases conversion with
  | reverse => exact Store.maintains_reverse a
  | determinize => exact Store.maintains_determinize a
  | minimize => exact Store.maintains_minimize a

theorem tracks_convert {store : Store} {a : Address} {A : Automaton} (h : a.Holds store A)
    (conversion : Conversion) :
    Tracks Address.Holds (.ok (conversion.apply A)) (conversion.construct a store) := by
  cases conversion with
  | reverse => exact Store.tracks_reverse h
  | determinize => exact Store.tracks_determinize h
  | minimize => exact Store.tracks_minimize h

theorem outcome_load (disk : Disk) (console : Console) (path : String) :
    Outcome disk console (.load path) (perform disk (.load path) console) := by
  have hkeeps : ∀ fault, disk.load path = .error fault →
      (Command.load path).KeepsPatterns disk := by
    intro fault h name old
    rw [Command.patternAfter, h]
  refine outcome_lift (fun _ => nofun) hkeeps fun loaded h => ?_
  -- What has been loaded passes all checks once more, so all of it is adopted.
  rcases (Disk.sound_of_load h).exists_adopt console.session.store with
    ⟨adopted, store, hadopt, hadopts⟩
  have hstored : onStore .regex (Session.adopt loaded) console =
      .ok adopted (console.withStore store) := by
    rw [onStore, hadopt]
  rw [bind_apply_of_ok hstored]
  rcases exists_sayAll_bind (α := Bool) loaded.warnings (console.withStore store) with
    ⟨shown, hsay⟩
  rw [hsay]
  exact .loaded _ path loaded h hadopts

theorem outcome_build (disk : Disk) (console : Console) (name pattern : String) :
    Outcome disk console (.build name pattern) (perform disk (.build name pattern) console) := by
  have htracks := Expression.tracks_ofPattern pattern.toList console.session.store
  refine outcome_onStore (fun _ => nofun) (Expression.maintains_ofPattern pattern.toList) ?_ ?_
  · -- A pattern is not built only if it cannot be read, and then no name is given it.
    intro fault store hfault other old
    rw [hfault] at htracks
    have hnone := htracks.exists_of_error
    rw [Matcher.ofPattern_eq_error_iff, Pattern.thompson_eq_error_iff] at hnone
    rcases hnone with ⟨error, hparse, -⟩
    rw [Command.patternAfter, hparse]
    exact if_neg fun h => nomatch h.2
  · -- The automaton that has just been made is well formed, so it is copied without a fault.
    intro e store he hkeeps _
    rw [he] at htracks
    rcases htracks.exists_of_ok with ⟨m, -, hm⟩
    rcases (Store.tracks_copy hm.automaton).exists_ok with ⟨a, after, ha, -⟩
    let named : Console := ⟨⟨store, console.session.addresses,
      console.session.expressions.insert name e⟩, console.shown⟩
    have hcopied : onStore .automaton (Store.copy e.automaton) named =
        .ok a (named.withStore after) := by
      rw [onStore, ha]
    change Outcome disk console _ ((onStore .automaton (Store.copy e.automaton) >>= _) named)
    rw [bind_apply_of_ok hcopied]
    exact .built _ name pattern he ha

theorem outcome_matchText (disk : Disk) (console : Console) (pattern text : String) :
    Outcome disk console (.matchText pattern text)
      (perform disk (.matchText pattern text) console) := by
  rw [perform, items_bind_apply]
  cases console.session.expressions.get? pattern with
  | some e => exact .told _ fun _ _ => rfl
  | none =>
    have hanswer : Maintains (Store.Keeps console.session.store) (do
        let e ← Expression.ofPattern pattern.toList
        return e.run (← get) text.toList) fun _ => True :=
      (Expression.maintains_ofPattern pattern.toList).bind fun e _ =>
        maintains_get.bind fun _ _ => maintains_pure trivial
    exact outcome_aside (fun _ => nofun) hanswer (fun _ _ => rfl) fun _ => .told _ fun _ _ => rfl

theorem outcome_delete (disk : Disk) (console : Console) (name : String) :
    Outcome disk console (.delete name) (perform disk (.delete name) console) := by
  rw [perform, items_bind_apply]
  by_cases hfound : (console.session.addresses.contains name ||
      console.session.expressions.contains name) = true
  · rw [if_pos hfound]
    exact .deleted _ name
  · -- Where there is nothing to delete, deleting changes nothing.
    rw [if_neg hfound]
    rw [Bool.or_eq_true, not_or, Bool.not_eq_true, Bool.not_eq_true] at hfound
    have hdeleted : Outcome disk console (.delete name) _ :=
      .deleted (console.shown ++ ("Not found: " ++ name) ++ "\n") name
    rw [Registry.erase_eq_self hfound.1, Registry.erase_eq_self hfound.2] at hdeleted
    exact hdeleted

/-- Every command ends in one of these ways. -/
theorem outcome_perform (disk : Disk) (console : Console) (command : Command) :
    Outcome disk console command (perform disk command console) := by
  cases command with
  | exit => exact .left
  | help => exact .told _ fun _ _ => rfl
  | load path => exact outcome_load disk console path
  | list => exact outcome_sayAll fun _ _ => rfl
  | create name count =>
    refine outcome_lift (fun _ => nofun) (fun _ _ _ _ => rfl) fun size _ => ?_
    exact outcome_make name _ (fun _ => nofun) (fun _ _ => rfl) (Store.maintains_create size [] [])
      fun _ => ⟨_, Store.tracks_create size [] [] _⟩
  | connect name source target label =>
    refine outcome_withAutomaton (fun _ _ => rfl) fun a ha => ?_
    simp only [bind_assoc]
    refine outcome_state (fun _ _ => rfl) fun s => outcome_state (fun _ _ => rfl) fun t => ?_
    refine outcome_lift (fun _ => nofun) (fun _ _ _ _ => rfl) fun l _ => ?_
    exact outcome_edit (fun _ _ => rfl) ha (Stored.maintains_connect _ _ _)
      Stored.eq_of_connect_eq_error
  | mark kind name text value =>
    refine outcome_withAutomaton (fun _ _ => rfl) fun a ha => ?_
    simp only [bind_assoc]
    refine outcome_state (fun _ _ => rfl) fun s => ?_
    cases kind with
    | starting =>
      exact outcome_edit (fun _ _ => rfl) ha (Stored.maintains_setStarting _ _)
        Stored.eq_of_setStarting_eq_error
    | final =>
      exact outcome_edit (fun _ _ => rfl) ha (Stored.maintains_setFinal _ _)
        Stored.eq_of_setFinal_eq_error
  | info name =>
    exact outcome_withAutomaton (fun _ _ => rfl) fun _ _ => outcome_sayAll fun _ _ => rfl
  | dump name => exact outcome_withAutomaton (fun _ _ => rfl) fun _ _ => .told _ fun _ _ => rfl
  | test name word => exact outcome_withAutomaton (fun _ _ => rfl) fun _ _ => .told _ fun _ _ => rfl
  | convert conversion name result =>
    refine outcome_withAutomaton (fun _ _ => rfl) fun a ha => ?_
    simp only [bind_assoc]
    exact outcome_make result _ (fun _ => nofun) (fun _ _ => rfl) (maintains_convert conversion a)
      fun hsound => ⟨_, tracks_convert (hsound.holds ha) conversion⟩
  | compile name pattern =>
    exact outcome_make name _ (fun _ => nofun) (fun _ _ => rfl)
      (Pattern.maintains_construct pattern.toList)
      fun _ => ⟨_, Pattern.tracks_construct pattern.toList _⟩
  | build name pattern => exact outcome_build disk console name pattern
  | outline pattern =>
    exact outcome_lift (fun _ => nofun) (fun _ _ _ _ => rfl) fun node _ => .told _ fun _ _ => rfl
  | matchText pattern text => exact outcome_matchText disk console pattern text
  | delete name => exact outcome_delete disk console name
  | clear => exact .cleared _
  | usage form => exact .told _ fun _ _ => rfl
  | unknown verb => exact .told _ fun _ _ => rfl

/-- A command that fails leaves the console as it was. -/
theorem eq_of_perform_eq_error {after : Console} {fault : Fault}
    (h : perform disk command console = .error fault after) : after = console := by
  have houtcome := outcome_perform disk console command
  rw [h] at houtcome
  cases houtcome with
  | failed => rfl

/-- Only one command ends the dialogue. -/
theorem eq_exit_of_perform_eq_ok_false {after : Console}
    (h : perform disk command console = .ok false after) : command = .exit := by
  have houtcome := outcome_perform disk console command
  rw [h] at houtcome
  cases houtcome with
  | left => rfl

/-- A line that fails leaves the console as it was: no name has come, gone or changed its automaton
    or its regular expression, and nothing has been shown. -/
theorem eq_of_execute_eq_error {line : String} {after : Console} {fault : Fault}
    (h : execute disk line console = .error fault after) : after = console := by
  unfold execute at h
  cases hline : Command.ofLine? line.toList with
  | some command =>
    rw [hline] at h
    exact eq_of_perform_eq_error h
  | none =>
    rw [hline] at h
    cases h
    rfl

/-- A console in the middle of its output, with an automaton of two states under a name. -/
def inUse : Console where
  session := ⟨⟨#[.of ⟨2, .ofList [0], .ofList [1], .ofList [Edge.mk 0 1 (some 'x')]⟩]⟩,
    ⟨[("a", ⟨0⟩)]⟩, ∅⟩
  shown := "> "

theorem eq_of_execute_eq_error_inUse : ∃ after,
    execute (fun _ => .error .missing) "connect a 0 2 y" inUse =
      .error (.missingState "2") after ∧ after = inUse := by
  have hfails : execute (fun _ => .error .missing) "connect a 0 2 y" inUse =
      .error (.missingState "2") inUse := rfl
  exact ⟨inUse, hfails, eq_of_execute_eq_error hfails⟩

/-- An action that shows a line and fails after that does not take the line back, so it is up to the
    commands to fail first. -/
example : (say "shown" >>= fun _ => throw .blank : Action Unit) inUse =
    .error .blank { inUse with shown := "> shown\n" } := rfl

end Console

end FiniteState
