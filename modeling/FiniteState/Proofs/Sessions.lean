import FiniteState.Proofs.Commands

/-!
# Sessions

In every session, each regular expression has the automaton that its pattern is built into, and each
automaton is consistent. So matching against a name answers by the pattern that the name was last
given, whatever has been done since to the automaton under the same name.

A regular expression refers to its automaton, as a name does, and commands change automata in place.
What keeps the two apart is that no name refers to the automaton of a regular expression. This is
carried along with the rest: a name refers to what has been made for it, and building a pattern
makes a copy for the name.

Which pattern a name was last given is said without sessions: `lastGiven` follows one name through
the lines that were carried out. By induction on these lines, the session has the same pattern under
the name. What a command does is read off `Console.Outcome`.

## Main definitions

* `Session.patternOf?`: The pattern that a session has under a name.
* `Console.patternAfterLine`, `Console.lastGiven`: The pattern of a name after a line, and after a
  history.
* `Console.sessionAfter`: The session after a history.

## Theorems

* `Matcher.Built.run_iff`: A matcher answers by the language of the tree of its pattern.
* `Session.Sound.insert`, `Session.Sound.insertExpression`, `Session.Sound.put`,
  `Session.Sound.merge`: What changes of a session preserve.
* `Console.Outcome.sound`, `Console.sound_step`, `Console.sound_history`: What commands, lines and
  histories preserve, and what they do to the pattern of a name.
* `Console.session_of_getElem?_run`, `Console.sound_of_getElem?_run`: The sessions along a run are
  sessions after histories.
* `Console.sound_sessionAfter`: All sessions are sound and answer by the patterns last given.
-/

namespace FiniteState

namespace Matcher

variable {m : Matcher}

/-- A matcher with the automaton of its pattern answers by the language of the tree of the
    pattern. -/
theorem Built.run_iff (h : m.Built) : ∃ node, Pattern.parse m.pattern = .ok node ∧
    ∀ text, m.run text = true ↔ text ∈ node.language := by
  rcases bind_eq_ok_iff.1 h with ⟨A, hA, hminimize⟩
  cases hparse : Pattern.parse m.pattern with
  | error error =>
    have hfault := Pattern.thompson_eq_error_iff.2 ⟨error, hparse, rfl⟩
    rw [hA] at hfault
    exact nomatch hfault
  | ok node =>
    rcases Pattern.exists_thompson hparse with ⟨B, hB, hwell, hlanguage⟩
    obtain rfl : A = B := Except.ok.inj (hA.symm.trans hB)
    have hautomaton : m.automaton = A.minimize := (Except.ok.inj hminimize).symm
    refine ⟨node, rfl, fun text => ?_⟩
    -- The walk decides the language of an automaton that is deterministic and begins in one state.
    have hdet : m.automaton.isDeterministic = true := by
      rw [hautomaton]
      exact Automaton.isDeterministic_determinize hwell.codeterminize
    have hstart : m.automaton.starting = .ofList [0] := by
      rw [hautomaton]
      rfl
    rw [m.run_eq_true_iff hdet hstart, hautomaton, Automaton.language_minimize hwell, hlanguage]

end Matcher

/-! ### Sessions -/

namespace Session

variable {session : Session}

/-- The pattern that a session has under a name. -/
def patternOf? (session : Session) (name : String) : Option (List Char) :=
  (session.expressions.get? name).map Expression.pattern

theorem sound_empty : Sound .empty :=
  ⟨Store.sound_empty, Registry.every_empty, Registry.every_empty, Registry.every_empty⟩

/-- The automaton of a regular expression is in the store. -/
theorem Sound.lt (h : session.Sound) :
    session.expressions.Every fun e => e.automaton.index < session.store.size := by
  intro entry hentry
  rcases h.expressions entry hentry with ⟨m, -, hm⟩
  exact hm.automaton.lt

/-- What has come into the store since does not matter to a sound session. -/
theorem Sound.keep (h : session.Sound) {store : Store} (hkeeps : session.store.Keeps store) :
    Sound { session with store := store } where
  store := hkeeps.sound h.store
  addresses entry hentry := (h.addresses entry hentry).trans_le hkeeps.size_le
  expressions entry hentry := by
    rcases h.expressions entry hentry with ⟨m, hbuilt, hm⟩
    exact ⟨m, hbuilt, hm.keep hkeeps⟩
  separate := h.separate

/-- A name may refer to an automaton that has come since, as no regular expression does. -/
theorem Sound.insert (h : session.Sound) {store : Store} (hkeeps : session.store.Keeps store)
    {a : Address} (hsince : a.Since session.store) (hlt : a.index < store.size) (name : String) :
    Sound ⟨store, session.addresses.insert name a, session.expressions⟩ where
  store := (h.keep hkeeps).store
  addresses := (h.keep hkeeps).addresses.insert hlt name
  expressions := (h.keep hkeeps).expressions
  separate entry hentry := by
    refine (h.separate entry hentry).insert (fun heq => ?_) name
    -- The automata of regular expressions were there before.
    rw [heq] at hsince
    exact Nat.not_lt.2 hsince (h.lt entry hentry)

/-- A name may have a regular expression whose automaton has come since, as no name refers to it. -/
theorem Sound.insertExpression (h : session.Sound) {store : Store}
    (hkeeps : session.store.Keeps store) {e : Expression} {m : Matcher} (hm : m.Built)
    (he : e.Holds store m) (hsince : e.automaton.Since session.store) (name : String) :
    Sound ⟨store, session.addresses, session.expressions.insert name e⟩ where
  store := (h.keep hkeeps).store
  addresses := (h.keep hkeeps).addresses
  expressions := (h.keep hkeeps).expressions.insert ⟨m, hm, he⟩ name
  separate := by
    refine h.separate.insert (fun entry hentry heq => ?_) name
    rw [← heq] at hsince
    exact Nat.not_lt.2 hsince (h.addresses entry hentry)

/-- Changing the automaton that a name refers to leaves every regular expression alone, since the
    automaton of that is in another cell. -/
theorem Sound.put (h : session.Sound) {name : String} {a : Address} {A : Stored}
    (ha : session.addresses.get? name = some a) (hA : A.Consistent) :
    Sound { session with store := session.store.put a A } where
  store := h.store.put hA
  addresses := by simpa using h.addresses
  expressions entry hentry := by
    rcases h.expressions entry hentry with ⟨m, hbuilt, hm⟩
    have hne : a ≠ entry.2.automaton := (h.separate entry hentry).of_get? ha
    exact ⟨m, hbuilt, hm.put_of_ne (fun heq => hne (congrArg Address.mk heq)) A⟩
  separate := h.separate

theorem Sound.erase (h : session.Sound) (name : String) :
    Sound { session with
      addresses := session.addresses.erase name
      expressions := session.expressions.erase name } where
  store := h.store
  addresses := h.addresses.erase name
  expressions := h.expressions.erase name
  separate := (Registry.Every.erase h.separate name).imp fun _ h => h.erase name

/-- The items of a file come into a sound session. -/
theorem Sound.merge (h : session.Sound) {loaded : Loaded} (hloaded : loaded.Sound) {store : Store}
    {adopted : Adopted} (hadopts : Adopts loaded session.store store adopted) :
    Sound ⟨store, session.addresses.merge adopted.addresses,
      session.expressions.merge adopted.expressions⟩ := by
  have hkept := h.keep hadopts.keeps
  refine ⟨hkept.store, hkept.addresses.merge (hadopts.every_address hloaded),
    hkept.expressions.merge (hadopts.every_expression hloaded), ?_⟩
  -- What is new on one side has come after what is old on the other.
  have hold : session.expressions.Every fun e =>
      (session.addresses.merge adopted.addresses).Every (· ≠ e.automaton) := by
    intro entry hentry
    refine (h.separate entry hentry).merge fun other hother heq => ?_
    have hsince := hadopts.since other hother
    rw [heq] at hsince
    exact Nat.not_lt.2 hsince (h.lt entry hentry)
  refine Registry.Every.merge hold fun entry hentry => ?_
  rcases hadopts.separate entry hentry with ⟨hsince, hne⟩
  refine Registry.Every.merge (fun other hother heq => ?_) hne
  rw [← heq] at hsince
  exact Nat.not_lt.2 hsince (h.addresses other hother)

end Session

/-! ### Histories -/

namespace Console

/-- The pattern that a name has after a line, where `old` is the one that it had before. -/
def patternAfterLine (disk : Disk) (name : String) (old : Option (List Char)) (line : String) :
    Option (List Char) :=
  match Command.ofLine? line.toList with
  | some command => command.patternAfter disk name old
  | none => old

/-- The pattern that a name was last given in a history, unless it has been taken away since. A
    history tells what was on the disk and which line was carried out, from the first line on. -/
def lastGiven (name : String) (history : List (Disk × String)) : Option (List Char) :=
  history.foldl (fun old entry => patternAfterLine entry.1 name old entry.2) none

/-- The session that a history makes of a session. -/
def sessionAfter (session : Session) (history : List (Disk × String)) : Session :=
  history.foldl (fun session entry => (step entry.1 session entry.2).console.session) session

/-- The console that an action leaves, however it has ended. -/
def consoleAfter : EStateM.Result Fault Console Bool → Console
  | .ok _ console => console
  | .error _ console => console

theorem console_step (disk : Disk) (session : Session) (line : String) :
    (step disk session line).console = consoleAfter (execute disk line ⟨session, ""⟩) := by
  unfold step
  cases execute disk line ⟨session, ""⟩ <;> rfl

variable {disk : Disk} {console : Console} {session : Session} {name line : String}

/-- After a command, the session is sound, and its patterns are those that the command leaves. -/
theorem Outcome.sound {command : Command} {result : EStateM.Result Fault Console Bool}
    (h : Outcome disk console command result) (hsound : console.session.Sound) :
    (consoleAfter result).session.Sound ∧ ∀ name,
      (consoleAfter result).session.patternOf? name =
        command.patternAfter disk name (console.session.patternOf? name) := by
  cases h with
  | failed fault hkeeps => exact ⟨hsound, fun name => (hkeeps name _).symm⟩
  | left => exact ⟨hsound, fun _ => rfl⟩
  | told shown hkeeps => exact ⟨hsound, fun name => (hkeeps name _).symm⟩
  | kept shown other hkeeps hstore hsince hlt =>
    exact ⟨hsound.insert hstore hsince (hlt hsound) other, fun name => (hkeeps name _).symm⟩
  | altered shown other hkeeps ha hA =>
    exact ⟨hsound.put ha (hA hsound.store), fun name => (hkeeps name _).symm⟩
  | @loaded shown path loaded adopted store hload hadopts =>
    -- No name comes twice in a file, so what is merged in under a name is what is found there.
    have hloaded := Disk.sound_of_load hload
    refine ⟨hsound.merge hloaded hadopts, fun name => ?_⟩
    have hnodup : adopted.expressions.names.Nodup :=
      hadopts.expressions.names_eq ▸ hloaded.nodup_names
    rw [Command.patternAfter, hload]
    simp only [consoleAfter, Session.patternOf?, Registry.get?_merge hnodup, ← hadopts.map_get?]
    cases adopted.expressions.get? name <;> rfl
  | @built shown other pattern e a middle store he ha =>
    have hexpress := (Expression.tracks_ofPattern pattern.toList console.session.store).maintaining
      (Expression.maintains_ofPattern _) (.refl _)
    rw [he] at hexpress
    rcases hexpress.exists_of_ok with ⟨m, hm, hholds, hmiddle, hsince⟩
    have hcopy := (Store.tracks_copy hholds.automaton).maintaining (Store.maintains_copy _)
      (.refl middle)
    rw [ha] at hcopy
    rcases hcopy.exists_of_ok with ⟨A, -, hA, hstore, hcopied⟩
    rcases Matcher.built_of_ofPattern hm with ⟨hbuilt, hpattern⟩
    -- The name refers to the copy, which is not the automaton of the regular expression.
    have hnamed := hsound.insertExpression hmiddle hbuilt hholds hsince other
    refine ⟨hnamed.insert hstore hcopied hA.lt other, fun name => ?_⟩
    -- A pattern that has been built could be read, so the name is given it.
    have hreadable : (Pattern.parse pattern.toList).isOk = true := by
      rcases hbuilt.run_iff with ⟨node, hparse, -⟩
      rw [hpattern] at hparse
      rw [hparse]
      rfl
    simp only [consoleAfter, Session.patternOf?, Registry.get?_insert, Command.patternAfter,
      hreadable, and_true, eq_comm (a := other)]
    split_ifs
    · exact congrArg some (hholds.pattern_eq.trans hpattern)
    · rfl
  | deleted shown other =>
    refine ⟨hsound.erase other, fun name => ?_⟩
    simp only [consoleAfter, Session.patternOf?, Registry.get?_erase, Command.patternAfter,
      eq_comm (a := other)]
    split_ifs <;> rfl
  | cleared shown => exact ⟨Session.sound_empty, fun _ => rfl⟩

/-- After a line, the session is sound, and its patterns are those that the line leaves. -/
theorem sound_step (h : session.Sound) (disk : Disk) (line : String) :
    (step disk session line).console.session.Sound ∧ ∀ name,
      (step disk session line).console.session.patternOf? name =
        patternAfterLine disk name (session.patternOf? name) line := by
  rw [console_step]
  unfold execute patternAfterLine
  cases Command.ofLine? line.toList with
  | some command => exact (outcome_perform disk ⟨session, ""⟩ command).sound h
  | none => exact ⟨h, fun _ => rfl⟩

/-- After lines on a sound session, the session is sound, and its patterns are those that the lines
    leave. -/
theorem sound_history (h : session.Sound) (history : List (Disk × String)) :
    (sessionAfter session history).Sound ∧ ∀ name,
      (sessionAfter session history).patternOf? name =
        history.foldl (fun old entry => patternAfterLine entry.1 name old entry.2)
          (session.patternOf? name) := by
  induction history generalizing session with
  | nil => exact ⟨h, fun _ => rfl⟩
  | cons entry history ih =>
    rcases sound_step h entry.1 entry.2 with ⟨hsound, hpatterns⟩
    refine ⟨(ih hsound).1, fun name => ?_⟩
    -- The pattern after the first line is where the others begin.
    rw [List.foldl_cons, ← hpatterns]
    exact (ih hsound).2 name

/-- Matching against a name with a regular expression asks that one and changes nothing. -/
theorem step_of_matchText {text : String} {e : Expression}
    (hline : Command.ofLine? line.toList = some (.matchText name text))
    (he : session.expressions.get? name = some e) :
    step disk session line =
      ⟨.ok true,
        ⟨session, if e.run session.store text.toList then "MATCH\n" else "NO MATCH\n"⟩⟩ := by
  have hperform : execute disk line ⟨session, ""⟩ = .ok true ⟨session,
      "" ++ (if e.run session.store text.toList then "MATCH" else "NO MATCH") ++ "\n"⟩ := by
    unfold execute
    rw [hline]
    -- The command is found in the line, and then a look at the session finds the expression.
    change perform disk (.matchText name text) ⟨session, ""⟩ = _
    rw [perform, items_bind_apply]
    dsimp only
    rw [he]
    rfl
  unfold step
  rw [hperform]
  cases e.run session.store text.toList <;> rfl

/-- The session after each line of a run is the one after the history up to there. -/
theorem session_of_getElem?_run {lines : List String} {i : Nat} {done : Step}
    (h : (run disk session lines)[i]? = some done) :
    done.console.session = sessionAfter session ((lines.take (i + 1)).map (disk, ·)) := by
  induction lines generalizing session i with
  | nil => exact nomatch h
  | cons line lines ih =>
    cases i with
    | zero =>
      cases h
      rfl
    | succ i => exact ih h

/-- After each line of a run, the session is sound, and its patterns are those that were last
    given. -/
theorem sound_of_getElem?_run {lines : List String} {i : Nat} {done : Step}
    (h : (run disk .empty lines)[i]? = some done) :
    done.console.session.Sound ∧ ∀ name, done.console.session.patternOf? name =
      lastGiven name ((lines.take (i + 1)).map (disk, ·)) := by
  rw [session_of_getElem?_run h]
  exact sound_history Session.sound_empty _

/-- After every history, all automata are consistent, and all regular expressions have the automata
    of their patterns. The pattern under a name is the one that the name was last given, and
    matching against the name answers by the language of the tree of that pattern. -/
theorem sound_sessionAfter (history : List (Disk × String)) :
    (sessionAfter .empty history).Sound ∧ ∀ name,
      (sessionAfter .empty history).patternOf? name = lastGiven name history ∧
      ∀ pattern, lastGiven name history = some pattern → ∃ node, Pattern.parse pattern = .ok node ∧
        ∀ disk line text, Command.ofLine? line.toList = some (.matchText name text) →
          ∃ shown, step disk (sessionAfter .empty history) line =
              ⟨.ok true, ⟨sessionAfter .empty history, shown⟩⟩ ∧
            (text.toList ∈ node.language → shown = "MATCH\n") ∧
            (text.toList ∉ node.language → shown = "NO MATCH\n") := by
  rcases sound_history Session.sound_empty history with ⟨hsound, hpatterns⟩
  refine ⟨hsound, fun name => ⟨hpatterns name, fun pattern hpattern => ?_⟩⟩
  have hfound : (sessionAfter .empty history).patternOf? name = some pattern :=
    (hpatterns name).trans hpattern
  rcases Option.map_eq_some_iff.1 hfound with ⟨e, he, rfl⟩
  rcases hsound.expressions.of_get? he with ⟨m, hbuilt, hm⟩
  rcases hbuilt.run_iff with ⟨node, hparse, hrun⟩
  -- The expression answers as the matcher of its pattern does, which answers by the language.
  simp only [← hm.run_eq] at hrun
  rw [← hm.pattern_eq] at hparse
  refine ⟨node, hparse, fun disk line text hline => ⟨_, step_of_matchText hline he, ?_, ?_⟩⟩
  · intro htext
    rw [if_pos ((hrun _).2 htext)]
  · intro htext
    rw [if_neg (mt (hrun _).1 htext)]

/-- A disk on which every path leads to a file that declares a pattern. -/
def patternDisk : Disk :=
  fun _ => .ok ("regex: a|b".toList.map Char.toNat)

/-- A history that builds a pattern, unmarks the only final state of the automaton under the name,
    and loads another pattern for the name. Then it changes the automaton again, which is still that
    of the first pattern, and fails to give the name a third pattern. -/
def edits : List (Disk × String) :=
  ["build r c", "final r 1 off", "load files/r.txt", "starting r 0 off", "build r ("].map
    (patternDisk, ·)

theorem sound_sessionAfter_edits : ∃ node, Pattern.parse "a|b".toList = .ok node ∧
    "b".toList ∈ node.language ∧ (sessionAfter .empty edits).Sound ∧
    step patternDisk (sessionAfter .empty edits) "match r b" =
      ⟨.ok true, ⟨sessionAfter .empty edits, "MATCH\n"⟩⟩ := by
  have hgiven : lastGiven "r" edits = some "a|b".toList := by decide +kernel
  have hparse : Pattern.parse "a|b".toList =
      .ok (.alternation [.character ['a'], .character ['b']]) := by cbv
  have hline : Command.ofLine? "match r b".toList = some (.matchText "r" "b") := rfl
  -- The word is in the second branch.
  have hmem : "b".toList ∈ (Regex.alternation [.character ['a'], .character ['b']]).language :=
    Or.inr (Or.inl ⟨'b', List.mem_singleton_self 'b', rfl⟩)
  rcases sound_sessionAfter edits with ⟨hsound, hnames⟩
  rcases (hnames "r").2 _ hgiven with ⟨node, hnode, hmatch⟩
  obtain rfl : _ = node := Except.ok.inj (hparse.symm.trans hnode)
  rcases hmatch patternDisk _ _ hline with ⟨shown, hstep, hmatches, -⟩
  obtain rfl := hmatches hmem
  exact ⟨_, hparse, hmem, hsound, hstep⟩

/-- A session in which a name refers to the automaton of the regular expression that has the name,
    as no command makes one. -/
def shared : Session where
  store := ⟨#[.of ⟨2, .ofList [0], .ofList [1], .ofList [Edge.mk 0 1 (some 'c')]⟩]⟩
  addresses := ⟨[("r", ⟨0⟩)]⟩
  expressions := ⟨[("r", ⟨['c'], ⟨0⟩, some 0, [((0, some 'c'), 1)]⟩)]⟩

/-- Changing the automaton would change the answers there. -/
example : (step patternDisk shared "match r c").console.shown = "MATCH\n" ∧
    (step patternDisk (step patternDisk shared "final r 1 off").console.session
      "match r c").console.shown = "NO MATCH\n" := by
  decide +kernel

end Console

end FiniteState
