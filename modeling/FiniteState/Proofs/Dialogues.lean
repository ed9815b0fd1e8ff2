import FiniteState.Console.Dialogue
import FiniteState.Proofs.Commands

/-!
# Dialogues

Bad lines are isolated. Removing a blank line, an interruption or a line that fails from a dialogue
removes its prompt and the message that it was answered with, and everything else remains: what is
shown for all other inputs, and the number of inputs that are not asked for.

Two facts about a single input carry this. The dialogue ends with the inputs that say so in their
first word, whatever the session is, so removing other inputs does not change which inputs are asked
for. And the inputs in question leave the session as it was, so the inputs after them find the same
session if they are removed. Both are read off `step_trimmed_cases`. From there `responses_append`
cuts the dialogue in two where an input is removed.

A line is carried out without the blanks at its ends. Since words are divided by the very characters
that are cut off there, nothing but a blank line is without a command.

## Main definitions

* `Console.Input.leaves`: An input ends the dialogue.
* `Console.Fruitless`: An input is answered with a message, and that is all.
* `Console.responses`: The responses to the inputs that are asked for.
* `Console.sessionAt`: The session after inputs.
* `Console.Removes`: What is removed from a dialogue with one of its inputs.
* `Console.Isolates`: What a dialogue asks for and shows, and how little it heeds bad lines.

## Theorems

* `Command.ofLine?_eq_none_iff`, `Command.ofLine?_eq_exit_iff`: Lines without a command, and lines
  with the command to exit.
* `Console.step_trimmed_cases`: A line that is not blank fails and changes nothing, or it succeeds
  and says whether it ends the dialogue.
* `Console.Fruitless.respond_eq`, `Console.goesOn_respond`: What an input does to the dialogue.
* `Console.responses_append`: Responses to inputs before and after a place.
* `Console.shown_converse`, `Console.unread_converse`: A dialogue in terms of its responses.
* `Console.Fruitless.removes`: What is removed with a fruitless input.
* `Console.isolates`: All dialogues isolate bad lines.
-/

namespace FiniteState

namespace Command

variable {line : List Char}

theorem ofVerb_eq_exit_iff {verb : String} {arguments afterOne afterTwo : List String} :
    ofVerb verb arguments afterOne afterTwo = .exit ↔ verb = "exit" ∨ verb = "quit" := by
  constructor
  · intro h
    -- With every other verb, the line is another command or is told how to be one.
    unfold ofVerb ofMark ofConversion at h
    grind
  · rintro (rfl | rfl) <;> rfl

/-- A line has a command unless it is blank. -/
theorem ofLine?_eq_none_iff : ofLine? line = none ↔ ∀ c ∈ line, Text.isBlank c = true := by
  rw [← Text.words_eq_nil_iff, ofLine?]
  cases Text.words line <;> simp

/-- A line is the command to exit if its first word says so. -/
theorem ofLine?_eq_exit_iff : ofLine? line = some .exit ↔
    ∃ word, (Text.words line).head? = some word ∧
      String.ofList (Text.lower word) ∈ ["exit", "quit"] := by
  rw [ofLine?]
  cases Text.words line <;> simp [ofVerb_eq_exit_iff]

end Command

namespace Console

/-- Whether an input ends the dialogue: the first word of the line is `exit` or `quit`, in any
    letter case. -/
def Input.leaves : Input → Bool
  | .interruption => false
  | .line text => (Text.words text.toList).head?.any fun word =>
      String.ofList (Text.lower word) ∈ ["exit", "quit"]

/-- The line that is carried out for a line of input. -/
def trimmed (text : String) : String :=
  String.ofList (Text.trim text.toList)

/-- An input is answered with a message, and that is all: the line is blank, there is an
    interruption in its place, or it fails when it is carried out. -/
inductive Fruitless (disk : Disk) (session : Session) : Input → String → Prop
  | blank {text : String} (h : ∀ c ∈ text.toList, Text.isBlank c = true) :
      Fruitless disk session (.line text) ""
  | interruption : Fruitless disk session .interruption "\nUse 'exit' to quit\n"
  | failed {text : String} {fault : Fault} (hline : ¬ ∀ c ∈ text.toList, Text.isBlank c = true)
      (h : (step disk session (trimmed text)).outcome = .error fault) :
      Fruitless disk session (.line text) ("Error: " ++ fault.message ++ "\n")

/-- The responses to the inputs that are asked for, one after another. -/
def responses (disk : Disk) : Session → List Input → List Response
  | _, [] => []
  | session, input :: rest =>
    let response := respond disk session input
    response :: if response.goesOn then responses disk response.session rest else []

/-- The session after inputs, if none of them ends the dialogue. -/
def sessionAt (disk : Disk) (session : Session) (inputs : List Input) : Session :=
  inputs.foldl (fun session input => (respond disk session input).session) session

/-- What is shown for inputs, with the prompts before them. -/
def prompted (responses : List Response) : String :=
  .join (responses.map fun response => prompt ++ response.shown)

/-- Without one of its inputs, which is answered with a message, a dialogue responds to all others
    as it does with it. What it shows lacks the prompt and the message of that input and nothing
    else, and as many inputs remain that are not asked for. -/
structure Removes (disk : Disk) (before : List Input) (input : Input) (after : List Input)
    (message : String) : Prop where
  shown : ∃ earlier later back, earlier.length = before.length ∧
    responses disk .empty (before ++ input :: after) =
      earlier ++ ⟨message, sessionAt disk .empty before, true⟩ :: later ∧
    responses disk .empty (before ++ after) = earlier ++ later ∧
    (transcript disk (before ++ input :: after)).shown =
      greeting ++ prompted earlier ++ (prompt ++ message) ++ back ∧
    (transcript disk (before ++ after)).shown = greeting ++ prompted earlier ++ back
  unread : (transcript disk (before ++ input :: after)).unread =
    (transcript disk (before ++ after)).unread

/-- What a dialogue asks for and shows, and how little it heeds bad lines. -/
structure Isolates (disk : Disk) (inputs : List Input) : Prop where
  /-- The inputs are asked for up to the first that ends the dialogue. -/
  unread_eq : (transcript disk inputs).unread = ((inputs.dropWhile (!·.leaves)).drop 1).length
  /-- There is a response to each of them. -/
  length_responses :
    (responses disk .empty inputs).length + (transcript disk inputs).unread = inputs.length
  /-- The responses are shown after prompts, and a last prompt if no input has ended the
      dialogue. -/
  shown_eq : (transcript disk inputs).shown =
    greeting ++ (prompted (responses disk .empty inputs) ++
      if inputs.any Input.leaves then "" else prompt) ++ farewell
  /-- Nothing else changes when a fruitless input that is asked for is removed. -/
  removes : ∀ before input after message, inputs = before ++ input :: after →
    (∀ earlier ∈ before, earlier.leaves = false) →
      Fruitless disk (sessionAt disk .empty before) input message →
        Removes disk before input after message
  /-- No line that is carried out fails for being blank. -/
  ne_blank : ∀ text, .line text ∈ inputs → (¬ ∀ c ∈ text.toList, Text.isBlank c = true) →
    ∀ session, (step disk session (trimmed text)).outcome ≠ .error .blank

variable {disk : Disk} {session : Session} {input : Input} {message : String}

/-! ### One input -/

/-- A line with a command fails for a reason of its own and changes nothing, or it succeeds and
    says whether it was the command to exit. -/
theorem step_cases {line : String} {command : Command}
    (hcommand : Command.ofLine? line.toList = some command) (disk : Disk) (session : Session) :
    (∃ fault, step disk session line = ⟨.error fault, ⟨session, ""⟩⟩ ∧ fault ≠ .blank ∧
      command ≠ .exit) ∨
    ∃ goesOn after, step disk session line = ⟨.ok goesOn, after⟩ ∧
      (goesOn = false ↔ command = .exit) := by
  have houtcome := outcome_perform disk ⟨session, ""⟩ command
  unfold step execute
  rw [hcommand]
  dsimp only
  cases hperform : perform disk command ⟨session, ""⟩ with
  | error fault after =>
    rw [hperform] at houtcome
    cases houtcome with
    | failed _ _ hfault =>
      -- Leaving never fails.
      refine Or.inl ⟨fault, rfl, hfault, ?_⟩
      rintro rfl
      exact nomatch hperform
  | ok goesOn after =>
    refine Or.inr ⟨goesOn, after, rfl, ?_, ?_⟩
    · rintro rfl
      exact eq_exit_of_perform_eq_ok_false hperform
    · rintro rfl
      cases hperform
      rfl

theorem toList_trimmed (text : String) : (trimmed text).toList = Text.trim text.toList :=
  String.toList_ofList

/-- A line that is not blank has a command, and with the command to exit it ends the dialogue. -/
theorem exists_ofLine?_trimmed {text : String}
    (h : ¬ ∀ c ∈ text.toList, Text.isBlank c = true) :
    ∃ command, Command.ofLine? (trimmed text).toList = some command ∧
      (command = .exit ↔ (Input.line text).leaves = true) := by
  rw [toList_trimmed]
  cases hcommand : Command.ofLine? (Text.trim text.toList) with
  | none =>
    -- What is left of a text without its blanks is blank only if nothing is left.
    rw [Command.ofLine?_eq_none_iff, ← Text.trimStart_eq_nil_iff, Text.trimStart_trim,
      Text.trim_eq_nil_iff] at hcommand
    exact absurd hcommand h
  | some command =>
    have hexit : command = .exit ↔ Command.ofLine? (Text.trim text.toList) = some .exit := by
      rw [hcommand, Option.some.injEq]
    refine ⟨command, rfl, ?_⟩
    rw [hexit, Command.ofLine?_eq_exit_iff, Text.head?_words_trim]
    simp [Input.leaves, Option.any_eq_true]

/-- A line that is not blank fails for a reason of its own and changes nothing, or it succeeds and
    says whether it ends the dialogue. -/
theorem step_trimmed_cases {text : String} (h : ¬ ∀ c ∈ text.toList, Text.isBlank c = true)
    (disk : Disk) (session : Session) :
    (∃ fault, step disk session (trimmed text) = ⟨.error fault, ⟨session, ""⟩⟩ ∧
      fault ≠ .blank ∧ (Input.line text).leaves = false) ∨
    ∃ after, step disk session (trimmed text) = ⟨.ok !(Input.line text).leaves, after⟩ := by
  rcases exists_ofLine?_trimmed h with ⟨command, hcommand, hexit⟩
  rcases step_cases hcommand disk session with
    ⟨fault, hstep, hfault, hne⟩ | ⟨goesOn, after, hstep, hgoesOn⟩
  · exact Or.inl ⟨fault, hstep, hfault, Bool.eq_false_iff.2 (mt hexit.2 hne)⟩
  · refine Or.inr ⟨after, ?_⟩
    -- Leaving is the one command after which the dialogue does not go on.
    have hsame : goesOn = !(Input.line text).leaves := by
      rw [hexit] at hgoesOn
      cases goesOn with
      | false =>
        rw [hgoesOn.1 rfl]
        rfl
      | true =>
        rw [Bool.eq_false_iff.2 (mt hgoesOn.2 nofun)]
        rfl
    rw [hstep, hsame]

theorem respond_blank {text : String} (h : ∀ c ∈ text.toList, Text.isBlank c = true) :
    respond disk session (.line text) = ⟨"", session, true⟩ := by
  have htrim := Text.trim_eq_nil_iff.2 h
  simp [respond, htrim]

theorem respond_line {text : String} (h : ¬ ∀ c ∈ text.toList, Text.isBlank c = true) :
    respond disk session (.line text) = respondTo disk session (trimmed text) := by
  have htrim := mt Text.trim_eq_nil_iff.1 h
  simp [respond, trimmed, htrim]

/-- A fruitless input is answered with its message, and the dialogue goes on with the same
    session. -/
theorem Fruitless.respond_eq (h : Fruitless disk session input message) :
    respond disk session input = ⟨message, session, true⟩ := by
  cases h with
  | blank hblank => exact respond_blank hblank
  | interruption => rfl
  | @failed text fault hline hfault =>
    rw [respond_line hline, respondTo]
    -- The line has a fault, so it is not one of those that succeed.
    rcases step_trimmed_cases hline disk session with ⟨other, hstep, -⟩ | ⟨after, hstep⟩
    · rw [hstep] at hfault ⊢
      cases hfault
      simp
    · rw [hstep] at hfault
      exact nomatch hfault

/-- The dialogue goes on after an input unless the first word of that says otherwise. -/
theorem goesOn_respond (disk : Disk) (session : Session) (input : Input) :
    (respond disk session input).goesOn = !input.leaves := by
  cases input with
  | interruption => rfl
  | line text =>
    by_cases hblank : ∀ c ∈ text.toList, Text.isBlank c = true
    · have hwords := Text.words_eq_nil_iff.2 hblank
      simp [respond_blank hblank, Input.leaves, hwords]
    · rw [respond_line hblank, respondTo]
      rcases step_trimmed_cases hblank disk session with ⟨fault, hstep, -, hstays⟩ | ⟨after, hstep⟩
      · rw [hstep, hstays]
        rfl
      · rw [hstep]

theorem Fruitless.leaves_eq_false (h : Fruitless disk session input message) :
    input.leaves = false := by
  have hgoesOn := goesOn_respond disk session input
  rw [h.respond_eq] at hgoesOn
  simpa using hgoesOn

/-! ### Dialogues -/

theorem responses_cons (disk : Disk) (session : Session) (input : Input) (rest : List Input) :
    responses disk session (input :: rest) = respond disk session input ::
      if input.leaves then [] else responses disk (respond disk session input).session rest := by
  rw [responses, goesOn_respond]
  cases input.leaves <;> rfl

/-- Before a dialogue ends, it responds to its inputs up to a place, and then to those after it. -/
theorem responses_append {before : List Input} (hbefore : ∀ input ∈ before, input.leaves = false)
    (disk : Disk) (session : Session) (after : List Input) :
    responses disk session (before ++ after) =
      responses disk session before ++ responses disk (sessionAt disk session before) after := by
  induction before generalizing session with
  | nil => rfl
  | cons input before ih =>
    rcases List.forall_mem_cons.1 hbefore with ⟨hinput, hrest⟩
    rw [List.cons_append, responses_cons, responses_cons, hinput]
    simp [ih hrest, sessionAt]

theorem prompted_append (earlier later : List Response) :
    prompted (earlier ++ later) = prompted earlier ++ prompted later := by
  simp [prompted, String.join_append]

theorem prompted_cons (response : Response) (later : List Response) :
    prompted (response :: later) = prompt ++ response.shown ++ prompted later := by
  simp [prompted]

/-- From the first prompt on, a dialogue shows its responses, and a last prompt if no input has
    ended it. -/
theorem shown_converse (disk : Disk) (session : Session) (inputs : List Input) :
    (converse disk session inputs).shown =
      prompted (responses disk session inputs) ++
        if inputs.any Input.leaves then "" else prompt := by
  induction inputs generalizing session with
  | nil => simp [converse, responses, prompted]
  | cons input rest ih =>
    rw [converse, responses_cons, goesOn_respond]
    cases hleaves : input.leaves with
    | true => simp [prompted, hleaves]
    | false => simp [prompted_cons, hleaves, ih, String.append_assoc]

/-- The inputs after the first that ends the dialogue are not asked for. -/
theorem unread_converse (disk : Disk) (session : Session) (inputs : List Input) :
    (converse disk session inputs).unread = ((inputs.dropWhile (!·.leaves)).drop 1).length := by
  induction inputs generalizing session with
  | nil => rfl
  | cons input rest ih =>
    rw [converse, goesOn_respond]
    cases hleaves : input.leaves with
    | true => simp [hleaves]
    | false => simp [hleaves, ih]

/-- There is a response to every input that is asked for. -/
theorem length_responses (disk : Disk) (session : Session) (inputs : List Input) :
    (responses disk session inputs).length + (converse disk session inputs).unread =
      inputs.length := by
  induction inputs generalizing session with
  | nil => rfl
  | cons input rest ih =>
    rw [converse, responses_cons, goesOn_respond]
    cases hleaves : input.leaves with
    -- The rest of the inputs is not read.
    | true =>
      simp
      omega
    | false =>
      have hrest := ih (respond disk session input).session
      simp
      omega

/-- If no input ends the dialogue, all of them are asked for. -/
theorem length_responses_of_forall {inputs : List Input}
    (h : ∀ input ∈ inputs, input.leaves = false) (disk : Disk) (session : Session) :
    (responses disk session inputs).length = inputs.length := by
  have hnone : inputs.dropWhile (!·.leaves) = [] :=
    List.dropWhile_eq_nil_iff.2 fun input hinput => by simp [h input hinput]
  have hlength := length_responses disk session inputs
  rw [unread_converse, hnone] at hlength
  exact hlength

/-- Nothing but its prompt and its message is removed with a fruitless input. -/
theorem Fruitless.removes {before : List Input}
    (h : Fruitless disk (sessionAt disk .empty before) input message)
    (hbefore : ∀ earlier ∈ before, earlier.leaves = false) (after : List Input) :
    Removes disk before input after message := by
  have hwithout := responses_append hbefore disk .empty after
  -- The inputs after this one find the session that they would find without it.
  have hwith : responses disk .empty (before ++ input :: after) =
      responses disk .empty before ++ ⟨message, sessionAt disk .empty before, true⟩ ::
        responses disk (sessionAt disk .empty before) after := by
    rw [responses_append hbefore, responses_cons, h.leaves_eq_false, h.respond_eq]
    rfl
  have hany : (before ++ input :: after).any Input.leaves =
      (before ++ after).any Input.leaves := by
    simp [h.leaves_eq_false]
  refine ⟨⟨_, _, prompted (responses disk (sessionAt disk .empty before) after) ++
    (if (before ++ after).any Input.leaves then "" else prompt) ++ farewell,
    length_responses_of_forall hbefore disk .empty, hwith, hwithout, ?_, ?_⟩, ?_⟩
  · rw [transcript, shown_converse, hwith, hany, prompted_append, prompted_cons]
    simp only [String.append_assoc]
  · rw [transcript, shown_converse, hwithout, prompted_append]
    simp only [String.append_assoc]
  · -- The first input that ends the dialogue, if there is one, is among those after this one.
    have hgoesOn : ∀ earlier ∈ before, (!earlier.leaves) = true := by simpa using hbefore
    simp only [transcript, unread_converse]
    rw [List.dropWhile_append_of_pos hgoesOn, List.dropWhile_append_of_pos hgoesOn,
      List.dropWhile_cons_of_pos (by simp [h.leaves_eq_false])]

/-- Every dialogue asks for its inputs up to the first that ends it, and removing a blank line, an
    interruption or a line that fails removes its prompt and its message and changes nothing
    else. -/
theorem isolates (disk : Disk) (inputs : List Input) : Isolates disk inputs where
  unread_eq := unread_converse disk .empty inputs
  length_responses := length_responses disk .empty inputs
  shown_eq := by rw [transcript, shown_converse]
  removes before input after message _ hbefore hfruitless := hfruitless.removes hbefore after
  ne_blank text _ hline session := by
    rcases step_trimmed_cases hline disk session with ⟨fault, hstep, hfault, -⟩ | ⟨after, hstep⟩
    · rw [hstep]
      exact fun h => hfault (Except.error.inj h)
    · rw [hstep]
      exact nofun

/-- Inputs around a line that fails, as there is no state 9: a blank line, an interruption, and a
    line after which there is one that is not asked for. -/
def badLines : List Input :=
  [.line "new a 2", .line "connect a 0 9 x", .line "\t ", .interruption, .line " QUIT now",
    .line "list"]

theorem isolates_badLines :
    Removes (fun _ => .error .missing) [.line "new a 2"] (.line "connect a 0 9 x")
      [.line "\t ", .interruption, .line " QUIT now", .line "list"] "Error: Invalid state: 9\n" ∧
    (transcript (fun _ => .error .missing) badLines).unread = 1 := by
  have hisolates := isolates (fun _ => .error .missing) badLines
  have hstays : ∀ earlier ∈ [Input.line "new a 2"], earlier.leaves = false := by
    decide
  have hline : ¬ ∀ c ∈ "connect a 0 9 x".toList, Text.isBlank c = true := by
    intro h
    exact absurd (h 'c' (by simp)) (by decide)
  have hfails : (step (fun _ => .error .missing)
      (sessionAt (fun _ => .error .missing) .empty [.line "new a 2"])
      (trimmed "connect a 0 9 x")).outcome = .error (.missingState "9") := rfl
  refine ⟨hisolates.removes _ _ _ _ rfl hstays (.failed hline hfails), ?_⟩
  rw [hisolates.unread_eq]
  decide

end Console

end FiniteState
