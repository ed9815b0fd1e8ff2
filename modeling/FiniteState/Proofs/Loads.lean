import FiniteState.Description.Disk
import FiniteState.Proofs.Sections
import FiniteState.Proofs.Warnings

/-!
# Loading Section by Section

What the sections of a file come to. Each part of the content provides one thing under its name: an
automaton, a matcher, a warning or nothing. The parts are taken in order, and what one of them
provides does not depend on the others, so another body for one part changes nothing but what its
own name stands for and what it warns about itself.

Names may come more than once, and one name may stand for an automaton and for a matcher. A part
that fails leaves what its name stood for, since all it adds is a warning.

## Main definitions

* `Loaded.Provision`: What a part provides.
* `Loaded.Provides`: What becomes of the text of a part.
* `Loaded.take`, `Loaded.takeAll`: Something more is provided under a name.
* `Loaded.Sectioned`: What a content with sections comes to.
* `Loaded.AlikeBut`: What is loaded is the same under all names but one.
* `Description.Replaces`: One part of a content is given another body.

## Theorems

* `Loaded.addSection_of_provides`: The loader does with a section what its part provides.
* `Loaded.foldl_addSection`: The loader takes what the parts provide in order.
* `Loaded.oneLine_of_provides`: Every warning is on one line.
* `Loaded.alikeBut_takeAll`: Another body for one part changes nothing about other names.
* `Description.Replaces.divided`: The content is still divided in the same way.
* `Disk.load_sections`: A file with sections is loaded section by section.
-/

namespace FiniteState

namespace Description

/-- A content that is a pattern declares one. -/
theorem exists_patternOf {content : List Char} (h : isPattern content = true) :
    ∃ pattern, patternOf content = .ok pattern := by
  unfold isPattern at h
  unfold patternOf
  cases hlines : significantLines content with
  | nil =>
    rw [hlines] at h
    exact nomatch h
  | cons line rest =>
    rw [hlines] at h
    rcases Option.isSome_iff_exists.1 h with ⟨pattern, hpattern⟩
    exact ⟨pattern, by rw [List.findSome?_cons, hpattern]⟩

/-- A pattern is not blank. -/
theorem trim_ne_nil_of_isPattern {content : List Char} (h : isPattern content = true) :
    Text.trim content ≠ [] := by
  intro hnil
  rw [← isPattern_trim, hnil] at h
  exact nomatch h

end Description

namespace Loaded

open Description

/-- What a part of a content provides under its name. -/
inductive Provision
  | nothing
  | automaton (A : Automaton)
  | regex (m : Matcher)
  | warning (text : String)

/-- What becomes of a part, according to the text below its header: nothing if that is blank, a
    matcher if it declares a pattern, and else an automaton, with a warning in place of what cannot
    be made. -/
inductive Provides (part : Part) : Provision → Prop
  | blank (h : ∀ c ∈ part.text, Text.isBlank c = true) : Provides part .nothing
  | regex {pattern : List Char} {m : Matcher} (hdetected : isPattern part.text = true)
      (hpattern : patternOf part.text = .ok pattern) (h : Matcher.ofPattern pattern = .ok m) :
      Provides part (.regex m)
  | badRegex {pattern : List Char} {fault : Pattern.Fault} (hdetected : isPattern part.text = true)
      (hpattern : patternOf part.text = .ok pattern)
      (h : Matcher.ofPattern pattern = .error fault) :
      Provides part (.warning ("Warning: Failed to load regex '" ++ String.ofList part.name ++ "': "
        ++ fault.message))
  | automaton {described : Description} (hmore : ¬ ∀ c ∈ part.text, Text.isBlank c = true)
      (hother : isPattern part.text = false) (h : read part.text = .ok described) :
      Provides part (.automaton described.automaton)
  | badAutomaton {fault : Fault} (hmore : ¬ ∀ c ∈ part.text, Text.isBlank c = true)
      (hother : isPattern part.text = false) (h : read part.text = .error fault) :
      Provides part (.warning ("Warning: Failed to load automaton '" ++ String.ofList part.name ++
        "': " ++ fault.message))

/-- Something more is provided under a name. -/
def take (loaded : Loaded) (name : String) : Provision → Loaded
  | .nothing => loaded
  | .automaton A => { loaded with automata := loaded.automata.insert name A }
  | .regex m => { loaded with regexes := loaded.regexes.insert name m }
  | .warning text => { loaded with warnings := loaded.warnings ++ [text] }

/-- What parts provide is taken in order, on top of what is loaded already. -/
def takeAll (loaded : Loaded) (parts : List Part) (items : List Provision) : Loaded :=
  (parts.zip items).foldl (fun loaded entry => loaded.take (String.ofList entry.1.name) entry.2)
    loaded

/-- The warning that is provided, if it is one. -/
def Provision.warning? : Provision → Option String
  | .warning text => some text
  | _ => none

variable {loaded loaded' : Loaded} {part : Part} {parts : List Part} {item item' : Provision}
  {items : List Provision}

/-- Every part provides something, be it nothing or a warning. -/
theorem exists_provides (part : Part) : ∃ item, Provides part item := by
  by_cases hblank : ∀ c ∈ part.text, Text.isBlank c = true
  · exact ⟨_, .blank hblank⟩
  -- What is not blank is one of the two kinds, and it is read or it is not.
  · cases hdetected : isPattern part.text with
    | true =>
      rcases exists_patternOf hdetected with ⟨pattern, hpattern⟩
      cases h : Matcher.ofPattern pattern with
      | ok m => exact ⟨_, .regex hdetected hpattern h⟩
      | error fault => exact ⟨_, .badRegex hdetected hpattern h⟩
    | false =>
      cases h : read part.text with
      | ok described => exact ⟨_, .automaton hblank hdetected h⟩
      | error fault => exact ⟨_, .badAutomaton hblank hdetected h⟩

/-- No part provides two things. -/
theorem provides_unique (h : Provides part item) (h' : Provides part item') : item = item' := by
  -- Only a blank text that is a pattern would be of two kinds.
  have hpattern : isPattern part.text = true → ¬ ∀ c ∈ part.text, Text.isBlank c = true :=
    fun hdetected => mt Text.trim_eq_nil_iff.2 (trim_ne_nil_of_isPattern hdetected)
  cases h <;> cases h' <;> simp_all

theorem exists_forall₂_provides (parts : List Part) :
    ∃ items, List.Forall₂ Provides parts items := by
  induction parts with
  | nil => exact ⟨[], .nil⟩
  | cons part parts ih =>
    rcases ih with ⟨items, hitems⟩
    rcases exists_provides part with ⟨item, hitem⟩
    exact ⟨item :: items, .cons hitem hitems⟩

theorem forall₂_provides_unique {items' : List Provision} (h : List.Forall₂ Provides parts items)
    (h' : List.Forall₂ Provides parts items') : items = items' := by
  induction h generalizing items' with
  | nil => cases h' with
    | nil => rfl
  | cons hitem _ ih =>
    cases h' with
    | cons hitem' hitems' => rw [provides_unique hitem hitem', ih hitems']

theorem matcherOf_trim {text pattern : List Char} (h : patternOf text = .ok pattern) :
    matcherOf (Text.trim text) = (Matcher.ofPattern pattern).mapError .regex := by
  rw [matcherOf, patternOf_trim, h]
  rfl

/-- A section whose body is a pattern gives its name a matcher. -/
theorem addSection_of_isPattern (hdetected : isPattern part.text = true) (loaded : Loaded) :
    loaded.addSection part.toSection = loaded.addRegex (String.ofList part.name)
      ("Warning: Failed to load regex '" ++ String.ofList part.name ++ "'")
      (Text.trim part.text) := by
  have hmore : ¬ (Text.trim part.text).isEmpty = true :=
    mt List.isEmpty_iff.1 (trim_ne_nil_of_isPattern hdetected)
  unfold addSection addSectionBy Part.toSection
  dsimp only
  rw [if_neg hmore, isPattern_trim, if_pos hdetected]
  rfl

/-- A section whose body is something else gives its name an automaton. -/
theorem addSection_of_not_isPattern (hmore : ¬ ∀ c ∈ part.text, Text.isBlank c = true)
    (hother : isPattern part.text = false) (loaded : Loaded) :
    loaded.addSection part.toSection =
      loaded.addAutomaton (String.ofList part.name) (Text.trim part.text) := by
  have hmore' : ¬ (Text.trim part.text).isEmpty = true :=
    mt List.isEmpty_iff.1 (mt Text.trim_eq_nil_iff.1 hmore)
  have hother' : ¬ isPattern part.text = true := Bool.eq_false_iff.1 hother
  unfold addSection addSectionBy Part.toSection
  dsimp only
  rw [if_neg hmore', isPattern_trim, if_neg hother']
  rfl

/-- The loader does with a section what its part provides. -/
theorem addSection_of_provides (h : Provides part item) (loaded : Loaded) :
    loaded.addSection part.toSection = loaded.take (String.ofList part.name) item := by
  cases h with
  | blank h =>
    unfold addSection addSectionBy Part.toSection
    dsimp only
    rw [if_pos (List.isEmpty_iff.2 (Text.trim_eq_nil_iff.2 h)), take]
  | regex hdetected hpattern h =>
    rw [addSection_of_isPattern hdetected, addRegex, matcherOf_trim hpattern, h]
    rfl
  -- The wording of a warning is put together in another order, which comes to the same text.
  | badRegex hdetected hpattern h =>
    rw [addSection_of_isPattern hdetected, addRegex, matcherOf_trim hpattern, h]
    simp only [Except.mapError, take, PatternFault.message, String.append_assoc]
    rfl
  | automaton hmore hother h =>
    rw [addSection_of_not_isPattern hmore hother, addAutomaton, read_trim, h]
    rfl
  | badAutomaton hmore hother h =>
    rw [addSection_of_not_isPattern hmore hother, addAutomaton, read_trim, h]
    simp only [addOutcome, take, String.append_assoc]
    rfl

/-- The loader takes what the parts provide in order. -/
theorem foldl_addSection (h : List.Forall₂ Provides parts items) (loaded : Loaded) :
    (parts.map Part.toSection).foldl addSection loaded = loaded.takeAll parts items := by
  induction h generalizing loaded with
  | nil => rfl
  | cons hitem _ ih =>
    rw [List.map_cons, List.foldl_cons, addSection_of_provides hitem, ih]
    rfl

/-- A content with a header is loaded section by section, whatever the name of its file is. -/
theorem ofContent_of_divided {content : List Char} {above : List (List Char)}
    (h : Divided (Text.lines content) above parts) (hne : parts ≠ [])
    (hitems : List.Forall₂ Provides parts items) (path : List Char) :
    ofContent path content = nothing.takeAll parts items := by
  unfold ofContent ofContentBy
  rw [h.sections_eq]
  split
  next hnil => exact absurd (List.map_eq_nil_iff.1 hnil) hne
  next => exact foldl_addSection hitems nothing

/-! ### Warnings -/

theorem not_mem_of_heads {line name : List Char} (h : Heads line name) : '\n' ∉ name := by
  cases h with
  | @mk first rest blanks hfirst hrest hkeyword hblanks =>
    have hletter := isAsciiLetter_eq_true_iff.2 hfirst
    have hword : ∀ c ∈ first :: rest, Text.isWordChar c = true :=
      List.forall_mem_cons.2 ⟨isWordChar_of_isAsciiLetter hletter, hrest⟩
    exact fun hmem => absurd (hword _ hmem) (by decide +kernel)

/-- Every warning is on one line. -/
theorem oneLine_of_provides {text : String} (hname : '\n' ∉ part.name)
    (h : Provides part (.warning text)) : Text.OneLine text := by
  have hwarning : ∀ {front message : String}, '\n' ∉ front.toList → Text.OneLine message →
      Text.OneLine (front ++ String.ofList part.name ++ "': " ++ message) := by
    intro front message hfront hmessage
    unfold Text.OneLine at hmessage ⊢
    simp [hfront, hname, hmessage]
  cases h with
  | badRegex hdetected hpattern h =>
    exact hwarning (by simp) (Pattern.oneLine_of_ofPattern (not_mem_of_patternOf hpattern) h)
  | badAutomaton hmore hother h =>
    exact hwarning (by simp) (oneLine_of_read h).message

theorem warnings_take (loaded : Loaded) (name : String) (item : Provision) :
    (loaded.take name item).warnings = loaded.warnings ++ item.warning?.toList := by
  cases item <;> simp [take, Provision.warning?]

/-- The warnings are those that the parts provide. -/
theorem warnings_takeAll (h : List.Forall₂ Provides parts items) (loaded : Loaded) :
    (loaded.takeAll parts items).warnings =
      loaded.warnings ++ items.filterMap Provision.warning? := by
  induction h generalizing loaded with
  | nil => exact (List.append_nil _).symm
  | @cons part item parts items hitem _ ih =>
    have hfirst := ih (loaded.take (String.ofList part.name) item)
    rw [warnings_take, List.append_assoc] at hfirst
    have hcons : (item :: items).filterMap Provision.warning? =
        item.warning?.toList ++ items.filterMap Provision.warning? := by
      rw [List.filterMap_cons]
      cases item.warning? <;> rfl
    rw [hcons]
    exact hfirst

/-- A content with sections comes to what is loaded: it is cut at its headers and nowhere else,
    every part provides one thing, and these are taken in order. -/
structure Sectioned (content : List Char) (parts : List Part) (items : List Provision)
    (loaded : Loaded) : Prop where
  divided : ∃ above, Divided (Text.lines content) above parts
  parts_unique : ∀ above parts', Divided (Text.lines content) above parts' → parts' = parts
  provides : List.Forall₂ Provides parts items
  items_unique : ∀ items', List.Forall₂ Provides parts items' → items' = items
  loaded_eq : loaded = nothing.takeAll parts items
  warnings_eq : loaded.warnings = items.filterMap Provision.warning?
  oneLine : ∀ warning ∈ loaded.warnings, Text.OneLine warning

theorem exists_provides_of_mem (h : List.Forall₂ Provides parts items) (hitem : item ∈ items) :
    ∃ part ∈ parts, Provides part item := by
  rcases List.mem_iff_getElem.1 hitem with ⟨i, hi, rfl⟩
  have hi' : i < parts.length := h.length_eq ▸ hi
  exact ⟨parts[i], List.getElem_mem hi', h.get hi' hi⟩

/-- A content that has been divided comes to what its parts provide. -/
theorem sectioned_takeAll {content : List Char} {above : List (List Char)}
    (h : Divided (Text.lines content) above parts) (hitems : List.Forall₂ Provides parts items) :
    Sectioned content parts items (nothing.takeAll parts items) := by
  have hunique : ∀ above' parts', Divided (Text.lines content) above' parts' → parts' = parts := by
    intro above' parts' h'
    have hsame := (divided_iff.1 h').symm.trans (divided_iff.1 h)
    exact (Prod.mk.inj hsame).2
  have hwarnings : (nothing.takeAll parts items).warnings =
      items.filterMap Provision.warning? := warnings_takeAll hitems nothing
  have honeLine : ∀ warning ∈ (nothing.takeAll parts items).warnings, Text.OneLine warning := by
    intro warning hwarning
    rw [hwarnings, List.mem_filterMap] at hwarning
    rcases hwarning with ⟨item, hitem, hwarns⟩
    rcases exists_provides_of_mem hitems hitem with ⟨part, hpart, hprovides⟩
    -- The name in a warning is the name in a header, and the message is that of a reader.
    cases item with
    | nothing | automaton | regex => exact nomatch hwarns
    | warning text =>
      obtain rfl := Option.some.inj hwarns
      exact oneLine_of_provides (not_mem_of_heads (h.header part hpart)) hprovides
  exact ⟨⟨above, h⟩, hunique, hitems, fun _ h' => forall₂_provides_unique h' hitems, rfl, hwarnings,
    honeLine⟩

/-- What the parts up to one, that part and the parts after it provide stand in the same order. -/
theorem exists_items_eq_append {before after : List Part}
    (h : List.Forall₂ Provides (before ++ part :: after) items) :
    ∃ front item back, items = front ++ item :: back ∧ List.Forall₂ Provides before front ∧
      List.Forall₂ Provides after back := by
  induction before generalizing items with
  | nil =>
    rcases List.forall₂_cons_left_iff.1 h with ⟨item, back, -, hback, rfl⟩
    exact ⟨[], item, back, rfl, .nil, hback⟩
  | cons first before ih =>
    rcases List.forall₂_cons_left_iff.1 h with ⟨firstItem, rest, hfirst, hrest, rfl⟩
    rcases ih hrest with ⟨front, item, back, rfl, hfront, hback⟩
    exact ⟨firstItem :: front, item, back, rfl, .cons hfirst hfront, hback⟩

/-! ### Another body for one part -/

/-- What is loaded stands for the same under all names but one. -/
structure AlikeBut (name : String) (loaded loaded' : Loaded) : Prop where
  automata : loaded.automata.erase name = loaded'.automata.erase name
  regexes : loaded.regexes.erase name = loaded'.regexes.erase name

/-- Names stay alike when the same is provided under a name. -/
theorem AlikeBut.take {name : String} (h : AlikeBut name loaded loaded') (key : String)
    (item : Provision) : AlikeBut name (loaded.take key item) (loaded'.take key item) := by
  cases item with
  | nothing => exact h
  | automaton A =>
    refine ⟨?_, h.regexes⟩
    -- Whether the name is the exempt one or not, both sides are changed in the same way.
    rw [Loaded.take, Loaded.take, Registry.erase_insert, Registry.erase_insert, h.automata]
  | regex m =>
    refine ⟨h.automata, ?_⟩
    rw [Loaded.take, Loaded.take, Registry.erase_insert, Registry.erase_insert, h.regexes]
  | warning text => exact ⟨h.automata, h.regexes⟩

/-- What is provided under a name makes no difference to the others. -/
theorem alikeBut_take (name : String) (item item' : Provision) (loaded : Loaded) :
    AlikeBut name (loaded.take name item) (loaded.take name item') := by
  have hitem : ∀ item, AlikeBut name (loaded.take name item) loaded := by
    intro item
    cases item with
    | nothing | warning => exact ⟨rfl, rfl⟩
    | automaton A => exact ⟨by rw [Loaded.take, Registry.erase_insert, if_pos rfl], rfl⟩
    | regex m => exact ⟨rfl, by rw [Loaded.take, Registry.erase_insert, if_pos rfl]⟩
  exact ⟨(hitem item).automata.trans (hitem item').automata.symm,
    (hitem item).regexes.trans (hitem item').regexes.symm⟩

theorem AlikeBut.takeAll {name : String} (h : AlikeBut name loaded loaded') (parts : List Part)
    (items : List Provision) :
    AlikeBut name (loaded.takeAll parts items) (loaded'.takeAll parts items) := by
  unfold Loaded.takeAll
  induction parts.zip items generalizing loaded loaded' with
  | nil => exact h
  | cons entry entries ih => exact ih (h.take _ entry.2)

theorem takeAll_append {before after : List Part} {front back : List Provision}
    (h : before.length = front.length) (loaded : Loaded) :
    loaded.takeAll (before ++ after) (front ++ back) =
      (loaded.takeAll before front).takeAll after back := by
  rw [takeAll, takeAll, takeAll, List.zip_append h, List.foldl_append]

/-- Another body for one part changes nothing about other names. -/
theorem alikeBut_takeAll {before after : List Part} {front back : List Provision}
    (h : before.length = front.length) (part : Part) (body : List (List Char))
    (item item' : Provision) (loaded : Loaded) :
    AlikeBut (String.ofList part.name)
      (loaded.takeAll (before ++ part :: after) (front ++ item :: back))
      (loaded.takeAll (before ++ { part with body := body } :: after)
        (front ++ item' :: back)) := by
  rw [takeAll_append h, takeAll_append h]
  exact (alikeBut_take (String.ofList part.name) item item' _).takeAll after back

end Loaded

namespace Description

/-- A content comes from another one by giving one of its parts another body. The lines of the new
    body are no headers. -/
inductive Replaces (content : List Char) (before : List Part) (part : Part) (after : List Part) :
    List (List Char) → List Char → Prop
  | mk {above body : List (List Char)}
      (hdivided : Divided (Text.lines content) above (before ++ part :: after))
      (hbody : ∀ line ∈ body, '\n' ∉ line ∧ ∀ name, ¬ Heads line name) :
      Replaces content before part after body (Text.unlines
        (above ++ (before ++ { part with body := body } :: after).flatMap Part.lines))

variable {content content' : List Char} {above body : List (List Char)} {before after : List Part}
  {part : Part}

/-- Lines divided into parts are still so with another body for one of them. -/
theorem Divided.replace {lines : List (List Char)}
    (h : Divided lines above (before ++ part :: after))
    (hbody : ∀ line ∈ body, ∀ name, ¬ Heads line name) :
    Divided (above ++ (before ++ { part with body := body } :: after).flatMap Part.lines) above
      (before ++ { part with body := body } :: after) := by
  have hheader := h.header
  have hbodies := h.body
  simp only [List.forall_mem_append, List.forall_mem_cons] at hheader hbodies
  refine ⟨rfl, h.above, ?_, ?_⟩
  · simp only [List.forall_mem_append, List.forall_mem_cons]
    exact hheader
  · simp only [List.forall_mem_append, List.forall_mem_cons]
    exact ⟨hbodies.1, hbody, hbodies.2.2⟩

/-- No line of such a content has a line feed in it. -/
theorem Divided.lines_replace (h : Divided (Text.lines content) above (before ++ part :: after))
    (hbody : ∀ line ∈ body, '\n' ∉ line) :
    Text.lines (Text.unlines
      (above ++ (before ++ { part with body := body } :: after).flatMap Part.lines)) =
      above ++ (before ++ { part with body := body } :: after).flatMap Part.lines := by
  have hlines : ∀ line ∈ Text.lines content, '\n' ∉ line :=
    fun line hline => Text.not_mem_of_mem_lines hline
  -- All lines but those of the new body are lines of the content.
  rw [h.lines_eq] at hlines
  refine Text.lines_unlines (by simp [Part.lines]) ?_
  simp only [List.flatMap_append, List.flatMap_cons, Part.lines, List.forall_mem_append,
    List.forall_mem_cons] at hlines ⊢
  exact ⟨hlines.1, hlines.2.1, ⟨hlines.2.2.1.1, hbody⟩, hlines.2.2.2⟩

/-- The header stands where it did, and the new body adds no other, so the cuts are the same. -/
theorem Replaces.divided (h : Replaces content before part after body content') :
    ∃ above, Divided (Text.lines content') above
      (before ++ { part with body := body } :: after) := by
  cases h with
  | @mk above _ hdivided hbody =>
    refine ⟨above, ?_⟩
    rw [hdivided.lines_replace fun line hline => (hbody line hline).1]
    exact hdivided.replace fun line hline => (hbody line hline).2

theorem Replaces.split_eq (h : Replaces content before part after body content') :
    (split (Text.lines content)).2 = before ++ part :: after := by
  cases h with
  | mk hdivided => rw [divided_iff.1 hdivided]

end Description

namespace Disk

open Description Loaded

theorem load_eq_of_readText {disk : Disk} {path : String} {content : List Char}
    (h : disk.readText path = .ok content) :
    disk.load path = .ok (Loaded.ofContent path.toList content) := by
  rw [load, h]
  rfl

/-- A file that is divided into parts loads what the parts provide. -/
theorem load_eq_of_divided {disk : Disk} {path : String} {content : List Char}
    {above : List (List Char)} {parts : List Part} {items : List Provision}
    (hread : disk.readText path = .ok content) (h : Divided (Text.lines content) above parts)
    (hne : parts ≠ []) (hitems : List.Forall₂ Provides parts items) :
    disk.load path = .ok (nothing.takeAll parts items) := by
  rw [load_eq_of_readText hread, ofContent_of_divided h hne hitems]

/-- A file with a header in it is loaded section by section, and what stands above its headers makes
    no difference. Another body without headers for one of the sections changes what that section
    provides, and nothing about the other sections and names. -/
theorem load_sections {disk : Disk} {path : String} {content : List Char}
    (hread : disk.readText path = .ok content)
    (hheader : ∃ line ∈ Text.lines content, ∃ name, Heads line name) :
    ∃ parts items loaded, disk.load path = .ok loaded ∧ Sectioned content parts items loaded ∧
      (∀ (disk' : Disk) (path' : String) (content' : List Char) (above' : List (List Char)),
        disk'.readText path' = .ok content' → Divided (Text.lines content') above' parts →
          disk'.load path' = .ok loaded) ∧
      ∀ before part after body content', Replaces content before part after body content' →
        ∀ (disk' : Disk) (path' : String), disk'.readText path' = .ok content' →
          ∃ front item item' back loaded', items = front ++ item :: back ∧
            front.length = before.length ∧ disk'.load path' = .ok loaded' ∧
            Sectioned content' (before ++ { part with body := body } :: after)
              (front ++ item' :: back) loaded' ∧
            AlikeBut (String.ofList part.name) loaded loaded' := by
  have hdivided := divided_split (Text.lines content)
  have hne := hdivided.parts_ne_nil hheader
  rcases exists_forall₂_provides (split (Text.lines content)).2 with ⟨items, hitems⟩
  refine ⟨_, items, _, load_eq_of_divided hread hdivided hne hitems,
    sectioned_takeAll hdivided hitems, ?_, ?_⟩
  · intro disk' path' content' above' hread' h
    exact load_eq_of_divided hread' h hne hitems
  · intro before part after body content' h disk' path' hread'
    -- The parts before and after provide what they provided, so that only one item is another.
    rw [h.split_eq] at hitems ⊢
    rcases exists_items_eq_append hitems with ⟨front, item, back, rfl, hfront, hback⟩
    rcases exists_provides { part with body := body } with ⟨item', hitem'⟩
    have hitems' : List.Forall₂ Provides (before ++ { part with body := body } :: after)
        (front ++ item' :: back) := List.rel_append hfront (.cons hitem' hback)
    rcases h.divided with ⟨above, h'⟩
    exact ⟨front, item, item', back, _, rfl, hfront.length_eq.symm,
      load_eq_of_divided hread' h' (by simp) hitems', sectioned_takeAll h' hitems',
      alikeBut_takeAll hfront.length_eq part body item item' nothing⟩

/-- A disk on which every path leads to a file with an ASCII text. -/
def asciiDisk (content : List Char) : Disk :=
  fun _ => .ok (content.map Char.toNat)

/-- A content with a line above its headers, and with a name that comes twice. The body is bad the
    second time. -/
def notesContent : List Char :=
  "Notes\nA:\nstates: 1\nstart: 0\naccept: 0\n\nB: \t\nregex: a*\nA:\n0 -> ab -> 1\n".toList

/-- The same content with a bad body below the other name. There is a keyword in that body, which
    makes no header. -/
def editedContent : List Char :=
  "Notes\nA:\nstates: 1\nstart: 0\naccept: 0\n\nB: \t\nstates:\nstart: 0\nA:\n0 -> ab -> 1\n".toList

/-- The parts of the first content. -/
def firstPart : Part :=
  ⟨"A:".toList, "A".toList, ["states: 1".toList, "start: 0".toList, "accept: 0".toList, []]⟩

def changedPart : Part :=
  ⟨"B: \t".toList, "B".toList, ["regex: a*".toList]⟩

def badPart : Part :=
  ⟨"A:".toList, "A".toList, ["0 -> ab -> 1".toList, []]⟩

theorem load_sections_notes :
    (asciiDisk notesContent).readText "notes.txt" = .ok notesContent ∧
    Heads "A:".toList "A".toList ∧
    Replaces notesContent [firstPart] changedPart [badPart]
      ["states:".toList, "start: 0".toList] editedContent ∧
    ∃ loaded loaded', (asciiDisk notesContent).load "notes.txt" = .ok loaded ∧
      (asciiDisk editedContent).load "edited.txt" = .ok loaded' ∧ AlikeBut "B" loaded loaded' := by
  have hread : (asciiDisk notesContent).readText "notes.txt" = .ok notesContent := by decide +kernel
  have hread' : (asciiDisk editedContent).readText "edited.txt" = .ok editedContent := by
    decide +kernel
  have hheads : Heads "A:".toList "A".toList := headerName?_eq_some_iff.1 (by decide +kernel)
  have hmem : "A:".toList ∈ Text.lines notesContent := by decide +kernel
  have hsplit : split (Text.lines notesContent) =
      (["Notes".toList], [firstPart] ++ changedPart :: [badPart]) := by decide +kernel
  have hbody : ∀ line ∈ ["states:".toList, "start: 0".toList],
      '\n' ∉ line ∧ ∀ name, ¬ Heads line name := by
    simp only [← headerName?_eq_none_iff]
    decide +kernel
  have hreplaces : Replaces notesContent [firstPart] changedPart [badPart]
      ["states:".toList, "start: 0".toList] editedContent := .mk (divided_iff.2 hsplit) hbody
  rcases load_sections hread ⟨_, hmem, _, hheads⟩ with ⟨parts, items, loaded, hload, -, -, hedit⟩
  rcases hedit _ _ _ _ _ hreplaces _ _ hread' with
    ⟨front, item, item', back, loaded', -, -, hload', -, halike⟩
  exact ⟨hread, hheads, hreplaces, loaded, loaded', hload, hload', halike⟩

end Disk

end FiniteState
