import FiniteState.Console.Session
import FiniteState.Proofs.Expressions

/-!
# Items of Files

What is loaded from a file is made in the store before anything is said about it: first its automata
are built, then its regular expressions. Nothing of it fails, since what has been read from the file
is sound: descriptions make well-formed automata, and a regular expression has been built before.

Every item gets an automaton of its own. Those of the file's automata come before those of its
regular expressions, so that none of the former is one of the latter.

## Main definitions

* `Matcher.Built`: A matcher has the automaton of its pattern.
* `Loaded.Sound`: What holds of the items of all files.
* `Registry.Matches`: Registries with the same names and related values.
* `Session.Adopts`: Items that have been made in a store.

## Theorems

* `Description.wellFormed_of_read`: A description makes a well-formed automaton.
* `Loaded.sound_ofContent`, `Disk.sound_of_load`: What is loaded is sound.
* `Store.exists_mapM`, `Registry.exists_mapM`: Values that are made in a store one after another.
* `Loaded.Sound.exists_adopt`: The items of a file are made in a store, and that does not fail.
-/

namespace FiniteState

namespace Matcher

/-- A matcher has the automaton that is built of its pattern. -/
def Built (m : Matcher) : Prop :=
  build m.pattern = .ok m.automaton

variable {m : Matcher} {pattern : List Char}

theorem built_of_ofPattern (h : ofPattern pattern = .ok m) : m.Built ∧ m.pattern = pattern := by
  rcases bind_eq_ok_iff.1 h with ⟨A, hA, hm⟩
  cases hm
  exact ⟨hA, rfl⟩

theorem Built.ofPattern_eq (h : m.Built) : ofPattern m.pattern = .ok m :=
  bind_eq_ok_iff.2 ⟨m.automaton, h, rfl⟩

end Matcher

theorem Description.Inventory.wellFormed_of_assemble {limit : Nat} {inventory : Inventory}
    {description : Description} (h : inventory.assemble limit = .ok description) :
    description.automaton.WellFormed := by
  rcases bind_eq_ok_iff.1 h with ⟨names, -, hrelation⟩
  rcases bind_eq_ok_iff.1 hrelation with ⟨A, hA, hdescription⟩
  cases hdescription
  exact Automaton.wellFormed_ofRelation (mapError_eq_ok_iff.1 hA)

theorem Description.wellFormed_of_read {content : List Char} {description : Description}
    (h : read content = .ok description) : description.automaton.WellFormed := by
  rcases bind_eq_ok_iff.1 h with ⟨statements, -, hassemble⟩
  exact Inventory.wellFormed_of_assemble hassemble

namespace Loaded

/-- Items of a file can be made in a store: automata are well formed, matchers have the automata of
    their patterns, and no name comes twice. -/
structure Sound (loaded : Loaded) : Prop where
  automata : loaded.automata.Every Automaton.WellFormed
  regexes : loaded.regexes.Every Matcher.Built
  nodup_names : loaded.regexes.names.Nodup

variable {loaded : Loaded}

theorem sound_nothing : nothing.Sound :=
  ⟨Registry.every_empty, Registry.every_empty, List.nodup_nil⟩

theorem built_of_matcherOf {content : List Char} {m : Matcher} (h : matcherOf content = .ok m) :
    m.Built := by
  rcases bind_eq_ok_iff.1 h with ⟨pattern, -, hm⟩
  exact (Matcher.built_of_ofPattern (mapError_eq_ok_iff.1 hm)).1

theorem Sound.addOutcome {outcome : Except Description.Fault Description} (h : loaded.Sound)
    (name : String) (hmade : ∀ description, outcome = .ok description →
      description.automaton.WellFormed) : (loaded.addOutcome name outcome).Sound := by
  cases outcome with
  | ok description =>
    exact ⟨h.automata.insert (hmade description rfl) name, h.regexes, h.nodup_names⟩
  | error fault => exact ⟨h.automata, h.regexes, h.nodup_names⟩

theorem Sound.addRegex (h : loaded.Sound) (name warning : String) (content : List Char) :
    (loaded.addRegex name warning content).Sound := by
  unfold Loaded.addRegex
  cases hmatcher : matcherOf content with
  | ok m =>
    exact ⟨h.automata, h.regexes.insert (built_of_matcherOf hmatcher) name,
      Registry.nodup_names_insert h.nodup_names name m⟩
  | error fault => exact ⟨h.automata, h.regexes, h.nodup_names⟩

theorem Sound.foldl {α : Type} {add : Loaded → α → Loaded}
    (hadd : ∀ loaded : Loaded, loaded.Sound → ∀ item, (add loaded item).Sound)
    (h : loaded.Sound) (items : List α) : (items.foldl add loaded).Sound := by
  induction items generalizing loaded with
  | nil => exact h
  | cons item items ih => exact ih (hadd loaded h item)

section Reader

variable {reader : List Char → Except Description.Fault Description}
  (hreader : ∀ content description, reader content = .ok description →
    description.automaton.WellFormed)

include hreader

theorem Sound.addSectionBy (h : loaded.Sound) (part : Description.Section) :
    (loaded.addSectionBy reader part).Sound := by
  unfold Loaded.addSectionBy
  dsimp only
  split_ifs
  · exact h
  · exact h.addRegex _ _ part.body
  · exact h.addOutcome _ (hreader part.body)

/-- The items of every content are sound if a reader makes well-formed automata. -/
theorem sound_ofContentBy (path content : List Char) :
    (ofContentBy reader path content).Sound := by
  unfold ofContentBy
  split
  · split_ifs
    · exact sound_nothing.addRegex _ _ content
    · exact sound_nothing.foldl (fun _ h item => h.addOutcome _ (hreader item.1)) _
  · exact sound_nothing.foldl (fun _ h part => h.addSectionBy hreader part) _

end Reader

/-- The items of every content are sound. -/
theorem sound_ofContent (path content : List Char) : (ofContent path content).Sound :=
  sound_ofContentBy (fun _ _ => Description.wellFormed_of_read) path content

end Loaded

theorem Disk.sound_of_load {disk : Disk} {path : String} {loaded : Loaded}
    (h : disk.load path = .ok loaded) : loaded.Sound := by
  rcases bind_eq_ok_iff.1 h with ⟨content, -, hloaded⟩
  cases hloaded
  exact Loaded.sound_ofContent path.toList content

/-! ### Making one thing after another -/

namespace Store

variable {α β ε : Type} {base store : Store}

/-- If something can be made for every member of a list, whatever has come into the store since, and
    what has been made survives, then things can be made for all members one after another. -/
theorem exists_mapM {items : List β} {f : β → EStateM ε Store α} {goes : α → Store → β → Prop}
    (hkeep : ∀ value item store later, goes value store item → store.Keeps later →
      goes value later item)
    (hf : ∀ item ∈ items, ∀ store, base.Keeps store → ∃ value after,
      f item store = .ok value after ∧ store.Keeps after ∧ goes value after item)
    (hbase : base.Keeps store) :
    ∃ values after, items.mapM f store = .ok values after ∧ store.Keeps after ∧
      List.Forall₂ (fun value item => goes value after item) values items := by
  induction items generalizing store with
  | nil => exact ⟨[], store, rfl, .refl store, .nil⟩
  | cons item items ih =>
    rcases List.forall_mem_cons.1 hf with ⟨hitem, hitems⟩
    rcases hitem store hbase with ⟨value, after, hok, hafter, hgoes⟩
    rcases ih hitems (hbase.trans hafter) with ⟨values, later, hall, hlater, hrest⟩
    refine ⟨value :: values, later, ?_, hafter.trans hlater, .cons ?_ hrest⟩
    · rw [List.mapM_cons, bind_apply_of_ok hok, bind_apply_of_ok hall]
      rfl
    -- What was made first is still there when the others have been made.
    · exact hkeep _ _ _ _ hgoes hlater

end Store

/-! ### Registries with the same names -/

namespace Registry

variable {α β ε : Type} {related : α → β → Prop} {registry : Registry α} {other : Registry β}

/-- Two registries have the same names in the same order, and what is under them is related. -/
def Matches (related : α → β → Prop) (registry : Registry α) (other : Registry β) : Prop :=
  List.Forall₂ (fun entry item => entry.1 = item.1 ∧ related entry.2 item.2)
    registry.entries other.entries

theorem Matches.imp {wider : α → β → Prop} (h : registry.Matches related other)
    (hwider : ∀ value item, related value item → wider value item) :
    registry.Matches wider other :=
  List.Forall₂.imp (fun _ _ hentry => ⟨hentry.1, hwider _ _ hentry.2⟩) h

theorem Matches.names_eq (h : registry.Matches related other) : registry.names = other.names := by
  have hsame : List.Forall₂ (fun entry item => entry.1 = item.1) registry.entries other.entries :=
    List.Forall₂.imp (fun _ _ hentry => hentry.1) h
  rwa [names, names, ← List.forall₂_eq_eq_eq, List.forall₂_map_left_iff,
    List.forall₂_map_right_iff]

/-- What is under a name in one of them is related to what is under it in the other. -/
theorem Matches.get? (h : registry.Matches related other) (name : String) :
    Option.Rel related (registry.get? name) (other.get? name) := by
  unfold Registry.get?
  unfold Matches at h
  generalize registry.entries = entries at h ⊢
  generalize other.entries = items at h ⊢
  induction h with
  | nil => exact .none
  | @cons entry item entries items hfirst _ ih =>
    obtain ⟨key, value⟩ := entry
    obtain ⟨key', value'⟩ := item
    obtain rfl : key = key' := hfirst.1
    rw [lookup_cons, lookup_cons]
    -- The names agree, so a name is found in both registries or passed over in both.
    split
    · exact .some hfirst.2
    · exact ih

/-- Every value in one of them is related to some value in the other. -/
theorem Matches.every {holds : β → Prop} (h : registry.Matches related other)
    (hother : other.Every holds) : registry.Every fun value => ∃ item, holds item ∧
      related value item := by
  unfold Matches at h
  unfold Every at hother ⊢
  generalize registry.entries = entries at h ⊢
  generalize other.entries = items at h hother
  induction h with
  | nil => exact List.forall_mem_nil _
  | @cons entry item entries items hfirst _ ih =>
    rcases List.forall_mem_cons.1 hother with ⟨hitem, hitems⟩
    exact List.forall_mem_cons.2 ⟨⟨item.2, hitem, hfirst.2⟩, ih hitems⟩

theorem Matches.insert (h : registry.Matches related other) {value : α} {item : β}
    (hvalue : related value item) (name : String) :
    (registry.insert name value).Matches related (other.insert name item) := by
  unfold Matches at h ⊢
  unfold Registry.insert
  dsimp only
  generalize registry.entries = entries at h ⊢
  generalize other.entries = items at h ⊢
  induction h with
  | nil => exact .cons ⟨rfl, hvalue⟩ .nil
  | @cons first second entries items hfirst hrest ih =>
    rw [insertEntry, insertEntry, hfirst.1]
    -- Giving a name again replaces its value at the same place in both.
    split_ifs
    · exact .cons ⟨rfl, hvalue⟩ hrest
    · exact .cons hfirst ih

/-- If something can be made of every value, whatever has come into the store since, and what has
    been made survives, then things can be made of all values one after another. -/
theorem exists_mapM {base : Store} {f : β → EStateM ε Store α} {goes : Store → α → β → Prop}
    (hkeep : ∀ value item store later, goes store value item → store.Keeps later →
      goes later value item)
    (hf : other.Every fun item => ∀ store, base.Keeps store → ∃ value after,
      f item store = .ok value after ∧ store.Keeps after ∧ goes after value item) :
    ∃ made after, other.mapM f base = .ok made after ∧ base.Keeps after ∧
      made.Matches (goes after) other := by
  have hentry : ∀ item ∈ other.entries, ∀ store, base.Keeps store → ∃ entry after,
      (do return (item.1, ← f item.2) : EStateM ε Store (String × α)) store = .ok entry after ∧
        store.Keeps after ∧ (entry.1 = item.1 ∧ goes after entry.2 item.2) := by
    intro item hitem store hstore
    rcases hf item hitem store hstore with ⟨value, after, hok, hafter, hgoes⟩
    refine ⟨(item.1, value), after, ?_, hafter, rfl, hgoes⟩
    rw [bind_apply_of_ok hok]
    rfl
  rcases Store.exists_mapM (fun _ _ _ _ h hkeeps => ⟨h.1, hkeep _ _ _ _ h.2 hkeeps⟩) hentry
    (.refl base) with ⟨entries, after, hok, hafter, hall⟩
  exact ⟨⟨entries⟩, after, by rw [mapM, bind_apply_of_ok hok]; rfl, hafter, hall⟩

end Registry

/-! ### Making the items -/

namespace Session

/-- Items of a file have been made in a store, where `base` is the store before. Each is under its
    name, none is at an address from before, and no automaton is that of a regular expression. -/
structure Adopts (loaded : Loaded) (base store : Store) (adopted : Adopted) : Prop where
  keeps : base.Keeps store
  addresses : adopted.addresses.Matches (fun a A => a.Holds store A) loaded.automata
  expressions : adopted.expressions.Matches (fun e m => e.Holds store m) loaded.regexes
  since : adopted.addresses.Every (Address.Since base)
  separate : adopted.expressions.Every fun e => e.automaton.Since base ∧
    adopted.addresses.Every (· ≠ e.automaton)

namespace Adopts

variable {loaded : Loaded} {base store : Store} {adopted : Adopted}

/-- Every automaton is in the store. -/
theorem every_address (h : Adopts loaded base store adopted) (hloaded : loaded.Sound) :
    adopted.addresses.Every fun a => a.index < store.size :=
  (h.addresses.every hloaded.automata).imp fun _ hmade => hmade.choose_spec.2.lt

/-- Every regular expression is in the store, with the automaton of its pattern. -/
theorem every_expression (h : Adopts loaded base store adopted) (hloaded : loaded.Sound) :
    adopted.expressions.Every fun e => ∃ m : Matcher, m.Built ∧ e.Holds store m :=
  h.expressions.every hloaded.regexes

/-- A name has the pattern that it has in the file. -/
theorem map_get? (h : Adopts loaded base store adopted) (name : String) :
    (adopted.expressions.get? name).map Expression.pattern =
      (loaded.regexes.get? name).map Matcher.pattern := by
  have hrel := h.expressions.get? name
  generalize adopted.expressions.get? name = found at hrel ⊢
  generalize loaded.regexes.get? name = wanted at hrel ⊢
  cases hrel with
  | none => rfl
  | some hm => exact congrArg some hm.pattern_eq

end Adopts

end Session

section Adopt

variable {loaded : Loaded}

theorem Loaded.Sound.exists_adoptAutomata (h : loaded.Sound) (base : Store) :
    ∃ addresses after, (loaded.automata.mapM fun A =>
        EStateM.adaptExcept .automaton (Store.rebuild A) : Pattern.Action _) base =
          .ok addresses after ∧ base.Keeps after ∧
      addresses.Matches (fun a A => a.Holds after A ∧ a.Since base) loaded.automata := by
  refine Registry.exists_mapM (fun _ _ _ _ h hkeeps => ⟨h.1.keep hkeeps, h.2⟩)
    fun item hitem store hstore => ?_
  have htracks := ((Store.tracks_rebuild (h.automata item hitem) store).adapt
    Pattern.Fault.automaton).maintaining ((Store.maintains_rebuild item.2).adapt _) (.refl store)
  rcases htracks.exists_ok with ⟨a, after, hok, ha, hafter, hsince⟩
  exact ⟨a, after, hok, hafter, ha, hstore.size_le.trans hsince⟩

theorem Loaded.Sound.exists_adoptExpressions (h : loaded.Sound) (base : Store) :
    ∃ expressions after, (loaded.regexes.mapM fun m => Expression.ofPattern m.pattern) base =
        .ok expressions after ∧ base.Keeps after ∧
      expressions.Matches (fun e m => e.Holds after m ∧ e.automaton.Since base)
        loaded.regexes := by
  refine Registry.exists_mapM (fun _ _ _ _ h hkeeps => ⟨h.1.keep hkeeps, h.2⟩)
    fun item hitem store hstore => ?_
  have htracks := (Expression.tracks_ofPattern item.2.pattern store).maintaining
    (Expression.maintains_ofPattern item.2.pattern) (.refl store)
  rw [(h.regexes item hitem).ofPattern_eq] at htracks
  rcases htracks.exists_ok with ⟨e, after, hok, he, hafter, hsince⟩
  exact ⟨e, after, hok, hafter, he, hstore.size_le.trans hsince⟩

/-- The items of a file are made in a store, and that does not fail. -/
theorem Loaded.Sound.exists_adopt (h : loaded.Sound) (base : Store) :
    ∃ adopted store, Session.adopt loaded base = .ok adopted store ∧
      Session.Adopts loaded base store adopted := by
  rcases h.exists_adoptAutomata base with ⟨addresses, middle, hautomata, hmiddle, haddresses⟩
  rcases h.exists_adoptExpressions middle with ⟨expressions, store, hregexes, hstore, hexpressions⟩
  have hearly : addresses.Every fun a => a.Since base ∧ a.index < middle.size := by
    refine (haddresses.every h.automata).imp fun a ha => ?_
    rcases ha with ⟨A, -, hholds, hsince⟩
    exact ⟨hsince, hholds.lt⟩
  have hlate : expressions.Every fun e => e.automaton.Since middle := by
    refine (hexpressions.every h.regexes).imp fun e he => ?_
    rcases he with ⟨m, -, -, hsince⟩
    exact hsince
  refine ⟨⟨addresses, expressions⟩, store, ?_, hmiddle.trans hstore,
    haddresses.imp fun _ _ ha => ha.1.keep hstore, hexpressions.imp fun _ _ he => he.1,
    hearly.imp fun _ ha => ha.1, ?_⟩
  · rw [Session.adopt, bind_apply_of_ok hautomata, bind_apply_of_ok hregexes]
    rfl
  -- The automata have come before the regular expressions, and both after all that was there.
  · refine hlate.imp fun e he => ⟨hmiddle.size_le.trans he, hearly.imp fun a ha heq => ?_⟩
    rw [← heq] at he
    exact absurd he (Nat.not_le.2 ha.2)

end Adopt

end FiniteState
