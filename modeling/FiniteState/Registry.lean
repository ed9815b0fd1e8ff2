/-!
# Registries

Values under names. The names keep the order in which they were first given; giving a name again
replaces its value and leaves it in its place.

## Main definitions

* `Registry`: Values under names, in the order of the names.
* `Registry.get?`, `Registry.insert`, `Registry.erase`: Looking up, giving and taking away.
* `Registry.merge`: Giving all names of another registry, in their order.
* `Registry.map`, `Registry.mapM`: Other values under the same names.
* `Registry.sorted`: The entries in ascending order of names.
* `Registry.Every`: All values have a property.

## Theorems

* `Registry.get?_insert`, `Registry.get?_erase`, `Registry.get?_merge`: What is found after a
  change.
* `Registry.Every.insert`, `Registry.Every.erase`, `Registry.Every.merge`: What a change preserves.
* `Registry.insertEntry_of_not_mem`: A name that is new comes last.
* `Registry.nodup_names_insert`: No name comes twice.
* `Registry.erase_insert`: The other names keep their values.
-/

namespace FiniteState

/-- Values under names, in the order in which the names were first given. -/
structure Registry (α : Type) where
  entries : List (String × α)
deriving DecidableEq

namespace Registry

variable {α : Type}

/-- The registry without names. -/
def empty : Registry α := ⟨[]⟩

instance : EmptyCollection (Registry α) := ⟨empty⟩

instance : Inhabited (Registry α) := ⟨empty⟩

/-- The value under a name. -/
def get? (registry : Registry α) (name : String) : Option α :=
  registry.entries.lookup name

/-- Whether a name has a value. -/
def contains (registry : Registry α) (name : String) : Bool :=
  (registry.get? name).isSome

/-- Whether no name has a value. -/
def isEmpty (registry : Registry α) : Bool :=
  registry.entries.isEmpty

/-- The number of names. -/
def size (registry : Registry α) : Nat :=
  registry.entries.length

/-- The names in order. -/
def names (registry : Registry α) : List String :=
  registry.entries.map Prod.fst

/-- Give a name a value in a list of entries. -/
def insertEntry (name : String) (value : α) : List (String × α) → List (String × α)
  | [] => [(name, value)]
  | entry :: rest =>
    if entry.1 = name then (name, value) :: rest else entry :: insertEntry name value rest

/-- Give a name a value. -/
def insert (registry : Registry α) (name : String) (value : α) : Registry α :=
  ⟨insertEntry name value registry.entries⟩

/-- Take a name away. -/
def erase (registry : Registry α) (name : String) : Registry α :=
  ⟨registry.entries.filter fun entry => entry.1 ≠ name⟩

/-- Give all names of another registry their values there, in order. -/
def merge (registry other : Registry α) : Registry α :=
  other.entries.foldl (fun found entry => found.insert entry.1 entry.2) registry

/-- What a function makes of the values, under the same names. -/
def map {β : Type} (f : α → β) (registry : Registry α) : Registry β :=
  ⟨registry.entries.map fun entry => (entry.1, f entry.2)⟩

/-- What an action makes of the values one after another, under the same names. -/
def mapM {m : Type → Type} [Monad m] {β : Type} (f : α → m β) (registry : Registry α) :
    m (Registry β) := do
  let entries ← registry.entries.mapM fun entry => do return (entry.1, ← f entry.2)
  return ⟨entries⟩

/-- The entries in ascending order of names. -/
def sorted (registry : Registry α) : List (String × α) :=
  registry.entries.mergeSort fun a b => (compare a.1 b.1).isLE

@[simp] theorem get?_empty (name : String) : (∅ : Registry α).get? name = none := rfl

theorem lookup_cons (key name : String) (value : α) (rest : List (String × α)) :
    ((key, value) :: rest).lookup name = if name = key then some value else rest.lookup name := by
  by_cases h : name = key
  · simp [h]
  · have hbeq : (name == key) = false := by simpa using h
    simp [List.lookup_cons, h, hbeq]

theorem lookup_insertEntry (entries : List (String × α)) (name other : String) (value : α) :
    (insertEntry name value entries).lookup other =
      if other = name then some value else entries.lookup other := by
  induction entries with
  | nil => simp [insertEntry, lookup_cons]
  | cons entry rest ih =>
    obtain ⟨key, old⟩ := entry
    by_cases hk : key = name
    · subst hk
      by_cases h : other = key <;> simp [insertEntry, lookup_cons, h]
    · by_cases ho : other = key
      · subst ho
        simp [insertEntry, hk]
      · simp [insertEntry, lookup_cons, hk, ho, ih]

@[simp] theorem get?_insert (registry : Registry α) (name other : String) (value : α) :
    (registry.insert name value).get? other =
      if other = name then some value else registry.get? other :=
  lookup_insertEntry registry.entries name other value

theorem lookup_filter_ne (entries : List (String × α)) (name other : String) :
    (entries.filter fun entry => entry.1 ≠ name).lookup other =
      if other = name then none else entries.lookup other := by
  induction entries with
  | nil => simp
  | cons entry rest ih =>
    obtain ⟨key, old⟩ := entry
    by_cases hk : key = name
    · subst hk
      by_cases h : other = key <;> simp [lookup_cons, h] at ih ⊢ <;> exact ih
    · by_cases ho : other = key
      · subst ho
        simp [hk]
      · simp [lookup_cons, hk, ho] at ih ⊢
        exact ih

@[simp] theorem get?_erase (registry : Registry α) (name other : String) :
    (registry.erase name).get? other = if other = name then none else registry.get? other :=
  lookup_filter_ne registry.entries name other

/-- What is found under a name is an entry. -/
theorem mem_of_get? {registry : Registry α} {name : String} {value : α}
    (h : registry.get? name = some value) : (name, value) ∈ registry.entries := by
  rcases List.lookup_eq_some_iff.1 h with ⟨before, after, hentries, -⟩
  rw [hentries]
  exact List.mem_append_right _ List.mem_cons_self

theorem mem_insertEntry {entries : List (String × α)} {name : String} {value : α}
    {entry : String × α} (h : entry ∈ insertEntry name value entries) :
    entry = (name, value) ∨ entry ∈ entries := by
  induction entries with
  | nil => exact Or.inl (List.mem_singleton.1 h)
  | cons first rest ih =>
    rw [insertEntry] at h
    split at h
    · rcases List.mem_cons.1 h with hnew | hrest
      · exact Or.inl hnew
      · exact Or.inr (List.mem_cons_of_mem _ hrest)
    · rcases List.mem_cons.1 h with rfl | hrest
      · exact Or.inr List.mem_cons_self
      · exact (ih hrest).imp_right (List.mem_cons_of_mem _)

/-! ### All values -/

/-- All values have a property. -/
def Every (holds : α → Prop) (registry : Registry α) : Prop :=
  ∀ entry ∈ registry.entries, holds entry.2

section Every

variable {holds : α → Prop} {registry other : Registry α}

theorem every_empty : Every holds ∅ :=
  fun _ hentry => absurd hentry List.not_mem_nil

theorem Every.imp {wider : α → Prop} (h : registry.Every holds)
    (hwider : ∀ value, holds value → wider value) : registry.Every wider :=
  fun entry hentry => hwider entry.2 (h entry hentry)

theorem Every.of_get? (h : registry.Every holds) {name : String} {value : α}
    (hvalue : registry.get? name = some value) : holds value :=
  h _ (mem_of_get? hvalue)

theorem Every.insert (h : registry.Every holds) {value : α} (hvalue : holds value)
    (name : String) : (registry.insert name value).Every holds := by
  intro entry hentry
  rcases mem_insertEntry hentry with rfl | hold
  · exact hvalue
  · exact h entry hold

theorem Every.erase (h : registry.Every holds) (name : String) :
    (registry.erase name).Every holds :=
  fun entry hentry => h entry (List.mem_filter.1 hentry).1

theorem Every.merge (h : registry.Every holds) (hother : other.Every holds) :
    (registry.merge other).Every holds := by
  obtain ⟨entries⟩ := other
  unfold Registry.merge
  induction entries generalizing registry with
  | nil => exact h
  | cons entry rest ih =>
    rcases List.forall_mem_cons.1 hother with ⟨hentry, hrest⟩
    exact ih (h.insert hentry entry.1) hrest

end Every

/-! ### Distinct names -/

theorem map_fst_insertEntry (entries : List (String × α)) (name : String) (value : α) :
    (insertEntry name value entries).map Prod.fst =
      if name ∈ entries.map Prod.fst then entries.map Prod.fst
      else entries.map Prod.fst ++ [name] := by
  induction entries with
  | nil => rfl
  | cons entry rest ih =>
    rw [insertEntry]
    by_cases hentry : entry.1 = name
    · simp [hentry]
    · have hne : name ≠ entry.1 := Ne.symm hentry
      rw [if_neg hentry, List.map_cons, ih, List.map_cons]
      by_cases hrest : name ∈ rest.map Prod.fst
      · rw [if_pos hrest, if_pos (List.mem_cons_of_mem _ hrest)]
      · have hall : name ∉ entry.1 :: rest.map Prod.fst := by simp [hne, hrest]
        rw [if_neg hrest, if_neg hall, List.cons_append]

/-- A name that is new comes last. -/
theorem insertEntry_of_not_mem {entries : List (String × α)} {name : String}
    (h : name ∉ entries.map Prod.fst) (value : α) :
    insertEntry name value entries = entries ++ [(name, value)] := by
  induction entries with
  | nil => rfl
  | cons entry rest ih =>
    rw [List.map_cons, List.mem_cons, not_or] at h
    rw [insertEntry, if_neg (Ne.symm h.1), ih h.2, List.cons_append]

/-- Giving a name a value does not make any name come twice. -/
theorem nodup_names_insert {registry : Registry α} (h : registry.names.Nodup) (name : String)
    (value : α) : (registry.insert name value).names.Nodup := by
  have hnames := map_fst_insertEntry registry.entries name value
  unfold names Registry.insert at *
  rw [hnames]
  split
  · exact h
  · next hname =>
    refine List.nodup_append.2 ⟨h, by simp, fun a ha b hb hab => hname ?_⟩
    rw [← List.mem_singleton.1 hb, ← hab]
    exact ha

/-- A name that both have keeps the value that is merged in. -/
theorem get?_merge {other : Registry α} (hother : other.names.Nodup) (registry : Registry α)
    (name : String) :
    (registry.merge other).get? name = (other.get? name).or (registry.get? name) := by
  obtain ⟨entries⟩ := other
  unfold merge
  induction entries generalizing registry with
  | nil => rfl
  | cons entry rest ih =>
    obtain ⟨key, value⟩ := entry
    rcases List.nodup_cons.1 hother with ⟨hkey, hrest⟩
    rw [List.foldl_cons, ih _ hrest, get?_insert]
    by_cases h : name = key
    · subst h
      -- The entries that follow do not give the name another value.
      have hnone : rest.lookup name = none := by
        rw [List.lookup_eq_none_iff]
        intro entry hentry
        rw [bne_iff_ne]
        rintro rfl
        exact hkey (List.mem_map.2 ⟨_, hentry, rfl⟩)
      simp [get?, hnone]
    · simp [get?, lookup_cons, h]

theorem erase_eq_self {registry : Registry α} {name : String} (h : registry.contains name = false) :
    registry.erase name = registry := by
  have hnone : registry.get? name = none := by
    rw [contains, Option.isSome_eq_false_iff, Option.isNone_iff_eq_none] at h
    exact h
  obtain ⟨entries⟩ := registry
  rw [erase, List.filter_eq_self.2]
  intro entry hentry
  have hne := List.lookup_eq_none_iff.1 hnone entry hentry
  exact decide_eq_true (Ne.symm (bne_iff_ne.1 hne))

/-! ### The other names -/

theorem filter_insertEntry (entries : List (String × α)) (name other : String) (value : α) :
    (insertEntry name value entries).filter (fun entry => entry.1 ≠ other) =
      if name = other then entries.filter (fun entry => entry.1 ≠ other)
      else insertEntry name value (entries.filter fun entry => entry.1 ≠ other) := by
  induction entries with
  | nil => by_cases h : name = other <;> simp [insertEntry, h]
  | cons entry rest ih =>
    rw [insertEntry]
    by_cases hname : entry.1 = name
    · by_cases h : name = other <;> simp [insertEntry, hname, h]
    · by_cases h : name = other
      · simp_all
      · by_cases hentry : entry.1 = other <;> simp_all [insertEntry]

/-- Giving a name a value does nothing to the other names. -/
theorem erase_insert (registry : Registry α) (name other : String) (value : α) :
    (registry.insert name value).erase other =
      if name = other then registry.erase other else (registry.erase other).insert name value := by
  rw [erase, insert, filter_insertEntry]
  split <;> rfl

end Registry

end FiniteState
