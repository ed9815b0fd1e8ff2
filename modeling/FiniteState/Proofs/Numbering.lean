import FiniteState.Proofs.Determinization
import Mathlib.Data.List.GetD
import Mathlib.Data.List.Shortlex
import Mathlib.Data.Set.Function

/-!
# The Numbering of Discovered Sets

Which states the determinized automaton has and which number each of them bears, without mention of
a list that grows while it is read. A state stands for a subset of states that a word leads to, and
the states are numbered by the earliest words that lead to them: shorter words come before longer
ones, and words of the same length are in the order of code points.

A set is discovered from an earlier one by a symbol. So the sets can be listed with a word each,
`[]` for the first and the word of the earlier set with that symbol behind it for any other. Such a
list of words is ascending, and what has to be known of it to add more words is `Search.Ranked`:
words that the next round adds are later than all that are there. One round keeps that
(`Ranked.step`), because the words of a round share all but their last symbol and the symbols are
in ascending order, and so does the whole discovery (`Ranked.discover`).

That the words of the list are the earliest of all goes by induction on the length of any other word
for the same set. What its last symbol was read from has a word in the list that is not later, and
that word with the same symbol behind it has been tried.

## Main definitions

* `Earlier`, `NotLater`: The order of words.
* `Search.Ranked`: Words for known values, ascending and up to date with the places looked at.
* `Automaton.FirstWord`: The earliest of the words that lead from state 0 to a state.
* `Automaton.statesAfter`: The subset of states that a word leads to.
* `Automaton.subsetAt`: The subset that a state of the determinized automaton stands for.
* `Automaton.NumbersSubsets`: What the states of an automaton and their numbers mean for another.

## Theorems

* `Search.Ranked.step`: One round keeps the words ranked.
* `Search.Ranked.discover`: A discovery lists the values in the order of their words.
* `Automaton.exists_words`: Every subset has a first word, and these are in ascending order.
* `Automaton.exists_firstWords`: The states are numbered in the order of their first words.
* `Automaton.bijOn_subsetAt`: The states stand one to one for the subsets.
* `Automaton.path_iff_subsetAt`, `Automaton.mem_final_iff_subsetAt`: Words lead to their subsets,
  and a subset with a final state is final.
* `Automaton.determinize_numbersSubsets`: All of this, for every automaton.
-/

namespace FiniteState

/-! ### The order of words -/

/-- A word is earlier than another if it is shorter, or as long and before it in the order of code
    points. -/
def Earlier (u v : List Char) : Prop :=
  List.Shortlex (· < ·) u v

/-- A word is the same as another or earlier. -/
def NotLater (u v : List Char) : Prop :=
  u = v ∨ Earlier u v

theorem earlier_iff {u v : List Char} :
    Earlier u v ↔ u.length < v.length ∨ u.length = v.length ∧ List.Lex (· < ·) u v :=
  List.shortlex_def

theorem not_earlier_nil (u : List Char) : ¬ Earlier u [] :=
  List.not_shortlex_nil_right

theorem Earlier.trans {u v w : List Char} (huv : Earlier u v) (hvw : Earlier v w) :
    Earlier u w := by
  rw [earlier_iff] at huv hvw ⊢
  rcases huv with huv | ⟨huv, hlex⟩
  · rcases hvw with hvw | ⟨hvw, -⟩
    · exact Or.inl (huv.trans hvw)
    · exact Or.inl (huv.trans_eq hvw)
  · rcases hvw with hvw | ⟨hvw, hlex'⟩
    · exact Or.inl (huv.trans_lt hvw)
    · exact Or.inr ⟨huv.trans hvw, List.lex_trans Char.lt_trans hlex hlex'⟩

theorem NotLater.trans {u v w : List Char} (huv : NotLater u v) (hvw : NotLater v w) :
    NotLater u w := by
  rcases huv with rfl | huv
  · exact hvw
  · rcases hvw with rfl | hvw
    · exact Or.inr huv
    · exact Or.inr (huv.trans hvw)

theorem lex_append {u v x y : List Char} (hlength : u.length = v.length)
    (h : List.Lex (· < ·) u v) : List.Lex (· < ·) (u ++ x) (v ++ y) := by
  induction h with
  | nil => exact absurd hlength (by simp)
  | rel hcd => exact .rel hcd
  | cons _ ih => exact .cons (ih (Nat.succ.inj hlength))

/-- Words keep their order when a symbol is put behind each, whichever symbols these are. -/
theorem Earlier.snoc {u v : List Char} (h : Earlier u v) (c d : Char) :
    Earlier (u ++ [c]) (v ++ [d]) := by
  rw [earlier_iff, List.length_append, List.length_append, List.length_singleton,
    List.length_singleton]
  rcases earlier_iff.1 h with hlt | ⟨heq, hlex⟩
  · exact Or.inl (Nat.add_lt_add_right hlt 1)
  · exact Or.inr ⟨congrArg (· + 1) heq, lex_append heq hlex⟩

theorem earlier_snoc {w : List Char} {c d : Char} (h : c < d) : Earlier (w ++ [c]) (w ++ [d]) :=
  ((List.shortlex_singleton_iff c d).2 h).append_left w

theorem NotLater.snoc {u v : List Char} (h : NotLater u v) (c : Char) :
    NotLater (u ++ [c]) (v ++ [c]) := by
  rcases h with rfl | h
  · exact Or.inl rfl
  · exact Or.inr (h.snoc c c)

namespace Search

variable {α : Type} [DecidableEq α] {value : List Char → α} {live : α → List Char}
  {successors : α → List α} {rounds place : Nat} {words : List (List Char)} {w : List Char}

/-- Words that lead to the known values, in ascending order. Values up to `place` have been looked
    at: what one of their words leads to with one more symbol is known by a word that is not later.
    The words are earlier than those that the values from `place` on still have to contribute. -/
structure Ranked (value : List Char → α) (live : α → List Char) (place : Nat)
    (words : List (List Char)) : Prop where
  pairwise : words.Pairwise Earlier
  earlier : ∀ v ∈ words, ∀ w ∈ words.drop place, ∀ c, Earlier v (w ++ [c])
  exists_mem : ∀ w ∈ words.take place, ∀ c ∈ live (value w),
    ∃ v ∈ words, value v = value (w ++ [c]) ∧ NotLater v (w ++ [c])

/-- What the symbols behind a word lead to is added under the word with that symbol, unless it is
    known. -/
theorem exists_foldl_addNew (value : List Char → α) (words : List (List Char)) (w : List Char)
    {symbols : List Char} (hsymbols : symbols.Pairwise (· < ·)) :
    ∃ added : List Char, added.Sublist symbols ∧
      (words ++ added.map fun c => w ++ [c]).map value
        = (symbols.map fun c => value (w ++ [c])).foldl addNew (words.map value) ∧
      ∀ c ∈ symbols, ∃ v ∈ words ++ added.map fun c => w ++ [c],
        value v = value (w ++ [c]) ∧ (v ∈ words ∨ NotLater v (w ++ [c])) := by
  induction symbols generalizing words with
  | nil => exact ⟨[], .slnil, by simp, by simp⟩
  | cons c symbols ih =>
    rcases List.pairwise_cons.1 hsymbols with ⟨hfirst, hrest⟩
    rw [List.map_cons, List.foldl_cons, addNew]
    by_cases hknown : value (w ++ [c]) ∈ words.map value
    · -- Nothing is added, and the word that is there already stays there.
      rw [if_pos hknown]
      rcases ih words hrest with ⟨added, hsublist, hmap, hmem⟩
      rcases List.mem_map.1 hknown with ⟨v, hv, hvalue⟩
      refine ⟨added, hsublist.cons c, hmap, List.forall_mem_cons.2 ⟨?_, hmem⟩⟩
      exact ⟨v, List.mem_append_left _ hv, hvalue, Or.inl hv⟩
    · rw [if_neg hknown]
      rcases ih (words ++ [w ++ [c]]) hrest with ⟨added, hsublist, hmap, hmem⟩
      rw [List.append_assoc, List.singleton_append] at hmap hmem
      refine ⟨c :: added, hsublist.cons_cons c, ?_, List.forall_mem_cons.2 ⟨?_, fun d hd => ?_⟩⟩
      · rw [List.map_cons, hmap, List.map_append, List.map_singleton]
      · exact ⟨w ++ [c], by simp, rfl, Or.inr (Or.inl rfl)⟩
      · rcases hmem d hd with ⟨v, hv, hvalue, hsooner⟩
        refine ⟨v, hv, hvalue, ?_⟩
        -- The symbols are in order, so the word just added is earlier than that of `d`.
        rcases hsooner with hv | hv
        · rcases List.mem_append.1 hv with hv | hv
          · exact Or.inl hv
          · rw [List.mem_singleton.1 hv]
            exact Or.inr (Or.inr (earlier_snoc (hfirst d hd)))
        · exact Or.inr hv

/-- One round keeps the words in order. -/
theorem Ranked.step (h : Ranked value live place words) (hlive : (live (value w)).Pairwise (· < ·))
    (hw : words[place]? = some w) :
    ∃ more, words <+: more ∧ Ranked value live (place + 1) more ∧ more.map value
      = ((live (value w)).map fun c => value (w ++ [c])).foldl addNew (words.map value) := by
  rcases exists_foldl_addNew value words w hlive with ⟨added, hsublist, hmap, hmem⟩
  rcases List.getElem?_eq_some_iff.1 hw with ⟨hplace, hget⟩
  have hdrop : w ∈ words.drop place := by
    rw [List.drop_eq_getElem_cons hplace, hget]
    exact List.mem_cons_self
  -- What is added differs in the last symbol only, and is later than all that is there, since `w`
  -- still had something to contribute.
  have hpairwise : (words ++ added.map fun c => w ++ [c]).Pairwise Earlier := by
    refine List.pairwise_append.2 ⟨h.pairwise, ?_, ?_⟩
    · exact List.pairwise_map.2 ((hlive.sublist hsublist).imp earlier_snoc)
    · intro v hv x hx
      rcases List.mem_map.1 hx with ⟨c, _, rfl⟩
      exact h.earlier v hv w hdrop c
  refine ⟨_, List.prefix_append _ _, ⟨hpairwise, ?_, ?_⟩, hmap⟩
  · intro v hv x hx c
    -- A word to be looked at after `w` is later than `w`, and so is what it contributes.
    have hwx : Earlier w x := by
      have hplace' : place < (words ++ added.map fun c => w ++ [c]).length :=
        hplace.trans_le (List.prefix_append _ _).length_le
      have htail := hpairwise.drop (i := place)
      rw [List.drop_eq_getElem_cons hplace', List.getElem_append_left hplace, hget] at htail
      exact (List.pairwise_cons.1 htail).1 x hx
    rcases List.mem_append.1 hv with hv | hv
    · exact (h.earlier v hv w hdrop c).trans (hwx.snoc c c)
    · rcases List.mem_map.1 hv with ⟨d, _, rfl⟩
      exact hwx.snoc d c
  · intro x hx c hc
    rw [List.take_append_of_le_length hplace, List.take_add_one, hw, Option.toList_some,
      List.mem_append, List.mem_singleton] at hx
    -- Either the word had been looked at before, or it is the one of this round.
    rcases hx with hx | rfl
    · rcases h.exists_mem x hx c hc with ⟨v, hv, hvalue⟩
      exact ⟨v, List.mem_append_left _ hv, hvalue⟩
    · rcases hmem c hc with ⟨v, hv, hvalue, hknown⟩
      refine ⟨v, hv, hvalue, ?_⟩
      rcases hknown with hknown | hnotLater
      · -- A value that was known has a word earlier than any that this round could give it.
        exact Or.inr (h.earlier v hknown x hdrop c)
      · exact hnotLater

omit [DecidableEq α] in
theorem Ranked.finish (h : Ranked value live place words) (hplace : words.length ≤ place) :
    Ranked value live words.length words := by
  refine ⟨h.pairwise, by simp, fun w hw => ?_⟩
  rw [List.take_length] at hw
  exact h.exists_mem w (by rwa [List.take_of_length_le hplace])

/-- A discovery that looks at every value lists the values in the order of their words. -/
theorem Ranked.discover (hlive : ∀ x, (live x).Pairwise (· < ·))
    (hsucc : ∀ w, successors (value w) = (live (value w)).map fun c => value (w ++ [c]))
    (h : Ranked value live place words)
    (hlength : (discover successors rounds place (words.map value)).length ≤ place + rounds) :
    ∃ found, words <+: found ∧ Ranked value live found.length found ∧
      found.map value = discover successors rounds place (words.map value) := by
  induction rounds generalizing place words with
  | zero =>
    refine ⟨words, List.prefix_rfl, h.finish ?_, rfl⟩
    simpa [Search.discover] using hlength
  | succ rounds ih =>
    rw [Search.discover, List.getElem?_map] at hlength ⊢
    cases hw : words[place]? with
    | none =>
      -- Every value has been looked at, so the rounds that are left change nothing.
      exact ⟨words, List.prefix_rfl, h.finish (List.getElem?_eq_none_iff.1 hw), rfl⟩
    | some w =>
      rw [hw] at hlength
      simp only [Option.map_some, hsucc] at hlength ⊢
      rcases h.step (hlive (value w)) hw with ⟨more, hprefix, hmore, hmap⟩
      rw [← hmap] at hlength ⊢
      rcases ih hmore (by omega) with ⟨found, hprefix', hfound⟩
      exact ⟨found, hprefix.trans hprefix', hfound⟩

end Search

namespace Automaton

variable {A : Automaton} {s t : Nat} {word : List Char}

/-! ### First words -/

theorem pairwise_live_lt (A : Automaton) (states : StateSet) :
    (A.live states).Pairwise (· < ·) :=
  (A.pairwise_live states).imp fun h => compareOfLessAndEq_eq_lt.1 h

/-- If all that words of a list lead to with one more symbol is known by a word that is not later,
    the list has a word for every other that is not later. -/
theorem exists_notLater (hA : A.WellFormed) {words : List (List Char)} (hnil : [] ∈ words)
    (h : Search.Ranked A.reached A.live words.length words) (hword : A.Alive word) :
    ∃ v ∈ words, A.reached v = A.reached word ∧ NotLater v word := by
  induction word using List.reverseRecOn with
  | nil => exact ⟨[], hnil, rfl, Or.inl rfl⟩
  | append_singleton word c ih =>
    have hne : A.reached (word ++ [c]) ≠ ∅ :=
      hword.resolve_left (List.append_ne_nil_of_right_ne_nil word (List.cons_ne_nil c []))
    -- The set of the shorter word has a word that is not later, and so has what `c` leads to.
    rcases ih (Or.inr (reached_append_ne_empty hne)) with ⟨u, hu, hreached, hnotLater⟩
    have hsame : A.reached (u ++ [c]) = A.reached (word ++ [c]) := by
      rw [reached_snoc, reached_snoc, hreached]
    have hlive : c ∈ A.live (A.reached u) := by
      rw [mem_live hA, ← reached_snoc, hsame]
      exact hne
    rw [← List.take_length (l := words)] at hu
    rcases h.exists_mem u hu c hlive with ⟨v, hv, hvalue, hnotLater'⟩
    exact ⟨v, hv, hvalue.trans hsame, hnotLater'.trans (hnotLater.snoc c)⟩

/-- The sets are discovered in the order of words: each has one that no word for it is earlier
    than. -/
theorem exists_words (hA : A.WellFormed) : ∃ words : List (List Char),
    words.map A.reached = A.subsets ∧ words.Pairwise Earlier ∧
      ∀ word, A.Alive word → ∃ v ∈ words, A.reached v = A.reached word ∧ NotLater v word := by
  have hsucc : ∀ w, A.successors (A.reached w)
      = (A.live (A.reached w)).map fun c => A.reached (w ++ [c]) := by
    intro w
    simp only [reached_snoc]
    rfl
  have hstart : Search.Ranked A.reached A.live 0 [[]] :=
    ⟨List.pairwise_singleton _ _, by simp [earlier_iff], by simp⟩
  -- There are as many rounds as there can be sets, so every set is looked at.
  have hlength : (Search.discover A.successors (2 ^ A.size) 0 ([[]].map A.reached)).length
      ≤ 0 + 2 ^ A.size := by
    rw [Nat.zero_add]
    exact length_discover_le hA (2 ^ A.size)
  rcases hstart.discover A.pairwise_live_lt hsucc hlength with ⟨words, hprefix, hwords, hmap⟩
  have hnil : [] ∈ words := hprefix.subset (List.mem_singleton_self _)
  exact ⟨words, hmap.trans A.subsets_eq.symm, hwords.pairwise,
    fun _ hword => exists_notLater hA hnil hwords hword⟩

/-- A word is the first of those that paths from state 0 to a state spell. -/
structure FirstWord (A : Automaton) (s : Nat) (word : List Char) : Prop where
  path : A.Path 0 word s
  notLater : ∀ other, A.Path 0 other s → NotLater word other

/-- Every state of the determinized automaton is the number of a word. -/
theorem exists_index_lt (hA : A.WellFormed) (hs : s < A.determinize.size) :
    ∃ word, A.Alive word ∧ A.index word = s := by
  rcases exists_index_eq hA hs with ⟨word, hword, hindex, -⟩
  exact ⟨word, hword, hindex⟩

/-- If there is a word for every set in the order of discovery, and one that is not later than any
    other, then these are the first words. -/
theorem firstWord_of_getElem? (hA : A.WellFormed) {words : List (List Char)}
    (hmap : words.map A.reached = A.subsets)
    (hfirst : ∀ word, A.Alive word → ∃ v ∈ words, A.reached v = A.reached word ∧ NotLater v word)
    (hs : words[s]? = some word) : A.determinize.FirstWord s word := by
  have hget : ∀ (i : Nat) (v : List Char), words[i]? = some v →
      A.subsets[i]? = some (A.reached v) := by
    intro i v hv
    rw [← hmap, List.getElem?_map, hv, Option.map_some]
  have hnotLater : ∀ other, A.Alive other → A.index other = s → NotLater word other := by
    intro other hother hindex
    rcases hfirst other hother with ⟨v, hv, hreached, hle⟩
    -- The word of the list that is not later than this one stands at the same place.
    rcases List.mem_iff_getElem?.1 hv with ⟨i, hi⟩
    have hplace : i = s := by
      rw [← index_eq_of_getElem? (hget i v hi), ← hindex, index, index, hreached]
    rw [hplace, hs, Option.some.injEq] at hi
    rwa [hi]
  have hlt : s < A.determinize.size := (List.getElem?_eq_some_iff.1 (hget s word hs)).1
  have halive : A.Alive word := by
    rcases exists_index_lt hA hlt with ⟨other, rfl | hne, hindex⟩
    · -- Nothing but the empty word comes as early as the empty word.
      exact Or.inl ((hnotLater [] (Or.inl rfl) hindex).resolve_right (not_earlier_nil word))
    · have hreached := getElem?_index hA (Or.inr hne)
      rw [hindex, hget s word hs, Option.some.injEq] at hreached
      exact Or.inr (by rwa [hreached])
  refine ⟨(path_determinize_zero hA).2 ⟨index_eq_of_getElem? (hget s word hs), halive⟩, ?_⟩
  intro other hother
  rcases (path_determinize_zero hA).1 hother with ⟨hindex, hlives⟩
  exact hnotLater other hlives hindex

/-- The states of the determinized automaton are numbered in the order of their first words. -/
theorem exists_firstWords (hA : A.WellFormed) : ∃ first : Nat → List Char,
    (∀ s < A.determinize.size, A.determinize.FirstWord s (first s)) ∧
      ∀ s t, s < t → t < A.determinize.size → Earlier (first s) (first t) := by
  rcases exists_words hA with ⟨words, hmap, hpairwise, hfirst⟩
  have hlength : A.determinize.size = words.length := by
    rw [size_determinize, ← hmap, List.length_map]
  refine ⟨fun s => words.getD s [], fun s hs => ?_, fun s t hst ht => ?_⟩
  · refine firstWord_of_getElem? hA hmap hfirst ?_
    rw [hlength] at hs
    simp only [List.getElem?_eq_getElem hs, List.getD_eq_getElem words [] hs]
  · rw [hlength] at ht
    simp only [List.getD_eq_getElem words [] ht, List.getD_eq_getElem words [] (hst.trans ht)]
    exact List.pairwise_iff_getElem.1 hpairwise s t _ ht hst

/-! ### Subsets and their numbers -/

/-- The states that paths from starting states lead to, spelling a word. -/
def statesAfter (A : Automaton) (word : List Char) : Set Nat :=
  {t | ∃ s ∈ A.starting, A.Path s word t}

/-- The subset of states that a state of the determinized automaton stands for. -/
def subsetAt (A : Automaton) (s : Nat) : Set Nat :=
  {t | t ∈ A.subsets.getD s ∅}

theorem statesAfter_eq (hA : A.WellFormed) (word : List Char) :
    A.statesAfter word = {t | t ∈ A.reached word} := by
  ext t
  exact (mem_reached hA).symm

theorem statesAfter_eq_iff (hA : A.WellFormed) {u v : List Char} :
    A.statesAfter u = A.statesAfter v ↔ A.reached u = A.reached v := by
  rw [statesAfter_eq hA, statesAfter_eq hA]
  constructor
  · exact fun h => StateSet.ext_mem fun t => Set.ext_iff.1 h t
  · exact fun h => by rw [h]

theorem statesAfter_nonempty_iff (hA : A.WellFormed) :
    (A.statesAfter word).Nonempty ↔ A.reached word ≠ ∅ := by
  rw [statesAfter_eq hA]
  constructor
  · intro h hempty
    rcases h with ⟨t, ht⟩
    rw [Set.mem_ofPred_eq, hempty] at ht
    exact StateSet.not_mem_empty t ht
  · intro h
    by_contra hnone
    refine h (StateSet.ext_mem fun t => ⟨fun ht => absurd ⟨t, ht⟩ hnone, fun ht => ?_⟩)
    exact absurd ht (StateSet.not_mem_empty t)

theorem subsetAt_index (hA : A.WellFormed) (hword : A.Alive word) :
    A.subsetAt (A.index word) = A.statesAfter word := by
  rw [subsetAt, List.getD_eq_getElem?_getD, getElem?_index hA hword, Option.getD_some,
    statesAfter_eq hA]

/-- The states of an automaton stand for the subsets of states that another can be in after reading
    a word, and are numbered by the words. -/
structure NumbersSubsets (A D : Automaton) (subset : Nat → Set Nat) : Prop where
  /-- One to one, the states stand for the subset at the start and those subsets that hold a state
      and are what a word leads to. -/
  bijOn : Set.BijOn subset {s | s < D.size} (insert (A.statesAfter [])
    {states | states.Nonempty ∧ ∃ word, A.statesAfter word = states})
  starting_eq : D.starting = .ofList [0]
  subset_zero : subset 0 = A.statesAfter []
  /-- A word leads to the state of its subset, and nowhere if there is nothing in its subset. -/
  path_iff : ∀ word, word ≠ [] → ∀ t, D.Path 0 word t ↔
    t < D.size ∧ subset t = A.statesAfter word ∧ (A.statesAfter word).Nonempty
  mem_final_iff : ∀ s < D.size, (s ∈ D.final ↔ ∃ t ∈ subset s, t ∈ A.final)
  /-- The numbers are in the order of the first words that lead to the states. -/
  ordered : ∃ first : Nat → List Char, (∀ s < D.size, D.FirstWord s (first s)) ∧
    ∀ s t, s < t → t < D.size → Earlier (first s) (first t)
  size_le : D.size ≤ max 1 (2 ^ A.size - 1)

theorem bijOn_subsetAt (hA : A.WellFormed) :
    Set.BijOn A.subsetAt {s | s < A.determinize.size} (insert (A.statesAfter [])
      {states | states.Nonempty ∧ ∃ word, A.statesAfter word = states}) := by
  refine ⟨fun s hs => ?_, fun s hs t ht hsame => ?_, fun states hstates => ?_⟩
  · rcases exists_index_lt hA hs with ⟨word, hword, rfl⟩
    rw [subsetAt_index hA hword]
    rcases hword with rfl | hne
    · exact Or.inl rfl
    · exact Or.inr ⟨(statesAfter_nonempty_iff hA).2 hne, word, rfl⟩
  -- Both states are the numbers of words, which lead to the same subset.
  · rcases exists_index_lt hA hs with ⟨u, hu, rfl⟩
    rcases exists_index_lt hA ht with ⟨v, hv, rfl⟩
    rw [subsetAt_index hA hu, subsetAt_index hA hv, statesAfter_eq_iff hA] at hsame
    exact (index_eq_index_iff hA hu hv).2 hsame
  · -- The subset at the start has a state also if nothing is in it.
    have halive : ∃ word, A.Alive word ∧ A.statesAfter word = states := by
      rcases hstates with rfl | ⟨hne, word, rfl⟩
      · exact ⟨[], Or.inl rfl, rfl⟩
      · exact ⟨word, Or.inr ((statesAfter_nonempty_iff hA).1 hne), rfl⟩
    rcases halive with ⟨word, hword, rfl⟩
    exact ⟨A.index word, index_lt hA hword, subsetAt_index hA hword⟩

/-- A word that is not empty leads to the state of its subset, unless there is nothing in it. -/
theorem path_iff_subsetAt (hA : A.WellFormed) (hword : word ≠ []) {t : Nat} :
    A.determinize.Path 0 word t ↔ t < A.determinize.size ∧
      A.subsetAt t = A.statesAfter word ∧ (A.statesAfter word).Nonempty := by
  rw [path_determinize_zero hA, statesAfter_nonempty_iff hA]
  constructor
  · intro h
    rcases h with ⟨rfl, halive⟩
    exact ⟨index_lt hA halive, subsetAt_index hA halive, halive.resolve_left hword⟩
  · intro h
    rcases h with ⟨ht, hsubset, hne⟩
    have halive : A.Alive word := Or.inr hne
    -- No other state stands for the subset, so the state is the number of the word.
    have hsame : A.subsetAt (A.index word) = A.subsetAt t := by
      rw [subsetAt_index hA halive, hsubset]
    exact ⟨(bijOn_subsetAt hA).injOn (index_lt hA halive) ht hsame, halive⟩

/-- A state is final if a final state is in its subset. -/
theorem mem_final_iff_subsetAt (hA : A.WellFormed) (hs : s < A.determinize.size) :
    s ∈ A.determinize.final ↔ ∃ t ∈ A.subsetAt s, t ∈ A.final := by
  rcases exists_index_lt hA hs with ⟨word, hword, rfl⟩
  rw [mem_final_determinize hA, subsetAt_index hA hword, statesAfter_eq hA]
  constructor
  · intro h
    rcases h with ⟨other, hother, hindex⟩
    have halive : A.Alive other := Or.inr (reached_ne_empty_of_mem_language hA hother)
    rw [← (index_eq_index_iff hA halive hword).1 hindex]
    exact (mem_language_iff_reached hA).1 hother
  · intro h
    exact ⟨word, (mem_language_iff_reached hA).2 h, rfl⟩

/-- The states of the determinized automaton stand for the subsets of states that words lead to, and
    each bears the number that the first of its words has among the first words. -/
theorem determinize_numbersSubsets (hA : A.WellFormed) :
    A.NumbersSubsets A.determinize A.subsetAt where
  bijOn := bijOn_subsetAt hA
  starting_eq := starting_determinize A
  subset_zero := by rw [← subsetAt_index hA (Or.inl rfl), index_nil]
  path_iff _ hword _ := path_iff_subsetAt hA hword
  mem_final_iff _ hs := mem_final_iff_subsetAt hA hs
  ordered := exists_firstWords hA
  size_le := length_subsets_le hA

theorem branching_numbersSubsets : branching.WellFormed ∧
    branching.NumbersSubsets branching.determinize branching.subsetAt :=
  ⟨by decide +kernel, determinize_numbersSubsets (by decide +kernel)⟩

end Automaton

end FiniteState
