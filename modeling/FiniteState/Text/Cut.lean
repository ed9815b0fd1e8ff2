/-!
# Cutting Text

Text is cut at every occurrence of a separator, found from left to right without overlap. The
pieces are what stands between the occurrences, so there is one piece more than occurrences.

## Main definitions

* `cutAt`: The pieces of a text between the occurrences of a separator.
* `lines`: The pieces between line ends.
* `unlines`: A text put together from lines.

## Theorems

* `intercalate_cutAt`: The pieces with the separator between them make up the text.
* `unlines_lines`: Likewise for lines.
* `mem_of_mem_cutAt`: The pieces hold characters of the text only.
* `cutAt_eq_singleton`, `cutAt_append`: Where the first piece ends.
* `not_mem_of_mem_lines`: No line holds a line feed.
* `cons_unlines`: Lines that are put together, with a line feed in front.
* `lines_unlines`: Lines that are put together are cut apart again.
* `exists_lines_append`: Of two texts one after the other, the line at the seam is of both.
-/

namespace FiniteState

namespace Text

/-- Put a character in front of the first piece. -/
def consFirst (c : Char) : List (List Char) → List (List Char)
  | [] => [[c]]
  | piece :: pieces => (c :: piece) :: pieces

/-- The pieces of a text between the occurrences of `separator`, where the first `skip` characters
    still belong to the occurrence found last. -/
def cutFrom (separator : List Char) : Nat → List Char → List (List Char)
  | _, [] => [[]]
  | skip + 1, _ :: rest => cutFrom separator skip rest
  | 0, c :: rest =>
    if separator.isPrefixOf (c :: rest) then
      [] :: cutFrom separator (separator.length - 1) rest
    else consFirst c (cutFrom separator 0 rest)

/-- The pieces of a text between the occurrences of a separator that is not empty. -/
def cutAt (separator text : List Char) : List (List Char) :=
  cutFrom separator 0 text

/-- The lines of a text. Only the line feed ends a line. -/
def lines (text : List Char) : List (List Char) :=
  cutAt ['\n'] text

/-- The text in which lines stand, a line feed between each two. -/
def unlines (pieces : List (List Char)) : List Char :=
  List.intercalate ['\n'] pieces

theorem consFirst_ne_nil (c : Char) (pieces : List (List Char)) : consFirst c pieces ≠ [] := by
  cases pieces <;> simp [consFirst]

theorem cutFrom_ne_nil (separator : List Char) (skip : Nat) (text : List Char) :
    cutFrom separator skip text ≠ [] := by
  induction text generalizing skip with
  | nil => cases skip <;> simp [cutFrom]
  | cons c rest ih =>
    cases skip with
    | zero =>
      simp only [cutFrom]
      split
      next => simp
      next => exact consFirst_ne_nil c _
    | succ skip => exact ih skip

theorem cutAt_ne_nil (separator text : List Char) : cutAt separator text ≠ [] :=
  cutFrom_ne_nil separator 0 text

theorem intercalate_consFirst (separator : List Char) (c : Char) {pieces : List (List Char)}
    (h : pieces ≠ []) :
    separator.intercalate (consFirst c pieces) = c :: separator.intercalate pieces := by
  cases pieces with
  | nil => exact absurd rfl h
  | cons piece pieces => cases pieces <;> simp [consFirst, List.intercalate]

theorem intercalate_cutFrom {separator : List Char} (hsep : separator ≠ []) (skip : Nat)
    (text : List Char) :
    separator.intercalate (cutFrom separator skip text) = text.drop skip := by
  induction text generalizing skip with
  | nil => cases skip <;> simp [cutFrom, List.intercalate]
  | cons c rest ih =>
    cases skip with
    | succ skip => simpa [cutFrom] using ih skip
    | zero =>
      rw [cutFrom]
      split
      next h =>
        obtain ⟨tail, htail⟩ := List.isPrefixOf_iff_prefix.1 h
        have hrest := ih (separator.length - 1)
        obtain ⟨first, others, hcut⟩ := List.exists_cons_of_ne_nil
          (cutFrom_ne_nil separator (separator.length - 1) rest)
        obtain ⟨x, others', rfl⟩ := List.exists_cons_of_ne_nil hsep
        simp only [List.cons_append, List.cons.injEq] at htail
        obtain ⟨rfl, rfl⟩ := htail
        simp only [List.length_cons, Nat.add_one_sub_one, List.drop_left'] at hrest hcut ⊢
        rw [hcut] at hrest ⊢
        simp [List.intercalate, ← hrest]
      next =>
        rw [intercalate_consFirst separator c (cutFrom_ne_nil _ _ _), ih]
        rfl

theorem intercalate_cutAt {separator : List Char} (hsep : separator ≠ []) (text : List Char) :
    separator.intercalate (cutAt separator text) = text :=
  intercalate_cutFrom hsep 0 text

theorem unlines_lines (text : List Char) : unlines (lines text) = text :=
  intercalate_cutAt (by simp) text

/-! ### The characters of pieces -/

theorem mem_consFirst {c d : Char} {piece : List Char} {pieces : List (List Char)}
    (hpiece : piece ∈ consFirst c pieces) (hd : d ∈ piece) : d = c ∨ ∃ p ∈ pieces, d ∈ p := by
  cases pieces with
  | nil =>
    rw [consFirst, List.mem_singleton] at hpiece
    rw [hpiece, List.mem_singleton] at hd
    exact Or.inl hd
  | cons first pieces =>
    rcases List.mem_cons.1 hpiece with rfl | hpiece
    · rcases List.mem_cons.1 hd with rfl | hd
      · exact Or.inl rfl
      · exact Or.inr ⟨first, List.mem_cons_self, hd⟩
    · exact Or.inr ⟨piece, List.mem_cons_of_mem _ hpiece, hd⟩

theorem mem_of_mem_cutFrom {separator text piece : List Char} {skip : Nat} {c : Char}
    (hpiece : piece ∈ cutFrom separator skip text) (hc : c ∈ piece) : c ∈ text := by
  induction text generalizing skip piece with
  | nil =>
    have hnil : piece = [] := by cases skip <;> simpa [cutFrom] using hpiece
    rwa [hnil] at hc
  | cons d text ih =>
    cases skip with
    | succ skip => exact List.mem_cons_of_mem d (ih hpiece hc)
    | zero =>
      rw [cutFrom] at hpiece
      split at hpiece
      next =>
        rcases List.mem_cons.1 hpiece with rfl | hpiece
        · exact absurd hc List.not_mem_nil
        · exact List.mem_cons_of_mem d (ih hpiece hc)
      next =>
        rcases mem_consFirst hpiece hc with rfl | ⟨p, hp, hcp⟩
        · exact List.mem_cons_self
        · exact List.mem_cons_of_mem d (ih hp hcp)

/-- The pieces hold characters of the text only. -/
theorem mem_of_mem_cutAt {separator text piece : List Char} {c : Char}
    (hpiece : piece ∈ cutAt separator text) (hc : c ∈ piece) : c ∈ text :=
  mem_of_mem_cutFrom hpiece hc

/-! ### Where pieces end -/

/-- A text in which the separator does not occur is one piece. -/
theorem cutAt_eq_singleton {separator text : List Char} (h : ¬ separator <:+: text) :
    cutAt separator text = [text] := by
  unfold cutAt
  induction text with
  | nil => rfl
  | cons c text ih =>
    have hstart : ¬ separator.isPrefixOf (c :: text) = true :=
      fun hbegins => h (List.isPrefixOf_iff_prefix.1 hbegins).isInfix
    have hrest : ¬ separator <:+: text :=
      fun hinside => h (hinside.trans (List.suffix_cons c text).isInfix)
    rw [cutFrom, if_neg hstart, ih hrest, consFirst]

theorem cutFrom_length_append (separator skipped rest : List Char) :
    cutFrom separator skipped.length (skipped ++ rest) = cutFrom separator 0 rest := by
  induction skipped with
  | nil => rfl
  | cons c skipped ih => exact ih

/-- The first piece ends where the separator begins for the first time. -/
theorem cutAt_append {separator piece rest : List Char} (hsep : separator ≠ [])
    (h : ∀ front back, piece = front ++ back → back ≠ [] →
      ¬ separator <+: back ++ (separator ++ rest)) :
    cutAt separator (piece ++ (separator ++ rest)) = piece :: cutAt separator rest := by
  unfold cutAt
  induction piece with
  | nil =>
    rcases List.exists_cons_of_ne_nil hsep with ⟨c, tail, rfl⟩
    have hstart : (c :: tail).isPrefixOf (c :: (tail ++ rest)) = true :=
      List.isPrefixOf_iff_prefix.2 (List.prefix_append (c :: tail) rest)
    rw [List.nil_append, List.cons_append, cutFrom, if_pos hstart, List.length_cons,
      Nat.add_one_sub_one, cutFrom_length_append]
  | cons c piece ih =>
    have hstart : ¬ separator.isPrefixOf (c :: (piece ++ (separator ++ rest))) = true :=
      fun hbegins => h [] (c :: piece) rfl (List.cons_ne_nil c piece)
        (List.isPrefixOf_iff_prefix.1 hbegins)
    have hrest := ih fun front back hpiece hback =>
      h (c :: front) back (by rw [hpiece, List.cons_append]) hback
    rw [List.cons_append, cutFrom, if_neg hstart, hrest, consFirst]

/-! ### Lines -/

theorem lines_cons (c : Char) (text : List Char) :
    lines (c :: text) = if c = '\n' then [] :: lines text else consFirst c (lines text) := by
  have hbegins : ['\n'].isPrefixOf (c :: text) = true ↔ c = '\n' := by
    rw [List.isPrefixOf_iff_prefix, List.cons_prefix_cons]
    exact ⟨fun h => h.1.symm, fun h => ⟨h.symm, List.nil_prefix⟩⟩
  unfold lines cutAt
  rw [cutFrom]
  by_cases hc : c = '\n'
  · rw [if_pos (hbegins.2 hc), if_pos hc]
    rfl
  · rw [if_neg (mt hbegins.1 hc), if_neg hc]

/-- No line holds a line feed. -/
theorem not_mem_of_mem_lines {text line : List Char} (hline : line ∈ lines text) :
    '\n' ∉ line := by
  induction text generalizing line with
  | nil =>
    obtain rfl : line = [] := List.mem_singleton.1 hline
    exact List.not_mem_nil
  | cons c text ih =>
    rw [lines_cons] at hline
    split at hline
    next =>
      rcases List.mem_cons.1 hline with rfl | hline
      · exact List.not_mem_nil
      · exact ih hline
    next hc =>
      intro hmem
      rcases mem_consFirst hline hmem with h | ⟨p, hp, hmemp⟩
      · exact hc h.symm
      · exact ih hp hmemp

theorem lines_of_not_mem {line : List Char} (h : '\n' ∉ line) : lines line = [line] :=
  cutAt_eq_singleton fun hinside => h (hinside.subset List.mem_cons_self)

theorem unlines_cons_cons (line next : List Char) (rest : List (List Char)) :
    unlines (line :: next :: rest) = line ++ '\n' :: unlines (next :: rest) := by
  simp [unlines, List.intercalate]

/-- With a line feed in front, every line has one. -/
theorem cons_unlines {pieces : List (List Char)} (h : pieces ≠ []) :
    '\n' :: unlines pieces = pieces.flatMap ('\n' :: ·) := by
  induction pieces with
  | nil => exact absurd rfl h
  | cons line rest ih =>
    cases rest with
    | nil => simp [unlines, List.intercalate]
    | cons next rest =>
      rw [unlines_cons_cons, ih (List.cons_ne_nil _ _)]
      rfl

/-- Lines that are put together and cut apart again are the same lines. -/
theorem lines_unlines {pieces : List (List Char)} (hne : pieces ≠ [])
    (h : ∀ piece ∈ pieces, '\n' ∉ piece) : lines (unlines pieces) = pieces := by
  induction pieces with
  | nil => exact absurd rfl hne
  | cons line rest ih =>
    rcases List.forall_mem_cons.1 h with ⟨hline, hrest⟩
    cases rest with
    | nil => simpa [unlines, List.intercalate] using lines_of_not_mem hline
    | cons next rest =>
      have hcut : lines (line ++ (['\n'] ++ unlines (next :: rest))) =
          line :: lines (unlines (next :: rest)) := by
        refine cutAt_append (List.cons_ne_nil _ _) fun front back hpiece hback hbegins => ?_
        rcases List.exists_cons_of_ne_nil hback with ⟨c, tail, rfl⟩
        rw [List.cons_append, List.cons_prefix_cons] at hbegins
        refine hline ?_
        rw [hpiece, hbegins.1]
        exact List.mem_append_right _ List.mem_cons_self
      rw [unlines_cons_cons, ← List.singleton_append, hcut, ih (List.cons_ne_nil _ _) hrest]

/-- Of two texts one after the other, the last line of the first and the first line of the second
    become one line. -/
theorem exists_lines_append (u v : List Char) :
    ∃ front last first rest, lines u = front ++ [last] ∧ lines v = first :: rest ∧
      lines (u ++ v) = front ++ (last ++ first) :: rest := by
  induction u with
  | nil =>
    rcases List.exists_cons_of_ne_nil (cutFrom_ne_nil ['\n'] 0 v) with ⟨first, rest, hv⟩
    exact ⟨[], [], first, rest, rfl, hv, hv⟩
  | cons c u ih =>
    rcases ih with ⟨front, last, first, rest, hu, hv, huv⟩
    rw [List.cons_append, lines_cons, lines_cons, hu, huv]
    by_cases hc : c = '\n'
    · rw [if_pos hc, if_pos hc]
      exact ⟨[] :: front, last, first, rest, rfl, hv, rfl⟩
    · rw [if_neg hc, if_neg hc]
      cases front with
      | nil => exact ⟨[], c :: last, first, rest, rfl, hv, rfl⟩
      | cons line front => exact ⟨(c :: line) :: front, last, first, rest, rfl, hv, rfl⟩

end Text

end FiniteState
