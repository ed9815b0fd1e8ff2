import FiniteState.Text.Cut

/-!
# Pieces Between Separators

How a text is cut at a separator, said without the function that does the cutting: each piece but
the last is followed by an occurrence of the separator, and no occurrence begins earlier. Every text
has exactly one such cut, since the next cut is always at the first occurrence that is left.

A cut says nothing about what comes later in the text. So two texts that are put together are cut
like each of them by itself, unless an occurrence lies across the seam, and none does if the second
text begins with a character that is no part of the separator.

## Main definitions

* `Text.Cuts`: A text is cut into pieces.

## Theorems

* `Text.cuts_iff`: The pieces are found.
* `Text.Cuts.absent`: The separator occurs in none of the pieces.
* `Text.infix_append_iff`: No occurrence lies across such a seam.
* `Text.Cuts.append`: Two texts that are put together are cut like each of them.
-/

namespace FiniteState

namespace Text

/-- A text is cut into pieces: the separator does not occur in the last of them, and behind each of
    the others it occurs for the first time. -/
inductive Cuts (separator : List Char) : List Char → List (List Char) → Prop
  | last {text : List Char} (habsent : ¬ separator <:+: text) : Cuts separator text [text]
  | next {piece rest : List Char} {pieces : List (List Char)}
      (hfirst : ∀ front back, piece = front ++ back → back ≠ [] →
        ¬ separator <+: back ++ separator)
      (hrest : Cuts separator rest pieces) :
      Cuts separator (piece ++ (separator ++ rest)) (piece :: pieces)

section Cuts

variable {separator text u v rest : List Char} {c : Char} {pieces : List (List Char)}

/-- Whether the separator begins in front of an occurrence does not depend on what follows it. -/
theorem prefix_append_separator (h : separator <+: u ++ (separator ++ rest)) :
    separator <+: u ++ separator := by
  rw [← List.append_assoc] at h
  refine List.prefix_of_prefix_length_le h (List.prefix_append _ rest) ?_
  rw [List.length_append]
  exact Nat.le_add_left _ _

theorem cutAt_of_cuts (hsep : separator ≠ []) (h : Cuts separator text pieces) :
    cutAt separator text = pieces := by
  induction h with
  | last habsent => exact cutAt_eq_singleton habsent
  | next hfirst _ ih =>
    rw [cutAt_append hsep fun front back hpiece hback hbegins =>
      hfirst front back hpiece hback (prefix_append_separator hbegins), ih]

/-- A character in front is part of the first piece, unless the separator begins with it. -/
theorem Cuts.cons (h : Cuts separator text pieces) (hbegins : ¬ separator <+: c :: text) :
    Cuts separator (c :: text) (consFirst c pieces) := by
  cases h with
  | last habsent =>
    refine .last fun hinside => ?_
    rcases List.infix_cons_iff.1 hinside with hprefix | hinside
    · exact hbegins hprefix
    · exact habsent hinside
  | @next piece rest pieces hfirst hrest =>
    rw [consFirst, ← List.cons_append]
    -- An occurrence that begins in the piece begins at the new character or behind it.
    refine .next (fun front back hpiece hback hback_begins => ?_) hrest
    cases front with
    | nil =>
      obtain rfl : c :: piece = back := hpiece
      refine hbegins (hback_begins.trans ?_)
      rw [List.cons_append, ← List.append_assoc]
      exact List.prefix_append _ rest
    | cons d front => exact hfirst front back (List.cons.inj hpiece).2 hback hback_begins

theorem cuts_cutFrom (hsep : separator ≠ []) (skip : Nat) (text : List Char) :
    Cuts separator (text.drop skip) (cutFrom separator skip text) := by
  induction text generalizing skip with
  | nil =>
    have habsent : ¬ separator <:+: [] := fun hinside => hsep (List.infix_nil.1 hinside)
    cases skip with
    | zero => exact .last habsent
    | succ skip => exact .last habsent
  | cons c text ih =>
    cases skip with
    | succ skip => exact ih skip
    | zero =>
      rw [cutFrom]
      by_cases hbegins : separator.isPrefixOf (c :: text) = true
      -- What follows the occurrence is what is left without it.
      · rw [if_pos hbegins]
        rcases List.isPrefixOf_iff_prefix.1 hbegins with ⟨rest, hrest⟩
        rcases List.exists_cons_of_ne_nil hsep with ⟨d, tail, rfl⟩
        have hcuts := ih tail.length
        rw [List.cons_append, List.cons.injEq] at hrest
        obtain ⟨rfl, rfl⟩ := hrest
        rw [List.drop_left] at hcuts
        have hfirst : ∀ front back, ([] : List Char) = front ++ back → back ≠ [] →
            ¬ d :: tail <+: back ++ d :: tail :=
          fun front back hnil hback => absurd (List.append_eq_nil_iff.1 hnil.symm).2 hback
        exact .next hfirst hcuts
      · rw [if_neg hbegins]
        exact (ih 0).cons (mt List.isPrefixOf_iff_prefix.2 hbegins)

theorem cuts_cutAt (hsep : separator ≠ []) (text : List Char) :
    Cuts separator text (cutAt separator text) :=
  cuts_cutFrom hsep 0 text

/-- Every text has exactly one cut, and it is found. -/
theorem cuts_iff (hsep : separator ≠ []) :
    Cuts separator text pieces ↔ cutAt separator text = pieces := by
  constructor
  · exact cutAt_of_cuts hsep
  · rintro rfl
    exact cuts_cutAt hsep text

/-- The separator occurs in none of the pieces. -/
theorem Cuts.absent (h : Cuts separator text pieces) (hsep : separator ≠ []) :
    ∀ piece ∈ pieces, ¬ separator <:+: piece := by
  induction h with
  | last habsent => exact fun piece hpiece => List.mem_singleton.1 hpiece ▸ habsent
  | @next piece rest pieces hfirst _ ih =>
    refine List.forall_mem_cons.2 ⟨?_, ih⟩
    rintro ⟨front, back, rfl⟩
    have hnonempty : separator ++ back ≠ [] := List.append_ne_nil_of_left_ne_nil hsep back
    refine hfirst front (separator ++ back) (List.append_assoc _ _ _) hnonempty ?_
    rw [List.append_assoc]
    exact List.prefix_append _ _

/-! ### Seams -/

/-- What begins with a character that the separator does not hold is behind the separator. -/
theorem prefix_of_prefix_append (hv : ∀ c ∈ v.head?, c ∉ separator)
    (h : separator <+: u ++ v) : separator <+: u := by
  cases v with
  | nil => rwa [List.append_nil] at h
  | cons c v =>
    rcases List.prefix_or_prefix_of_prefix h (List.prefix_append u (c :: v)) with hu | hu
    · exact hu
    · rcases hu with ⟨rest, rfl⟩
      cases rest with
      | nil => simp
      | cons d rest =>
        rw [List.prefix_append_right_inj, List.cons_prefix_cons] at h
        exact absurd (List.mem_append_right u List.mem_cons_self) (h.1 ▸ hv c rfl)

/-- No occurrence lies across the seam. -/
theorem infix_append_iff (hv : ∀ c ∈ v.head?, c ∉ separator) :
    separator <:+: u ++ v ↔ separator <:+: u ∨ separator <:+: v := by
  constructor
  · rintro ⟨front, back, h⟩
    rw [List.append_assoc, List.append_eq_append_iff] at h
    rcases h with ⟨w, rfl, h⟩ | ⟨w, rfl, h⟩
    -- An occurrence that begins in the first text ends there too, as the second does not go on with
    -- a character of the separator.
    · have hprefix : separator <+: w ++ v := ⟨back, h⟩
      have hw := (prefix_of_prefix_append hv hprefix).isInfix
      exact Or.inl (hw.trans (List.suffix_append front w).isInfix)
    · exact Or.inr ⟨w, back, by rw [List.append_assoc, h]⟩
  · intro h
    rcases h with h | h
    · exact h.trans (List.prefix_append u v).isInfix
    · exact h.trans (List.suffix_append u v).isInfix

/-- The first piece of a text grows by what stands in front of the text. -/
theorem Cuts.prepend {first : List Char} (h : Cuts separator v (first :: pieces))
    (hv : ∀ c ∈ v.head?, c ∉ separator) (hu : ¬ separator <:+: u) :
    Cuts separator (u ++ v) ((u ++ first) :: pieces) := by
  cases h with
  | last habsent => exact .last fun hinside => ((infix_append_iff hv).1 hinside).elim hu habsent
  | @next _ rest _ hfirst hrest =>
    rw [← List.append_assoc]
    refine .next (fun front back hpiece hback hbegins => ?_) hrest
    rw [List.append_eq_append_iff] at hpiece
    rcases hpiece with ⟨w, rfl, hw⟩ | ⟨w, rfl, rfl⟩
    · exact hfirst w back hw hback hbegins
    · -- An occurrence that begins in front of the seam would end there too.
      rw [List.append_assoc] at hbegins
      have hhead : ∀ c ∈ (first ++ separator).head?, c ∉ separator := by
        intro c hc
        refine hv c ?_
        rw [← List.append_assoc, List.head?_append, hc]
        rfl
      have hinside := (prefix_of_prefix_append hhead hbegins).isInfix
      exact hu (hinside.trans (List.suffix_append front w).isInfix)

/-- Two texts that are put together are cut like each of them by itself: only the last piece of the
    first text and the first piece of the second become one. -/
theorem Cuts.append {front last first back} (hv : ∀ c ∈ v.head?, c ∉ separator)
    (hsecond : Cuts separator v (first :: back)) (h : Cuts separator u (front ++ [last])) :
    Cuts separator (u ++ v) (front ++ (last ++ first) :: back) := by
  generalize hpieces : front ++ [last] = pieces at h
  induction h generalizing front with
  | last habsent =>
    obtain ⟨rfl, rfl⟩ : front = [] ∧ last = _ := by
      cases front with
      | nil => exact ⟨rfl, (List.cons.inj hpieces).1⟩
      | cons piece front =>
        exact absurd (List.cons.inj hpieces).2 (List.append_ne_nil_of_right_ne_nil _ (by simp))
    exact hsecond.prepend hv habsent
  | @next piece rest pieces hfirst hrest ih =>
    cases front with
    | nil =>
      obtain rfl := (List.cons.inj hpieces).2
      cases hrest
    -- The first piece has been cut off before the seam, so it is a piece of the whole as it is.
    | cons piece' front =>
      obtain ⟨rfl, hfront⟩ := List.cons.inj hpieces
      rw [List.append_assoc, List.append_assoc, List.cons_append]
      exact .next hfirst (ih hfront)

end Cuts

end Text

end FiniteState
