import FiniteState.Proofs.Acceptance
import FiniteState.Proofs.Thompson

/-!
# Trees without an Automaton

A tree has an automaton exactly if all of its characters are symbols and none is missing. Otherwise
the first character that is no symbol is reported, or that there is none, where leaves come from
left to right, the symbols of a leaf in their order, and a range from its lower end upwards.

Which character that is can be said without the automaton: everything before it is supported. The
relation has one constructor for each place where a tree can hold such a character, and one for the
leaf that holds none, so its derivations are the ways to it, and the report is found by following
one of them.

## Main definitions

* `Regex.Within`: A tree is part of another.
* `Regex.FirstUnsupported`: The first character of a tree that is no symbol or is missing.
* `Regex.unsupportedFault`: What is reported of it.

## Theorems

* `find?_charactersBetween`: The first character of a range that is no symbol is the least one.
* `Regex.exists_firstUnsupported`: A tree that is not supported holds such a character.
* `Regex.FirstUnsupported.compile_eq_error`: Because of it, the tree has no automaton.
* `Regex.compile_iff_supported`: A tree has an automaton for its language, or a character that is
  reported.
-/

namespace FiniteState

/-- A list whose members do not all have a property is cut before the first that has it not. -/
theorem exists_first_not {α : Type} {holds : α → Prop} {items : List α}
    (h : ¬ ∀ x ∈ items, holds x) :
    ∃ before x after, items = before ++ x :: after ∧ (∀ y ∈ before, holds y) ∧ ¬ holds x := by
  induction items with
  | nil => simp at h
  | cons x rest ih =>
    by_cases hx : holds x
    · have hrest : ¬ ∀ y ∈ rest, holds y :=
        fun hrest => h (List.forall_mem_cons.2 ⟨hx, hrest⟩)
      rcases ih hrest with ⟨before, y, after, rfl, hbefore, hy⟩
      exact ⟨x :: before, y, after, rfl, List.forall_mem_cons.2 ⟨hx, hbefore⟩, hy⟩
    · exact ⟨[], x, rest, rfl, by simp, hx⟩

theorem checkSymbols_eq_error {characters : List Char} {c : Char}
    (h : characters.find? (fun d => !isSymbol d) = some c) :
    checkSymbols characters = .error (.invalidSymbol (String.singleton c)) := by
  rw [checkSymbols, h]

/-- The first character of a range that is no symbol is the least one. -/
theorem find?_charactersBetween {low high c : Char} (hlow : low ≤ c) (hhigh : c ≤ high)
    (hleast : ∀ d, low ≤ d → d < c → isSymbol d = true) (hc : isSymbol c = false) :
    (charactersBetween low high).find? (fun d => !isSymbol d) = some c := by
  have hle : ∀ a b : Char, a ≤ b ↔ a.toNat ≤ b.toNat := fun _ _ => UInt32.le_iff_toNat_le
  have hlt : ∀ a b : Char, a < b ↔ a.toNat < b.toNat := fun _ _ => UInt32.lt_iff_toNat_lt
  rw [hle] at hlow hhigh
  simp only [hle, hlt] at hleast
  have hcode : (List.range' low.toNat (high.toNat + 1 - low.toNat)).find?
      ((fun d => !isSymbol d) ∘ Char.ofNat) = some c.toNat := by
    rw [List.find?_range'_eq_some]
    have hmem := List.mem_range'_1.2 (by omega : low.toNat ≤ c.toNat ∧
      c.toNat < low.toNat + (high.toNat + 1 - low.toNat))
    refine ⟨by simp [Char.ofNat_toNat, hc], hmem, fun code hge hless => ?_⟩
    -- No code below that of `c` is too large for a symbol, as the lower end is a symbol, and 256
    -- would come before `c`.
    have hsmall : code ≤ 255 := by
      by_contra hlarge
      have hfirst := (isSymbol_eq_true_iff.1 (hleast low (Nat.le_refl _) (by omega))).2
      have htoNat : (Char.ofNat 256).toNat = 256 := rfl
      exact absurd (hleast (Char.ofNat 256) (by omega) (by omega)) (by decide)
    have htoNat := toNat_ofNat (Or.inl (by omega) : code.isValidChar)
    simp [hleast (Char.ofNat code) (by omega) (by omega)]
  rw [charactersBetween, List.find?_map, hcode, Option.map_some, Char.ofNat_toNat]

namespace Regex

/-- A tree is part of another: it is that tree, or part of one of the children. -/
inductive Within (part : Regex) : Regex → Prop
  | itself : Within part part
  | concatenation {parts : List Regex} {node : Regex} (hnode : node ∈ parts)
      (h : Within part node) : Within part (.concatenation parts)
  | alternation {branches : List Regex} {node : Regex} (hnode : node ∈ branches)
      (h : Within part node) : Within part (.alternation branches)
  | iteration {body : Regex} (h : Within part body) : Within part (.iteration body)
  | optional {body : Regex} (h : Within part body) : Within part (.optional body)

/-- A character is the first of a tree that is no symbol, or the first that there should be is
    missing. -/
inductive FirstUnsupported : Regex → Option Char → Prop
  | character {before after : List Char} {c : Char} (hbefore : ∀ d ∈ before, isSymbol d = true)
      (hc : isSymbol c = false) : FirstUnsupported (.character (before ++ c :: after)) (some c)
  | characterSet {before after : List (Char × Char)} {low high c : Char}
      (hbefore : (Regex.characterSet before).Supported) (hlow : low ≤ c) (hhigh : c ≤ high)
      (hleast : ∀ d, low ≤ d → d < c → isSymbol d = true) (hc : isSymbol c = false) :
      FirstUnsupported (.characterSet (before ++ (low, high) :: after)) (some c)
  | missing : FirstUnsupported .missing none
  | concatenation {before after : List Regex} {node : Regex} {c : Option Char}
      (hbefore : SupportedAll before) (hnode : FirstUnsupported node c) :
      FirstUnsupported (.concatenation (before ++ node :: after)) c
  | alternation {before after : List Regex} {node : Regex} {c : Option Char}
      (hbefore : SupportedAll before) (hnode : FirstUnsupported node c) :
      FirstUnsupported (.alternation (before ++ node :: after)) c
  | iteration {body : Regex} {c : Option Char} (hbody : FirstUnsupported body c) :
      FirstUnsupported (.iteration body) c
  | optional {body : Regex} {c : Option Char} (hbody : FirstUnsupported body c) :
      FirstUnsupported (.optional body) c

/-- What is reported of the first character that is no symbol or is missing. -/
def unsupportedFault : Option Char → Automaton.Fault
  | some c => .invalidSymbol (String.singleton c)
  | none => .missingCharacter

/-- A range with a character that is no symbol has a least one. -/
theorem exists_least_unsupported {low high : Char}
    (h : ¬ ∀ c, low ≤ c → c ≤ high → isSymbol c = true) :
    ∃ c, low ≤ c ∧ c ≤ high ∧ (∀ d, low ≤ d → d < c → isSymbol d = true) ∧
      isSymbol c = false := by
  classical
  have hcode : ∃ code, ∃ c : Char, c.toNat = code ∧ low ≤ c ∧ c ≤ high ∧ isSymbol c = false := by
    push Not at h
    rcases h with ⟨c, hlow, hhigh, hc⟩
    exact ⟨_, c, rfl, hlow, hhigh, Bool.eq_false_iff.2 hc⟩
  -- Codes are numbers, so there is a least one, and it belongs to one character only.
  rcases Nat.find_spec hcode with ⟨c, hleast, hlow, hhigh, hc⟩
  refine ⟨c, hlow, hhigh, fun d hd hdc => ?_, hc⟩
  by_contra hsymbol
  have hless : d.toNat < c.toNat := UInt32.lt_iff_toNat_lt.1 hdc
  have hd' : d ≤ high := Char.le_trans (UInt32.le_iff_toNat_le.2 hless.le) hhigh
  rw [hleast] at hless
  exact Nat.find_min hcode hless ⟨d, rfl, hd, hd', Bool.eq_false_iff.2 hsymbol⟩

mutual

/-- A tree that is not supported has a first character that is no symbol or is missing. -/
theorem exists_firstUnsupported : ∀ node : Regex, ¬ node.Supported →
    ∃ c, node.FirstUnsupported c
  | character symbols, h => by
    rcases exists_first_not h with ⟨before, c, after, rfl, hbefore, hc⟩
    exact ⟨some c, .character hbefore (Bool.eq_false_iff.2 hc)⟩
  | characterSet ranges, h => by
    rcases exists_first_not h with ⟨before, ⟨low, high⟩, after, rfl, hbefore, hrange⟩
    rcases exists_least_unsupported hrange with ⟨c, hlow, hhigh, hleast, hc⟩
    exact ⟨some c, .characterSet hbefore hlow hhigh hleast hc⟩
  | wildcard, h => absurd trivial h
  | missing, _ => ⟨none, .missing⟩
  | concatenation parts, h => by
    -- The first part that is not supported has it, and those before are supported.
    rcases exists_firstUnsupportedAll parts h with ⟨before, node, after, c, rfl, hbefore, hc⟩
    exact ⟨c, .concatenation hbefore hc⟩
  | alternation branches, h => by
    rcases exists_firstUnsupportedAll branches h with ⟨before, node, after, c, rfl, hbefore, hc⟩
    exact ⟨c, .alternation hbefore hc⟩
  | iteration body, h => by
    rcases exists_firstUnsupported body h with ⟨c, hc⟩
    exact ⟨c, .iteration hc⟩
  | optional body, h => by
    rcases exists_firstUnsupported body h with ⟨c, hc⟩
    exact ⟨c, .optional hc⟩

/-- So have trees that are not all supported, behind those that are. -/
theorem exists_firstUnsupportedAll : ∀ nodes : List Regex, ¬ SupportedAll nodes →
    ∃ before node after c, nodes = before ++ node :: after ∧ SupportedAll before ∧
      node.FirstUnsupported c
  | [], h => absurd trivial h
  | node :: rest, h => by
    by_cases hnode : node.Supported
    · have hrest : ¬ SupportedAll rest := fun hrest => h ⟨hnode, hrest⟩
      rcases exists_firstUnsupportedAll rest hrest with
        ⟨before, other, after, c, rfl, hbefore, hc⟩
      exact ⟨node :: before, other, after, c, rfl, ⟨hnode, hbefore⟩, hc⟩
    · rcases exists_firstUnsupported node hnode with ⟨c, hc⟩
      exact ⟨[], node, rest, c, rfl, trivial, hc⟩

end

theorem compileAll_eq_error {before after : List Regex} {node : Regex} {fault : Automaton.Fault}
    (hbefore : SupportedAll before) (hnode : node.compile = .error fault) :
    compileAll (before ++ node :: after) = .error fault := by
  induction before with
  | nil =>
    rw [List.nil_append, compileAll, hnode]
    rfl
  | cons first before ih =>
    rcases compile_eq_ok first hbefore.1 with ⟨A, hA, -⟩
    rw [List.cons_append, compileAll, hA, ih hbefore.2]
    rfl

/-- The first character that is no symbol or is missing is reported. -/
theorem FirstUnsupported.compile_eq_error {node : Regex} {c : Option Char}
    (h : node.FirstUnsupported c) : node.compile = .error (unsupportedFault c) := by
  induction h with
  | @character before after c hbefore hc =>
    have hfind : (before ++ c :: after).find? (fun d => !isSymbol d) = some c :=
      List.find?_eq_some_iff_append.2
        ⟨by simp [hc], before, after, rfl, fun d hd => by simp [hbefore d hd]⟩
    rw [compile, checkSymbols_eq_error hfind]
    rfl
  | @characterSet before after low high c hbefore hlow hhigh hleast hc =>
    have hranges : (before ++ (low, high) :: after).mapM
        (fun range => checkSymbols (charactersBetween range.1 range.2)) =
          .error (.invalidSymbol (String.singleton c)) := by
      -- The ranges before it are gone through, and this one stops the rest.
      refine mapM_eq_error (fun range hrange => ?_) ?_
      · exact ⟨_, checkSymbols_charactersBetween (hbefore range hrange)⟩
      · exact checkSymbols_eq_error (find?_charactersBetween hlow hhigh hleast hc)
    rw [compile, hranges]
    rfl
  | missing => rfl
  | concatenation hbefore _ ih =>
    rw [compile, compileAll_eq_error hbefore ih]
    rfl
  | alternation hbefore _ ih =>
    rw [compile, compileAll_eq_error hbefore ih]
    rfl
  | iteration _ ih =>
    rw [compile, ih]
    rfl
  | optional _ ih =>
    rw [compile, ih]
    rfl

theorem FirstUnsupported.not_supported {node : Regex} {c : Option Char}
    (h : node.FirstUnsupported c) : ¬ node.Supported := by
  intro hsupported
  rcases compile_eq_ok node hsupported with ⟨A, hA, -⟩
  exact absurd (hA.symm.trans h.compile_eq_error) (by simp)

/-- Different characters are reported differently. -/
theorem unsupportedFault_injective : Function.Injective unsupportedFault := by
  intro c d h
  cases c with
  | none =>
    cases d with
    | none => rfl
    | some d => exact nomatch h
  | some c =>
    cases d with
    | none => exact nomatch h
    | some d =>
      -- The message quotes the character, from which it is read back.
      have hlist := congrArg String.toList (Automaton.Fault.invalidSymbol.inj h)
      simpa using hlist

/-- No character but the first is the first. -/
theorem FirstUnsupported.unique {node : Regex} {c d : Option Char} (hc : node.FirstUnsupported c)
    (hd : node.FirstUnsupported d) : c = d :=
  unsupportedFault_injective
    (Except.error.inj (hc.compile_eq_error.symm.trans hd.compile_eq_error))

/-- A character can only be missing at a leaf. -/
theorem FirstUnsupported.within {node : Regex} (h : node.FirstUnsupported none) :
    Regex.missing.Within node := by
  generalize hnone : (none : Option Char) = first at h
  induction h with
  | character => exact nomatch hnone
  | characterSet => exact nomatch hnone
  | missing => exact .itself
  | concatenation _ _ ih => exact .concatenation (by simp) (ih hnone)
  | alternation _ _ ih => exact .alternation (by simp) (ih hnone)
  | iteration _ ih => exact .iteration (ih hnone)
  | optional _ ih => exact .optional (ih hnone)

/-- A tree with symbols only has an automaton, which accepts the language of the tree. For any other
    tree its first character that is no symbol is reported, or a leaf without a character, if that
    comes first. -/
theorem compile_iff_supported (node : Regex) :
    (node.Supported → ∃ A, node.compile = .ok A ∧
      ∀ word, A.accepts word = true ↔ word ∈ node.language) ∧
    (¬ node.Supported → ∃ first fault, (∀ other, node.FirstUnsupported other ↔ other = first) ∧
      node.compile = .error fault ∧
      (∀ c, first = some c → fault = .invalidSymbol (String.singleton c) ∧
        fault.message = "Invalid symbol: " ++ Text.quoted (String.singleton c)) ∧
      (first = none → fault = .missingCharacter ∧ missing.Within node)) := by
  constructor
  · intro h
    rcases compile_eq_ok node h with ⟨A, hA, hgated, hlanguage⟩
    refine ⟨A, hA, fun word => ?_⟩
    rw [Automaton.accepts_eq_true_iff hgated.wellFormed, hlanguage]
  · intro h
    rcases exists_firstUnsupported node h with ⟨first, hfirst⟩
    refine ⟨first, _, fun other => ⟨fun hother => hother.unique hfirst, ?_⟩,
      hfirst.compile_eq_error, ?_, ?_⟩
    · rintro rfl
      exact hfirst
    · rintro c rfl
      exact ⟨rfl, rfl⟩
    · rintro rfl
      exact ⟨rfl, hfirst.within⟩

/-- A tree that no pattern is read as: a leaf with two symbols, a range with its ends exchanged, a
    row of one part, and optional parts inside each other. -/
def irregularTree : Regex :=
  .alternation [.concatenation [.optional (.iteration (.optional (.character ['a', 'b'])))],
    .characterSet [('z', 'a')]]

/-- The same tree with two leaves before it that hold characters which are no symbols. -/
def foreignTree : Regex :=
  .concatenation [.characterSet [('a', 'c'), ('ÿ', 'ħ')], .character ['€'], irregularTree]

theorem compile_iff_supported_irregularTree :
    irregularTree.Supported ∧
      (∃ A, irregularTree.compile = .ok A ∧
        ∀ word, A.accepts word = true ↔ word ∈ irregularTree.language) ∧
      ¬ foreignTree.Supported ∧ foreignTree.FirstUnsupported (some 'Ā') ∧
      foreignTree.compile = .error (.invalidSymbol "Ā") := by
  have hle : ∀ a b : Char, a ≤ b → a.toNat ≤ b.toNat := fun _ _ => UInt32.le_iff_toNat_le.1
  have hregular : irregularTree.Supported := by
    simp only [irregularTree, Supported, SupportedAll, List.forall_mem_cons, List.not_mem_nil,
      false_implies, implies_true, and_true]
    refine ⟨by decide, fun c hlow hhigh => ?_⟩
    -- The range is the wrong way round, so it has no characters.
    exact absurd (Char.le_trans hlow hhigh) (by decide)
  have hfirst : foreignTree.FirstUnsupported (some 'Ā') := by
    have hleaf : (characterSet ([('a', 'c')] ++ [('ÿ', 'ħ')])).FirstUnsupported (some 'Ā') := by
      refine .characterSet ?_ (by decide) (by decide) ?_ (by decide)
      · intro range hrange c hlow hhigh
        rw [List.mem_singleton.1 hrange] at hlow hhigh
        have hlow' : 97 ≤ c.toNat := hle _ _ hlow
        have hhigh' : c.toNat ≤ 99 := hle _ _ hhigh
        exact isSymbol_eq_true_iff.2 (by omega)
      · intro d hlow hless
        have hlow' : 255 ≤ d.toNat := hle _ _ hlow
        have hless' : d.toNat < 256 := UInt32.lt_iff_toNat_lt.1 hless
        exact isSymbol_eq_true_iff.2 (by omega)
    have hbefore : SupportedAll [] := trivial
    exact .concatenation hbefore hleaf
  rcases (compile_iff_supported foreignTree).2 hfirst.not_supported with
    ⟨_, _, hunique, hcompile, hsymbol, -⟩
  obtain rfl := (hunique _).1 hfirst
  obtain ⟨rfl, -⟩ := hsymbol _ rfl
  exact ⟨hregular, (compile_iff_supported irregularTree).1 hregular, hfirst.not_supported, hfirst,
    hcompile⟩

end Regex

end FiniteState
