import ReleaseSeal.Proofs.Seal.Record
import ReleaseSeal.Proofs.Text.Blank

/-!
# The grammar of tints

What is left of a tint without the white space around it is nothing, or a color in six or eight
hexadecimal digits with one number sign in front or none; anything else is refused. The normal form is
the digits in upper case, so the number sign, the white space and the case of the digits leave no trace
in it, and it is its own normal form.

## Key results

- `color?_eq_some_iff`: which texts spell a color, and its normal form
- `normalTint?_decides`: what becomes of any text
-/

namespace ReleaseSeal.Seal

open Text (IsTrimmed isBlank isTrimmed_trimList trimList)

/-- The hexadecimal digits, those above nine in both cases. -/
def hexDigits : List Char := "0123456789ABCDEFabcdef".toList

/-- The digits of a color: three channels of two digits each, or four with the opacity. -/
structure IsColor (digits : List Char) : Prop where
  length : digits.length = 6 ∨ digits.length = 8
  isHex : ∀ c ∈ digits, c ∈ hexDigits

/-- A text spells a color by its digits, with one number sign in front or none. -/
structure Spells (cs digits : List Char) : Prop where
  sign : cs = digits ∨ cs = '#' :: digits
  isColor : IsColor digits

variable {cs digits : List Char} {c : Char} {t tint : String}

/-! ## Digits -/

/-- There are few enough digits to look at each. -/
theorem forall_mem_hexDigits {P : Char → Prop} [DecidablePred P]
    (hall : hexDigits.all (fun c => decide (P c)) = true) (h : c ∈ hexDigits) : P c :=
  of_decide_eq_true (List.all_eq_true.mp hall c h)

theorem isHexDigit_iff : isHexDigit c = true ↔ c ∈ hexDigits := by
  constructor
  · intro h
    apply forall_isHexDigit _ h
    decide
  · intro h
    apply forall_mem_hexDigits _ h
    decide

/-- A digit in upper case is a digit, has no other upper case and is no white space. -/
theorem toUpper_of_mem_hexDigits (h : c ∈ hexDigits) :
    c.toUpper ∈ hexDigits ∧ c.toUpper.toUpper = c.toUpper ∧ isBlank c.toUpper = false := by
  apply forall_mem_hexDigits _ h
  decide

/-- The upper case of a digit is that of its lower case. -/
theorem toUpper_toLower_of_mem_hexDigits (h : c ∈ hexDigits) : c.toLower.toUpper = c.toUpper := by
  apply forall_mem_hexDigits _ h
  decide

/-! ## Colors -/

/-- A color in upper case is a color. -/
theorem IsColor.upper (h : IsColor digits) : IsColor (digits.map Char.toUpper) where
  length := by
    rw [List.length_map]
    exact h.length
  isHex := by
    intro c hc
    obtain ⟨digit, hdigit, rfl⟩ := List.mem_map.mp hc
    exact (toUpper_of_mem_hexDigits (h.isHex digit hdigit)).1

theorem IsColor.upper_upper (h : IsColor digits) :
    (digits.map Char.toUpper).map Char.toUpper = digits.map Char.toUpper := by
  rw [List.map_map]
  apply List.map_congr_left
  intro c hc
  exact (toUpper_of_mem_hexDigits (h.isHex c hc)).2.1

/-- Colors that differ in the case of their digits have one upper case. -/
theorem IsColor.upper_eq_of_lower_eq {digits' : List Char} (h : IsColor digits) (h' : IsColor digits')
    (hlower : digits.map Char.toLower = digits'.map Char.toLower) :
    digits.map Char.toUpper = digits'.map Char.toUpper := by
  have hupper {ds : List Char} (hds : IsColor ds) :
      ds.map Char.toUpper = (ds.map Char.toLower).map Char.toUpper := by
    rw [List.map_map]
    apply List.map_congr_left
    intro c hc
    exact (toUpper_toLower_of_mem_hexDigits (hds.isHex c hc)).symm
  rw [hupper h, hupper h', hlower]

/-- There is nothing to trim from a color in upper case. -/
theorem IsColor.isTrimmed_upper (h : IsColor digits) :
    IsTrimmed isBlank (digits.map Char.toUpper) (digits.map Char.toUpper) := by
  have hplain : ∀ c ∈ digits.map Char.toUpper, isBlank c = false := by
    intro c hc
    obtain ⟨digit, hdigit, rfl⟩ := List.mem_map.mp hc
    exact (toUpper_of_mem_hexDigits (h.isHex digit hdigit)).2.2
  exact
    { split := ⟨[], [], by simp⟩
      head := fun c hc => hplain c (List.mem_of_mem_head? hc)
      last := fun c hc => hplain c (List.mem_of_getLast? hc) }

/-- The digits that a text spells are what it is without a number sign. -/
theorem Spells.withoutNumberSign_eq (h : Spells cs digits) : withoutNumberSign cs = digits := by
  obtain rfl | rfl := h.sign
  · unfold withoutNumberSign
    split
    · -- a number sign is no digit
      have hsign := h.isColor.isHex '#' List.mem_cons_self
      exact absurd hsign (by decide)
    · rfl
  · rfl

theorem Spells.ne_nil (h : Spells cs digits) : cs ≠ [] := by
  rintro rfl
  have hdigits : [] = digits := h.withoutNumberSign_eq
  subst hdigits
  simpa using h.isColor.length

theorem isColor_iff :
    IsColor digits ↔ (digits.length = 6 ∨ digits.length = 8) ∧ digits.all isHexDigit = true := by
  rw [List.all_eq_true]
  constructor
  · intro h
    exact ⟨h.length, fun c hc => isHexDigit_iff.mpr (h.isHex c hc)⟩
  · intro ⟨hlength, hall⟩
    exact { length := hlength, isHex := fun c hc => isHexDigit_iff.mp (hall c hc) }

/-- A text spells a color exactly by what it is without a number sign. -/
theorem spells_iff : Spells cs digits ↔ withoutNumberSign cs = digits ∧ IsColor digits := by
  constructor
  · intro h
    exact ⟨h.withoutNumberSign_eq, h.isColor⟩
  · intro ⟨hdigits, hcolor⟩
    refine { sign := ?_, isColor := hcolor }
    unfold withoutNumberSign at hdigits
    split at hdigits
    · exact .inr (by rw [hdigits])
    · exact .inl hdigits

/-- A text without white space around it has a normal form exactly if it spells a color: its digits in
    upper case. -/
theorem color?_eq_some_iff :
    color? cs = some tint ↔
      ∃ digits, Spells cs digits ∧ tint = String.ofList (digits.map Char.toUpper) := by
  simp only [spells_iff, color?, isColor_iff]
  constructor
  · intro h
    split at h
    · rename_i hcolor
      exact ⟨_, ⟨rfl, hcolor⟩, (Option.some.inj h).symm⟩
    · cases h
  · intro ⟨digits, ⟨hdigits, hcolor⟩, htint⟩
    subst hdigits
    rw [if_pos hcolor, htint]

/-! ## Tints -/

/-- The normal form of a tint from what is left of it without the white space around it. -/
theorem normalTint?_eq (h : IsTrimmed isBlank t.toList cs) :
    normalTint? t = if cs = [] then some none else (color? cs).map some := by
  rw [normalTint?, ← h.eq_trimList]
  cases cs with
  | nil => rfl
  | cons c cs => simp

theorem normalTint?_eq_none_tint_iff (h : IsTrimmed isBlank t.toList cs) :
    normalTint? t = some none ↔ cs = [] := by
  rw [normalTint?_eq h]
  split <;> simp_all

/-- A text has a tint in normal form exactly if it spells a color within white space. -/
theorem normalTint?_eq_some_iff (h : IsTrimmed isBlank t.toList cs) :
    normalTint? t = some (some tint) ↔
      ∃ digits, Spells cs digits ∧ tint = String.ofList (digits.map Char.toUpper) := by
  rw [normalTint?_eq h, ← color?_eq_some_iff]
  split
  · rename_i hnil
    -- nothing spells no color
    have hno : color? cs ≠ some tint := by
      intro hcolor
      obtain ⟨digits, hspells, -⟩ := color?_eq_some_iff.mp hcolor
      exact hspells.ne_nil hnil
    simp [hno]
  · simp

/-- Any other text is refused. -/
theorem normalTint?_eq_none_iff (h : IsTrimmed isBlank t.toList cs) :
    normalTint? t = none ↔ cs ≠ [] ∧ ¬∃ digits, Spells cs digits := by
  rw [normalTint?_eq h]
  split
  · simp_all
  · rename_i hne
    have hcolor : (∃ tint, color? cs = some tint) ↔ ∃ digits, Spells cs digits := by
      simp only [color?_eq_some_iff]
      constructor
      · intro ⟨_, digits, hspells, _⟩
        exact ⟨digits, hspells⟩
      · intro ⟨digits, hspells⟩
        exact ⟨_, digits, hspells, rfl⟩
    rw [← hcolor, ← Option.isSome_iff_exists, Option.map_eq_none_iff]
    simp [hne]

/-- The normal form of a color is its own normal form. -/
theorem IsColor.normalTint?_upper (h : IsColor digits) :
    normalTint? (String.ofList (digits.map Char.toUpper)) =
      some (some (String.ofList (digits.map Char.toUpper))) := by
  have htrimmed : IsTrimmed isBlank (String.ofList (digits.map Char.toUpper)).toList
      (digits.map Char.toUpper) := by
    rw [String.toList_ofList]
    exact h.isTrimmed_upper
  rw [normalTint?_eq_some_iff htrimmed]
  exact ⟨digits.map Char.toUpper, { sign := .inl rfl, isColor := h.upper }, by rw [h.upper_upper]⟩

/-- What becomes of a text as a tint, by what is left of it without the white space around it: there is no
    tint exactly if nothing is left; the digits in upper case are the tint exactly if a color is spelled;
    and any other text is refused, where a record with it fails as an invalid tint. A tint is in normal
    form and its own normal form, and colors that differ only in the case of their digits have the same. -/
theorem normalTint?_decides (t : String) (cs : List Char) (h : IsTrimmed isBlank t.toList cs) :
    (normalTint? t = some none ↔ cs = []) ∧
      (∀ tint, normalTint? t = some (some tint) ↔
        ∃ digits, Spells cs digits ∧ tint = String.ofList (digits.map Char.toUpper)) ∧
      (normalTint? t = none ↔ cs ≠ [] ∧ ¬∃ digits, Spells cs digits) ∧
      (∀ coreSize permissions assets failure,
        Record.assemble coreSize permissions assets (some t) = .error failure ↔
          normalTint? t = none ∧ failure = .invalidTint t) ∧
      (∀ tint, normalTint? t = some (some tint) →
        IsNormalTint tint ∧ normalTint? tint = some (some tint)) ∧
      ∀ t' cs' digits digits', IsTrimmed isBlank t'.toList cs' → Spells cs digits →
        Spells cs' digits' → digits.map Char.toLower = digits'.map Char.toLower →
        normalTint? t = normalTint? t' := by
  refine ⟨normalTint?_eq_none_tint_iff h, fun tint => normalTint?_eq_some_iff h,
    normalTint?_eq_none_iff h, ?_, ?_, ?_⟩
  · intro coreSize permissions assets failure
    unfold Record.assemble
    cases htint : normalTint? t with
    | none => simp [htint, eq_comm]
    | some tint => simp [htint]
  · intro tint htint
    refine ⟨isNormalTint_of_normalTint? htint, ?_⟩
    obtain ⟨digits, hspells, rfl⟩ := (normalTint?_eq_some_iff h).mp htint
    exact hspells.isColor.normalTint?_upper
  · intro t' cs' digits digits' h' hspells hspells' hlower
    have hupper := hspells.isColor.upper_eq_of_lower_eq hspells'.isColor hlower
    rw [(normalTint?_eq_some_iff h).mpr ⟨digits, hspells, rfl⟩,
      (normalTint?_eq_some_iff h').mpr ⟨digits', hspells', rfl⟩, hupper]

/-- A color between an em space and a line break, and the same color without either. -/
theorem normalTint?_decides_spaced :
    normalTint? "\u2003#AbCdEf\n" = some (some "ABCDEF") ∧
      normalTint? "\u2003#AbCdEf\n" = normalTint? "aBcDeF" := by
  have htrimmed : IsTrimmed isBlank "\u2003#AbCdEf\n".toList "#AbCdEf".toList := by
    have htrim : trimList isBlank "\u2003#AbCdEf\n".toList = "#AbCdEf".toList := by decide
    exact htrim ▸ isTrimmed_trimList _ _
  have htrimmed' : IsTrimmed isBlank "aBcDeF".toList "aBcDeF".toList := by
    have htrim : trimList isBlank "aBcDeF".toList = "aBcDeF".toList := by decide
    exact htrim ▸ isTrimmed_trimList _ _
  have hcolor : IsColor "AbCdEf".toList := isColor_iff.mpr (by decide)
  have hcolor' : IsColor "aBcDeF".toList := isColor_iff.mpr (by decide)
  obtain ⟨-, hsome, -, -, -, hcase⟩ := normalTint?_decides _ _ htrimmed
  have hspells : Spells "#AbCdEf".toList "AbCdEf".toList := { sign := .inr rfl, isColor := hcolor }
  exact ⟨(hsome _).mpr ⟨_, hspells, rfl⟩,
    hcase _ _ _ _ htrimmed' hspells { sign := .inl rfl, isColor := hcolor' } (by decide)⟩

end ReleaseSeal.Seal
