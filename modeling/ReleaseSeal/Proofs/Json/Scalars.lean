import Mathlib.Data.List.TakeDrop
import ReleaseSeal.Json.Printer
import ReleaseSeal.Json.Reader
import ReleaseSeal.Proofs.Text.Numeral

/-!
# Numbers and texts that were written are read back

The writer gives a character outside ASCII by its UTF-16 units and an integer by its digits. The reader
takes both back, and stops where they end: a text at its closing quote, a number in front of anything
that cannot be a part of it.

## Key results

- `unit?_hexPadded`: a unit that was written is read back
- `textFrom_escapedChar`: so is a character
- `textFrom_flatMap_escapedChar`: so is a text
- `number?_toString`: so is an integer
-/

namespace ReleaseSeal.Json

variable {n : Nat} {cs rest : List Char}

/-! ## Units -/

/-- The four digits of a unit. -/
theorem toList_hexPadded_four (h : n < 0x10000) :
    (Text.hexPadded 4 n).toList =
      [Nat.digitChar (n / 4096), Nat.digitChar (n / 256 % 16), Nat.digitChar (n / 16 % 16),
        Nat.digitChar (n % 16)] := by
  have hfirst : n / 4096 % 16 = n / 4096 := Nat.mod_eq_of_lt (by omega)
  have hdigits : (Text.hexPadded 4 n).toList = _ := Text.toList_hexPadded h
  simpa [List.range_succ, hfirst] using hdigits

theorem hexDigit?_digitChar (h : n < 16) :
    (if (Nat.digitChar n).toNat < 0x80 then Text.hexDigit? (Nat.digitChar n) else none) = some n := by
  revert n
  decide

theorem unit?_hexPadded (h : n < 0x10000) :
    unit? ((Text.hexPadded 4 n).toList ++ rest) = some (n, rest) := by
  rw [toList_hexPadded_four h]
  simp only [List.cons_append, List.nil_append, unit?]
  rw [hexDigit?_digitChar (by omega), hexDigit?_digitChar (by omega), hexDigit?_digitChar (by omega),
    hexDigit?_digitChar (by omega)]
  simp only [Option.bind_eq_bind, Option.bind_some, Option.pure_def, Text.ofDigitList,
    List.foldl_cons, List.foldl_nil]
  congr 2
  omega

/-! ## Characters -/

theorem scalar?_toNat (c : Char) : Text.scalar? c.toNat = some c := by
  have hvalid : c.toNat.isValidChar := c.valid
  rw [Text.scalar?, dif_pos hvalid]
  rfl

/-- No character has the number of a surrogate. -/
theorem toNat_range (c : Char) : c.toNat < 0xd800 ∨ 0xdfff < c.toNat ∧ c.toNat < 0x110000 :=
  c.valid

/-- A character of one unit. -/
theorem escape?_unit (c : Char) (h : c.toNat < 0x10000) :
    escape? ('u' :: ((Text.hexPadded 4 c.toNat).toList ++ rest)) = some (c, rest) := by
  have hsurrogate : ¬(0xd800 ≤ c.toNat ∧ c.toNat < 0xdc00) := by
    have := toNat_range c
    omega
  simp [escape?, unit?_hexPadded h, hsurrogate, scalar?_toNat]

/-- A character of two units. -/
theorem escape?_pair {c : Char} {high low : Nat} (hhigh : high < 1024) (hlow : low < 1024)
    (hc : 0x10000 + high * 1024 + low = c.toNat) :
    escape? ('u' :: ((Text.hexPadded 4 (0xd800 + high)).toList ++
      ('\\' :: 'u' :: ((Text.hexPadded 4 (0xdc00 + low)).toList ++ rest)))) = some (c, rest) := by
  have hfirst : 0xd800 ≤ 0xd800 + high ∧ 0xd800 + high < 0xdc00 := by omega
  have hsecond : 0xdc00 ≤ 0xdc00 + low ∧ 0xdc00 + low < 0xe000 := by omega
  have hunits : 0xd800 + high < 0x10000 ∧ 0xdc00 + low < 0x10000 := by omega
  rw [escape?]
  simp only [unit?_hexPadded hunits.1, Option.bind_eq_bind, Option.bind_some]
  rw [if_pos (by simpa using hfirst)]
  simp only [unit?_hexPadded hunits.2, Option.bind_some]
  rw [if_pos (by simpa using hsecond), Nat.add_sub_cancel_left, Nat.add_sub_cancel_left, hc,
    scalar?_toNat]
  rfl

theorem textFrom_escape {fuel : Nat} {acc : List Char} {c : Char}
    (h : escape? cs = some (c, rest)) :
    textFrom (fuel + 1) acc ('\\' :: cs) = textFrom fuel (c :: acc) rest := by
  rw [textFrom, h]
  rfl

/-- A character that was written is read back. -/
theorem textFrom_escapedChar (fuel : Nat) (acc : List Char) (c : Char) :
    textFrom (fuel + 1) acc (escapedChar c ++ rest) = textFrom fuel (c :: acc) rest := by
  simp only [escapedChar]
  -- the characters that are told apart by themselves
  iterate 5
    split
    · subst c
      exact textFrom_escape rfl
  split
  · rename_i hnumber
    obtain rfl : c = '\x08' := Char.toNat_inj.mp hnumber
    exact textFrom_escape rfl
  split
  · rename_i hnumber
    obtain rfl : c = '\x0c' := Char.toNat_inj.mp hnumber
    exact textFrom_escape rfl
  split
  · -- a character that stands for itself
    rename_i hquote hbackslash _ _ _ _ _ hprinted
    simp only [Bool.and_eq_true, decide_eq_true_eq] at hprinted
    rw [List.singleton_append, textFrom, if_neg (by omega)]
    · exact hquote
    · exact hbackslash
  split
  · rename_i hunit
    exact textFrom_escape (escape?_unit c hunit)
  · rename_i hpair
    obtain ⟨offset, hoffset⟩ := Nat.exists_eq_add_of_le (Nat.le_of_not_lt hpair)
    have hrange := toNat_range c
    have hsubtracted : c.toNat - 0x10000 = offset := by rw [hoffset, Nat.add_sub_cancel_left]
    rw [escapedUnit, escapedUnit, List.append_assoc, hsubtracted]
    refine textFrom_escape (escape?_pair (by omega) (by omega) ?_)
    rw [Nat.add_assoc, Nat.div_add_mod', ← hoffset]

theorem escapedChar_ne_nil (c : Char) : escapedChar c ≠ [] := by
  simp only [escapedChar, escapedUnit]
  repeat' split
  all_goals exact List.cons_ne_nil _ _

/-- A text that was written is read back, up to its closing quote. -/
theorem textFrom_flatMap_escapedChar (s : List Char) {fuel : Nat} (acc : List Char)
    (hfuel : (s.flatMap escapedChar).length < fuel) :
    textFrom fuel acc (s.flatMap escapedChar ++ '"' :: rest) = some (acc.reverse ++ s, rest) := by
  induction s generalizing fuel acc with
  | nil =>
    obtain _ | fuel := fuel
    · cases hfuel
    · simp [textFrom]
  | cons c s ih =>
    obtain _ | fuel := fuel
    · cases hfuel
    have hlength := List.length_pos_iff.mpr (escapedChar_ne_nil c)
    rw [List.flatMap_cons, List.length_append] at hfuel
    rw [List.flatMap_cons, List.append_assoc, textFrom_escapedChar, ih (c :: acc) (by omega)]
    simp

/-! ## Integers -/

/-- A number ends in front of a text that starts with nothing that continues it. -/
def EndsNumber (rest : List Char) : Prop :=
  ∀ c ∈ rest.head?, c.isDigit = false ∧ c ≠ '.' ∧ c ≠ 'e' ∧ c ≠ 'E'

theorem digits_append (hcs : ∀ c ∈ cs, c.isDigit = true) (hrest : EndsNumber rest) :
    digits (cs ++ rest) = (cs.map fun c => c.toNat - 48, rest) := by
  have hspan : (cs ++ rest).span Char.isDigit = (cs, rest) := by
    rw [List.span_eq_takeWhile_dropWhile, List.takeWhile_append_of_pos hcs,
      List.dropWhile_append_of_pos hcs]
    cases rest with
    | nil => simp
    | cons c rest => simp [(hrest c rfl).1]
  rw [digits, hspan]

theorem exponent?_of_endsNumber (hrest : EndsNumber rest) : exponent? rest = some (none, rest) := by
  cases rest with
  | nil => rfl
  | cons c rest =>
    obtain ⟨-, -, hlower, hupper⟩ := hrest c rfl
    simp [exponent?, hlower, hupper]

theorem isDigit_toDigits (n : Nat) : ∀ c ∈ Nat.toDigits 10 n, c.isDigit = true := fun _ hc =>
  Nat.isDigit_of_mem_toDigits (by decide) (by decide) hc

/-- There is a first digit. -/
theorem exists_toDigits (n : Nat) : ∃ c cs, Nat.toDigits 10 n = c :: cs ∧ c.isDigit = true := by
  obtain ⟨c, cs, hcs⟩ := List.exists_cons_of_ne_nil (Nat.toDigits_ne_nil (n := n) (b := 10))
  exact ⟨c, cs, hcs, isDigit_toDigits n c (by simp [hcs])⟩

/-- The values of the digits of a number. -/
theorem ofDigitList_toDigits (n : Nat) :
    Text.ofDigitList 10 ((Nat.toDigits 10 n).map fun c => c.toNat - 48) = n := by
  have hvalue := Nat.ofDigitChars_toDigits (b := 10) (n := n) (by decide) (by decide)
  rw [Nat.ofDigitChars] at hvalue
  rw [Text.ofDigitList, List.foldl_map]
  simpa only [Nat.mul_comm, Char.reduceToNat] using hvalue

/-- A number other than zero does not start with the digit zero. -/
theorem head?_toDigits (h : 0 < n) :
    ((Nat.toDigits 10 n).map fun c => c.toNat - 48).head? ≠ some 0 := by
  induction n using Nat.strongRecOn with
  | _ n ih =>
    by_cases hlt : n < 10
    · rw [Nat.toDigits_of_lt_base hlt, List.map_singleton, Nat.toNat_digitChar_sub_48_of_lt_ten hlt]
      simpa using Nat.ne_of_gt h
    · rw [Nat.toDigits_of_base_le (by decide) (by omega), List.map_append, List.head?_append]
      have hhead := ih (n / 10) (by omega) (by omega)
      -- there are digits in front of the last
      obtain ⟨c, cs, hcs, -⟩ := exists_toDigits (n / 10)
      rw [hcs] at hhead ⊢
      simpa using hhead

/-- The digits of a number have no needless zero in front. -/
theorem not_leadingZero (n : Nat) :
    let whole := (Nat.toDigits 10 n).map fun c => c.toNat - 48
    ¬(whole.isEmpty || (whole.head? == some 0 && whole.length > 1)) = true := by
  intro whole
  obtain rfl | hpos := Nat.eq_zero_or_pos n
  · decide
  · have hne : whole ≠ [] := by simp [whole, Nat.toDigits_ne_nil]
    have hhead : whole.head? ≠ some 0 := head?_toDigits hpos
    simp [hne, hhead]

/-- The digits of an integer behind its sign, if it has one. -/
theorem number?_digits (negative : Bool) (n : Nat) (hrest : EndsNumber rest) :
    number? ((if negative then ['-'] else []) ++ (Nat.toDigits 10 n ++ rest)) =
      some (int (if negative then -n else n), rest) := by
  unfold number?
  split
  rename_i sign body hsign
  obtain ⟨rfl, rfl⟩ : negative = sign ∧ Nat.toDigits 10 n ++ rest = body := by
    cases negative with
    | true => simpa using hsign
    | false =>
      -- the first digit is no sign
      obtain ⟨c, cs, hcs, hdigit⟩ := exists_toDigits n
      rw [hcs] at hsign ⊢
      have hc : c ≠ '-' := by
        rintro rfl
        simp at hdigit
      simpa [hc] using hsign
  rw [digits_append (isDigit_toDigits n) hrest]
  dsimp only
  rw [if_neg (not_leadingZero n)]
  split
  · -- no point follows
    exact absurd rfl (hrest '.' rfl).2.1
  · simp [exponent?_of_endsNumber hrest, ofDigitList_toDigits]

theorem toList_toString (n : Int) :
    (toString n).toList = (if decide (n < 0) then ['-'] else []) ++ Nat.toDigits 10 n.natAbs := by
  rw [Int.toString_eq_repr]
  cases n with
  | ofNat n =>
    simp [Int.repr, Nat.repr_eq_ofList_toDigits]
  | negSucc n =>
    simp [Int.repr, Int.negSucc_lt_zero, Nat.repr_eq_ofList_toDigits]

/-- An integer that was written is read back. -/
theorem number?_toString (n : Int) (hrest : EndsNumber rest) :
    number? ((toString n).toList ++ rest) = some (int n, rest) := by
  have hvalue : (if decide (n < 0) then -(n.natAbs : Int) else n.natAbs) = n := by
    by_cases hneg : n < 0
    · simp only [hneg, decide_true, if_true]
      omega
    · simp only [hneg, decide_false, Bool.false_eq_true, if_false]
      omega
  rw [toList_toString, List.append_assoc, number?_digits _ _ hrest, hvalue]

end ReleaseSeal.Json
