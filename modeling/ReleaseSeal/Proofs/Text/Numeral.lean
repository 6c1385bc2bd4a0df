import Mathlib.Algebra.Group.Nat.Defs
import Mathlib.Data.List.TakeDrop
import ReleaseSeal.Text.Numeral

/-!
# Hexadecimal digits

A number that fits in a width is written by as many digits as the width says, each of them by itself.

## Key results

- `toList_hexPadded`: the digits of a number
-/

namespace ReleaseSeal.Text

/-- The digits of a number up to a width: those in front of the last, and the last. -/
theorem hexPadded_succ (width n : Nat) :
    (hexPadded (width + 2) n).toList =
      (hexPadded (width + 1) (n / 16)).toList ++ [Nat.digitChar (n % 16)] := by
  simp only [hexPadded, String.toList_ofList]
  by_cases hlt : n < 16
  · -- the digit in front of it is a zero as well
    rw [Nat.toDigits_of_lt_base hlt, Nat.div_eq_of_lt hlt, Nat.mod_eq_of_lt hlt,
      Nat.toDigits_of_lt_base (by decide)]
    simp [List.replicate_succ', Nat.digitChar]
  · rw [Nat.toDigits_of_base_le (by decide) (by omega)]
    simp

/-- The digits of a number that fits in a width. -/
theorem toList_hexPadded {width n : Nat} (h : n < 16 ^ (width + 1)) :
    (hexPadded (width + 1) n).toList =
      ((List.range (width + 1)).map fun i => Nat.digitChar (n / 16 ^ i % 16)).reverse := by
  induction width generalizing n with
  | zero =>
    have hn : n < 16 := by simpa using h
    simp [hexPadded, Nat.toDigits_of_lt_base hn, Nat.mod_eq_of_lt hn]
  | succ width ih =>
    have hn : n / 16 < 16 ^ (width + 1) := by
      rw [Nat.div_lt_iff_lt_mul (by decide), ← Nat.pow_succ]
      exact h
    -- the last digit stands apart, and those in front of it are the digits of what remains
    have hrange : List.range (width + 2) = 0 :: (List.range (width + 1)).map Nat.succ :=
      List.range_succ_eq_map
    rw [hexPadded_succ, ih hn, hrange, List.map_cons, List.reverse_cons, List.map_map]
    simp only [Function.comp_def, Nat.succ_eq_add_one, Nat.pow_succ', Nat.div_div_eq_div_mul,
      Nat.pow_zero, Nat.div_one]

end ReleaseSeal.Text
