import ReleaseSeal.Proofs.Bytes.Listing

/-!
# Byte strings with blanked bytes

`Blanked p before after` says what a byte string has become when the bytes at some offsets were set to
zero and all others kept. Blanking step by step blanks what any step blanks (`Blanked.trans`), so that
neither the order nor an overlap of the steps matters.

## Key results

- `blanked_blank`: blanking a range
- `Blanked.trans`: blanking in two steps
- `Blanked.unique`: the blanked offsets determine the result
-/

namespace ReleaseSeal

/-- A byte that may be blanked stays the same exactly if it is not blanked, or was zero anyway. -/
theorem blanked_eq_iff {p : Prop} {before after : UInt8} (hzero : p → after = 0)
    (hkeep : ¬p → after = before) : after = before ↔ (p → before = 0) := by
  constructor
  · intro hsame hp
    rw [← hsame, hzero hp]
  · intro hbefore
    by_cases hp : p
    · rw [hzero hp, hbefore hp]
    · exact hkeep hp

/-- The bytes after those at the offsets of a predicate were set to zero. -/
structure Blanked (p : Nat → Prop) (before after : ByteArray) : Prop where
  size_eq : after.size = before.size
  zero : ∀ i, p i → byteAt after i = 0
  keep : ∀ i, ¬p i → byteAt after i = byteAt before i

theorem blanked_blank (bytes : ByteArray) (start length : Nat) :
    Blanked (fun i => start ≤ i ∧ i < start + length) bytes (blank bytes start length) where
  size_eq := size_blank bytes start length
  zero i hi := by rw [byteAt_blank, if_pos hi]
  keep i hi := by rw [byteAt_blank, if_neg hi]

namespace Blanked

variable {p q : Nat → Prop} {a b c : ByteArray}

theorem refl (a : ByteArray) : Blanked (fun _ => False) a a where
  size_eq := rfl
  zero _ h := h.elim
  keep _ _ := rfl

theorem trans (hab : Blanked p a b) (hbc : Blanked q b c) : Blanked (fun i => p i ∨ q i) a c where
  size_eq := hbc.size_eq.trans hab.size_eq
  zero i hi := by
    by_cases hq : q i
    · exact hbc.zero i hq
    · -- what the second step keeps is as the first has left it
      rw [hbc.keep i hq]
      exact hab.zero i (hi.resolve_right hq)
  keep i hi := by
    rw [not_or] at hi
    rw [hbc.keep i hi.2, hab.keep i hi.1]

theorem congr (hab : Blanked p a b) (h : ∀ i, q i ↔ p i) : Blanked q a b where
  size_eq := hab.size_eq
  zero i hi := hab.zero i ((h i).mp hi)
  keep i hi := hab.keep i fun hp => hi ((h i).mpr hp)

/-- A byte is kept or is zero. -/
theorem eq_or_zero (hab : Blanked p a b) (i : Nat) : byteAt b i = byteAt a i ∨ byteAt b i = 0 := by
  by_cases hi : p i
  · exact .inr (hab.zero i hi)
  · exact .inl (hab.keep i hi)

/-- The front of a byte string with blanked bytes. -/
theorem byteAt_front (hab : Blanked p a b) (hfront : c = b.extract 0 c.size) {i : Nat}
    (hi : i < c.size) : (p i → byteAt c i = 0) ∧ (¬p i → byteAt c i = byteAt a i) := by
  have hbyte : byteAt c i = byteAt b i := by
    rw [hfront, byteAt_extract, Nat.zero_add, if_pos hi]
  rw [hbyte]
  exact ⟨hab.zero i, hab.keep i⟩

/-- The blanked offsets determine the result. -/
theorem unique (hab : Blanked p a b) (hac : Blanked p a c) : b = c := by
  refine eq_of_byteAt_eq (hab.size_eq.trans hac.size_eq.symm) fun i _ => ?_
  by_cases hi : p i
  · rw [hab.zero i hi, hac.zero i hi]
  · rw [hab.keep i hi, hac.keep i hi]

end Blanked

end ReleaseSeal
