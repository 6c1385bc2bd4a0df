/-!
# Slices of a byte string

Reading and blanking ranges of a `ByteArray` by plain offsets. A range that leaves the bytes is
clipped when it is read and ignored when it is blanked, so these functions are total; the callers
check their ranges and never rely on the clipping. Blanking a range changes its own bytes only
(`byteAt_blank`).
-/

namespace ReleaseSeal

/-- The bytes from `start` on, at most `length` of them, as a list. -/
def sliceList (bytes : ByteArray) (start length : Nat) : List UInt8 :=
  (bytes.extract start (start + length)).data.toList

/-- The bytes from `start` on, at most `length` of them. -/
def slice (bytes : ByteArray) (start length : Nat) : ByteArray :=
  bytes.extract start (start + length)

/-- The byte at an offset, zero past the end. -/
def byteAt (bytes : ByteArray) (i : Nat) : UInt8 :=
  if h : i < bytes.size then bytes[i] else 0

/-- The bytes with `length` of them, from `start` on, set to zero. -/
def blank (bytes : ByteArray) (start : Nat) : Nat → ByteArray
  | 0 => bytes
  | length + 1 => blank (bytes.set! start 0) (start + 1) length

@[simp] theorem size_blank (bytes : ByteArray) (start length : Nat) :
    (blank bytes start length).size = bytes.size := by
  induction length generalizing bytes start with
  | zero => rfl
  | succ length ih => rw [blank, ih, ByteArray.size_set!]

/-- Setting one byte to zero changes that byte only; past the end it changes nothing. -/
theorem byteAt_set_zero (bytes : ByteArray) (start i : Nat) :
    byteAt (bytes.set! start 0) i = if i = start then 0 else byteAt bytes i := by
  unfold byteAt
  by_cases hi : i < bytes.size
  · have hset : i < (bytes.set! start 0).size := by rw [ByteArray.size_set!]; exact hi
    rw [dif_pos hi, dif_pos hset]
    by_cases h : i = start
    · subst h
      rw [if_pos rfl]
      exact ByteArray.getElem_set!_self bytes i 0 hi
    · rw [if_neg h]
      exact ByteArray.getElem_set!_ne bytes start i 0 (Ne.symm h) hi
  · have hset : ¬i < (bytes.set! start 0).size := by rw [ByteArray.size_set!]; exact hi
    rw [dif_neg hi, dif_neg hset, ite_self]

/-- Blanking a range sets its bytes to zero and changes no other. -/
theorem byteAt_blank (bytes : ByteArray) (start length i : Nat) :
    byteAt (blank bytes start length) i =
      if start ≤ i ∧ i < start + length then 0 else byteAt bytes i := by
  induction length generalizing bytes start with
  | zero =>
    have h : ¬(start ≤ i ∧ i < start + 0) := by omega
    rw [if_neg h, blank]
  | succ length ih =>
    rw [blank, ih, byteAt_set_zero]
    grind

theorem length_sliceList {bytes : ByteArray} {start length : Nat} (h : start + length ≤ bytes.size) :
    (sliceList bytes start length).length = length := by
  have hsize :
      (sliceList bytes start length).length = (bytes.extract start (start + length)).size := rfl
  rw [hsize, ByteArray.size_extract]
  omega

theorem size_slice {bytes : ByteArray} {start length : Nat} (h : start + length ≤ bytes.size) :
    (slice bytes start length).size = length := by
  rw [slice, ByteArray.size_extract]
  omega

end ReleaseSeal
