import ReleaseSeal.Proofs.Bytes.Blanked

/-!
# Assigning zeros to ranges

A buffer that can grow takes any bytes in place of a range: what it has of the range is replaced. If the
range leaves the buffer, the buffer becomes longer than it was. Inside the buffer the assignment keeps the
length and blanks the range, so that a series of assignments blanks what any of them covers, in whatever
order they are made.

## Key results

- `size_assignZeros_eq_iff`: which assignments keep the length
- `assignZeros_eq_blank`: inside the buffer an assignment is what `blank` does
- `blanked_foldl_assignZeros`: what assignments inside the buffer do
- `foldl_assignZeros_perm`: their order does not matter
-/

namespace ReleaseSeal

/-- A range of a byte string. -/
structure ByteRange where
  start : Nat
  length : Nat

namespace ByteRange

/-- Where the range ends. -/
def stop (r : ByteRange) : Nat := r.start + r.length

/-- The offset lies in the range. -/
def Has (r : ByteRange) (i : Nat) : Prop :=
  r.start ≤ i ∧ i < r.stop

end ByteRange

/-- The buffer after as many zeros as a range is long were assigned to the range. -/
def assignZeros (buffer : ByteArray) (r : ByteRange) : ByteArray :=
  ⟨(buffer.data.toList.take r.start ++
    (List.replicate r.length 0 ++ buffer.data.toList.drop r.stop)).toArray⟩

variable {buffer : ByteArray} {r : ByteRange} {rs rs' : List ByteRange}

theorem size_assignZeros (buffer : ByteArray) (r : ByteRange) :
    (assignZeros buffer r).size = min r.start buffer.size + (r.length + (buffer.size - r.stop)) := by
  rw [← length_data_toList, assignZeros]
  simp only [List.length_append, List.length_take, List.length_replicate, List.length_drop,
    length_data_toList]

/-- An assignment keeps the length of the buffer exactly if its range is inside the buffer or empty. -/
theorem size_assignZeros_eq_iff :
    (assignZeros buffer r).size = buffer.size ↔ r.stop ≤ buffer.size ∨ r.length = 0 := by
  rw [size_assignZeros, ByteRange.stop]
  omega

example : (assignZeros ⟨#[1, 2, 3]⟩ ⟨2, 3⟩).data = #[1, 2, 0, 0, 0] := by decide

/-- The byte at an offset as an element of the list, zero past the end. -/
theorem byteAt_eq_getElem?_getD (bytes : ByteArray) (i : Nat) :
    byteAt bytes i = (bytes.data.toList[i]?).getD 0 := by
  by_cases hi : i < bytes.data.toList.length
  · rw [byteAt_eq_getElem hi, List.getElem?_eq_getElem hi, Option.getD_some]
  · rw [List.getElem?_eq_none (Nat.le_of_not_lt hi), Option.getD_none]
    exact dif_neg hi

/-- An assignment inside the buffer, byte by byte. -/
theorem byteAt_assignZeros (h : r.stop ≤ buffer.size) (i : Nat) :
    byteAt (assignZeros buffer r) i =
      if r.start ≤ i ∧ i < r.stop then 0 else byteAt buffer i := by
  have hle : r.start ≤ r.stop := Nat.le_add_right ..
  have hlength : (buffer.data.toList.take r.start).length = r.start := by
    rw [List.length_take, length_data_toList, Nat.min_eq_left (Nat.le_trans hle h)]
  rw [byteAt_eq_getElem?_getD, byteAt_eq_getElem?_getD, assignZeros]
  -- in front of the range, in it and behind it
  obtain hfront | hin | hbehind : i < r.start ∨ (r.start ≤ i ∧ i < r.stop) ∨ r.stop ≤ i := by omega
  · rw [if_neg (by omega), List.getElem?_append_left (by omega), List.getElem?_take_of_lt hfront]
  · have hlt : i - r.start < r.length := by unfold ByteRange.stop at hin; omega
    rw [if_pos hin, List.getElem?_append_right (by omega), hlength,
      List.getElem?_append_left (by rwa [List.length_replicate]), List.getElem?_replicate, if_pos hlt,
      Option.getD_some]
  · have hge : r.length ≤ i - r.start := by unfold ByteRange.stop at hbehind; omega
    have hoffset : r.stop + (i - r.start - r.length) = i := by unfold ByteRange.stop at *; omega
    rw [if_neg (by omega), List.getElem?_append_right (by omega), hlength,
      List.getElem?_append_right (by rwa [List.length_replicate]), List.length_replicate,
      List.getElem?_drop, hoffset]

/-- An assignment inside the buffer blanks the range. -/
theorem assignZeros_eq_blank (h : r.stop ≤ buffer.size) :
    assignZeros buffer r = blank buffer r.start r.length := by
  have hsize := size_assignZeros_eq_iff.mpr (.inl h)
  refine eq_of_byteAt_eq (hsize.trans (size_blank ..).symm) fun i _ => ?_
  rw [byteAt_assignZeros h, byteAt_blank, ByteRange.stop]

/-- Assignments inside the buffer blank what any of them covers. -/
theorem blanked_foldl_assignZeros (h : ∀ r ∈ rs, r.stop ≤ buffer.size) :
    Blanked (fun i => ∃ r ∈ rs, r.Has i) buffer (rs.foldl assignZeros buffer) := by
  induction rs generalizing buffer with
  | nil => exact (Blanked.refl buffer).congr fun i => by simp
  | cons r rest ih =>
    obtain ⟨hr, hrest⟩ := List.forall_mem_cons.mp h
    have hone : Blanked r.Has buffer (assignZeros buffer r) :=
      assignZeros_eq_blank hr ▸ blanked_blank buffer r.start r.length
    -- the buffer is as long as it was, so that the others are still inside
    refine (hone.trans (ih fun r hr => hone.size_eq ▸ hrest r hr)).congr fun i => ?_
    simp only [List.mem_cons, exists_eq_or_imp]

/-- The order of assignments inside the buffer does not matter. -/
theorem foldl_assignZeros_perm (h : ∀ r ∈ rs, r.stop ≤ buffer.size) (hperm : rs'.Perm rs) :
    rs'.foldl assignZeros buffer = rs.foldl assignZeros buffer := by
  have hblanked' := blanked_foldl_assignZeros fun r hr => h r (hperm.mem_iff.mp hr)
  refine hblanked'.unique ((blanked_foldl_assignZeros h).congr fun i => ?_)
  simp only [hperm.mem_iff]

end ReleaseSeal
