import ReleaseSeal.Bytes.Slice

/-!
# Byte strings as lists

The list view `bytes.data.toList` of a byte string: its length, its elements and its ranges.
-/

namespace ReleaseSeal

theorem length_data_toList (bytes : ByteArray) : bytes.data.toList.length = bytes.size := rfl

/-- The byte at an offset is the element of the list at that position. -/
theorem byteAt_eq_getElem {bytes : ByteArray} {i : Nat} (h : i < bytes.data.toList.length) :
    byteAt bytes i = bytes.data.toList[i] := by
  have hsize : i < bytes.size := h
  rw [byteAt, dif_pos hsize, ByteArray.getElem_eq_getElem_data, Array.getElem_toList]

/-- What a byte string is from an offset on, byte by byte. -/
theorem drop_data_toList_eq_cons {bytes : ByteArray} {i : Nat} {c : UInt8} {rest : List UInt8}
    (h : bytes.data.toList.drop i = c :: rest) :
    i < bytes.size ∧ byteAt bytes i = c ∧ bytes.data.toList.drop (i + 1) = rest := by
  have hlt : i < bytes.data.toList.length := by
    have hlen := congrArg List.length h
    simp only [List.length_drop, List.length_cons] at hlen
    omega
  rw [List.drop_eq_getElem_cons hlt, List.cons.injEq] at h
  exact ⟨hlt, by rw [byteAt_eq_getElem hlt, h.1], h.2⟩

/-- The bytes up to an offset, with the one there. -/
theorem take_data_toList_succ {bytes : ByteArray} {i : Nat} (h : i < bytes.size) :
    bytes.data.toList.take (i + 1) = bytes.data.toList.take i ++ [byteAt bytes i] := by
  rw [byteAt_eq_getElem h, ← List.take_succ_eq_append_getElem]

/-- Beyond the end no more bytes come. -/
theorem take_data_toList_succ_of_le {bytes : ByteArray} {i : Nat} (h : bytes.size ≤ i) :
    bytes.data.toList.take (i + 1) = bytes.data.toList.take i := by
  have hlen := length_data_toList bytes
  rw [List.take_of_length_le (by omega), List.take_of_length_le (by omega)]

theorem data_toList_extract (bytes : ByteArray) (start stop : Nat) :
    (bytes.extract start stop).data.toList = (bytes.data.toList.take stop).drop start := by
  rw [ByteArray.data_extract, Array.toList_extract, List.extract_eq_take_drop, List.drop_take]

/-- Two byte strings with the same list are equal. -/
theorem eq_of_data_toList_eq {a b : ByteArray} (h : a.data.toList = b.data.toList) : a = b :=
  ByteArray.ext (Array.toList_inj.mp h)

/-! ## Ranges -/

/-- The byte at an offset of a range, zero past the range's end. -/
theorem byteAt_extract (bytes : ByteArray) (start stop i : Nat) :
    byteAt (bytes.extract start stop) i = if start + i < stop then byteAt bytes (start + i) else 0 := by
  unfold byteAt
  by_cases hin : start + i < stop ∧ start + i < bytes.size
  · rw [if_pos hin.1, dif_pos hin.2, dif_pos (by rw [ByteArray.size_extract]; omega)]
    exact ByteArray.getElem_extract _
  · rw [dif_neg (by rw [ByteArray.size_extract]; omega)]
    split
    · rw [dif_neg (by omega)]
    · rfl

/-- A range of a range is a range. -/
theorem slice_slice {bytes : ByteArray} {start length i k : Nat} (h : i + k ≤ length) :
    slice (slice bytes start length) i k = slice bytes (start + i) k := by
  have hstop : min (start + (i + k)) (start + length) = start + i + k := by omega
  rw [slice, slice, slice, ByteArray.extract_extract, hstop]

/-- The range behind some bytes that were put in front. -/
theorem slice_append (front bytes : ByteArray) :
    slice (front ++ bytes) front.size bytes.size = bytes :=
  ByteArray.extract_append_eq_right rfl rfl

/-- A range inside the bytes is the list of its bytes. -/
theorem sliceList_eq_map {bytes : ByteArray} {start length : Nat} (h : start + length ≤ bytes.size) :
    sliceList bytes start length = (List.range length).map fun k => byteAt bytes (start + k) := by
  apply List.ext_getElem
  · simp [length_sliceList h]
  intro k hk hk'
  have hlt : k < length := by simpa using hk'
  have hbyte := byteAt_extract bytes start (start + length) k
  rw [if_pos (by omega)] at hbyte
  rw [List.getElem_map, List.getElem_range, ← hbyte]
  exact (byteAt_eq_getElem hk).symm

/-- Two ranges inside the bytes are equal exactly if their bytes are. -/
theorem sliceList_eq_iff {bytes bytes' : ByteArray} {i j length : Nat} (hi : i + length ≤ bytes.size)
    (hj : j + length ≤ bytes'.size) :
    sliceList bytes i length = sliceList bytes' j length ↔
      ∀ k < length, byteAt bytes (i + k) = byteAt bytes' (j + k) := by
  rw [sliceList_eq_map hi, sliceList_eq_map hj, List.map_inj_left]
  simp only [List.mem_range]

theorem slice_eq_iff {bytes bytes' : ByteArray} {i j length : Nat} (hi : i + length ≤ bytes.size)
    (hj : j + length ≤ bytes'.size) :
    slice bytes i length = slice bytes' j length ↔
      ∀ k < length, byteAt bytes (i + k) = byteAt bytes' (j + k) := by
  rw [← sliceList_eq_iff hi hj]
  exact ⟨fun h => congrArg (fun range : ByteArray => range.data.toList) h, eq_of_data_toList_eq⟩

/-- Two byte strings of one length with the same bytes are equal. -/
theorem eq_of_byteAt_eq {a b : ByteArray} (hsize : a.size = b.size)
    (h : ∀ i < a.size, byteAt a i = byteAt b i) : a = b := by
  refine ByteArray.ext_getElem hsize fun i ha hb => ?_
  have hi := h i ha
  rwa [byteAt, byteAt, dif_pos ha, dif_pos hb] at hi

end ReleaseSeal
