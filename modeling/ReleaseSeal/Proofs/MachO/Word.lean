import ReleaseSeal.MachO.Reader
import ReleaseSeal.Proofs.Bytes.Listing

/-!
# Words in bytes

A word depends on the four bytes at its offset and on nothing else, and it determines them. A record of
words is thus the same whether it is read word by word (`HoldsWords`) or compared with the bytes that
encode it (`encode_isPrefix_iff`).
-/

namespace ReleaseSeal.MachO

variable {order : ByteOrder} {bytes bytes' : ByteArray} {i j : Nat}

/-- Equal bytes make equal words, wherever they stand. -/
theorem wordAt_congr (hi : i + 4 ≤ bytes.size) (hj : j + 4 ≤ bytes'.size)
    (h : ∀ k < 4, byteAt bytes (i + k) = byteAt bytes' (j + k)) :
    wordAt order bytes i = wordAt order bytes' j := by
  rw [wordAt, wordAt, (sliceList_eq_iff hi hj).mpr h]

theorem longAt_congr (hi : i + 8 ≤ bytes.size) (hj : j + 8 ≤ bytes'.size)
    (h : ∀ k < 8, byteAt bytes (i + k) = byteAt bytes' (j + k)) :
    longAt order bytes i = longAt order bytes' j := by
  rw [longAt, longAt, (sliceList_eq_iff hi hj).mpr h]

/-- A field of a fixed width determines its bytes, by the number that they make. -/
theorem sliceList_eq_encode_iff_decode {width n : Nat} (hi : i + width ≤ bytes.size)
    (hn : n < ByteOrder.capacity width) :
    sliceList bytes i width = order.encode width n ↔
      order.decode (sliceList bytes i width) = n := by
  constructor
  · intro h
    rw [h, ByteOrder.decode_encode, Nat.mod_eq_of_lt hn]
  · rintro rfl
    have h := order.encode_decode (sliceList bytes i width)
    rw [length_sliceList hi] at h
    exact h.symm

/-- The number of a word is that of its bytes. -/
theorem toNat_wordAt (hi : i + 4 ≤ bytes.size) :
    (wordAt order bytes i).toNat = order.decode (sliceList bytes i 4) := by
  have hlt := order.decode_lt (sliceList bytes i 4)
  rw [length_sliceList hi, show ByteOrder.capacity 4 = 2 ^ 32 from rfl] at hlt
  exact UInt32.toNat_ofNat_of_lt' hlt

theorem toNat_longAt (hi : i + 8 ≤ bytes.size) :
    (longAt order bytes i).toNat = order.decode (sliceList bytes i 8) := by
  have hlt := order.decode_lt (sliceList bytes i 8)
  rw [length_sliceList hi, show ByteOrder.capacity 8 = 2 ^ 64 from rfl] at hlt
  exact UInt64.toNat_ofNat_of_lt' hlt

/-- A word determines its bytes. -/
theorem sliceList_eq_encode_iff {w : UInt32} (hi : i + 4 ≤ bytes.size) :
    sliceList bytes i 4 = order.encode 4 w.toNat ↔ wordAt order bytes i = w := by
  rw [sliceList_eq_encode_iff_decode hi w.toNat_lt, ← toNat_wordAt hi, UInt32.toNat_inj]

/-- Equal words are made of equal bytes. -/
theorem byteAt_eq_of_wordAt_eq (hi : i + 4 ≤ bytes.size) (hj : j + 4 ≤ bytes'.size)
    (h : wordAt order bytes i = wordAt order bytes' j) :
    ∀ k < 4, byteAt bytes (i + k) = byteAt bytes' (j + k) := by
  rw [← sliceList_eq_iff hi hj, (sliceList_eq_encode_iff hi).mpr h,
    (sliceList_eq_encode_iff hj).mpr rfl]

/-- A word of four zeros is zero. -/
theorem wordAt_eq_zero (hi : i + 4 ≤ bytes.size) (h : ∀ k < 4, byteAt bytes (i + k) = 0) :
    wordAt order bytes i = 0 := by
  rw [← sliceList_eq_encode_iff hi, sliceList_eq_map hi]
  have hzero : order.encode 4 (0 : UInt32).toNat = (List.range 4).map fun _ => 0 := by
    cases order <;> decide
  rw [hzero]
  exact List.map_congr_left fun k hk => h k (List.mem_range.mp hk)

/-! ## Records of words -/

/-- The words stand one after the other from an offset on. -/
def HoldsWords (order : ByteOrder) (bytes : ByteArray) : Nat → List UInt32 → Prop
  | _, [] => True
  | i, w :: rest =>
    i + 4 ≤ bytes.size ∧ wordAt order bytes i = w ∧ HoldsWords order bytes (i + 4) rest

/-- Whether a record of words stands in some bytes can be computed. -/
def HoldsWords.decidable (order : ByteOrder) (bytes : ByteArray) :
    (i : Nat) → (words : List UInt32) → Decidable (HoldsWords order bytes i words)
  | _, [] => .isTrue trivial
  | i, w :: rest =>
    have := HoldsWords.decidable order bytes (i + 4) rest
    inferInstanceAs (Decidable (i + 4 ≤ bytes.size ∧ wordAt order bytes i = w ∧
      HoldsWords order bytes (i + 4) rest))

instance {words : List UInt32} : Decidable (HoldsWords order bytes i words) :=
  HoldsWords.decidable order bytes i words

/-- A record of words stands in other bytes exactly if its bytes do. -/
theorem HoldsWords.iff_byteAt_eq {words : List UInt32} (h : HoldsWords order bytes i words)
    (hi : i ≤ bytes'.size) :
    HoldsWords order bytes' i words ↔ i + 4 * words.length ≤ bytes'.size ∧
      ∀ k, i ≤ k → k < i + 4 * words.length → byteAt bytes' k = byteAt bytes k := by
  induction words generalizing i with
  | nil => exact iff_of_true trivial ⟨hi, fun k hk hlt => absurd hlt (Nat.not_lt.mpr hk)⟩
  | cons w rest ih =>
    obtain ⟨hin, hword, hrest⟩ := h
    rw [HoldsWords, List.length_cons]
    constructor
    · -- a byte is one of the first word or of the others
      rintro ⟨hin', hword', hrest'⟩
      obtain ⟨hle, hbytes⟩ := (ih hrest hin').mp hrest'
      have hfirst := byteAt_eq_of_wordAt_eq hin' hin (hword'.trans hword.symm)
      refine ⟨by omega, fun k hk hlt => ?_⟩
      by_cases hk4 : k < i + 4
      · simpa [Nat.add_sub_cancel' hk] using hfirst (k - i) (by omega)
      · exact hbytes k (by omega) (by omega)
    · rintro ⟨hle, hbytes⟩
      have hin' : i + 4 ≤ bytes'.size := by omega
      refine ⟨hin', hword ▸ wordAt_congr hin' hin fun k hk => hbytes _ (by omega) (by omega), ?_⟩
      exact (ih hrest hin').mpr ⟨by omega, fun k hk hlt => hbytes k (by omega) (by omega)⟩

/-- Fields that follow each other start a list if the first does, and the others do behind it. -/
theorem append_isPrefix_iff {field rest data : List UInt8} :
    field ++ rest <+: data ↔ field <+: data ∧ rest <+: data.drop field.length := by
  constructor
  · rintro ⟨tail, rfl⟩
    rw [List.append_assoc, List.drop_left]
    exact ⟨List.prefix_append .., List.prefix_append ..⟩
  · rintro ⟨⟨tail, rfl⟩, hrest⟩
    rw [List.drop_left] at hrest
    exact (List.prefix_append_right_inj _).mpr hrest

/-- A field starts the bytes from an offset on exactly if it is the slice there. -/
theorem isPrefix_drop_iff {field : List UInt8} (hpos : 0 < field.length) :
    field <+: bytes.data.toList.drop i ↔
      i + field.length ≤ bytes.size ∧ sliceList bytes i field.length = field := by
  have hslice : sliceList bytes i field.length = (bytes.data.toList.drop i).take field.length := by
    rw [sliceList, data_toList_extract, List.drop_take, Nat.add_sub_cancel_left]
  rw [hslice, List.prefix_iff_eq_take, eq_comm]
  constructor
  · intro h
    refine ⟨?_, h⟩
    -- an empty rest does not start with the field
    have hlength := congrArg List.length h
    rw [List.length_take, List.length_drop, length_data_toList] at hlength
    omega
  · exact And.right

/-- The bytes of a word stand at an offset exactly if the word does. -/
theorem word_isPrefix_iff {w : UInt32} :
    order.encode 4 w.toNat <+: bytes.data.toList.drop i ↔
      i + 4 ≤ bytes.size ∧ wordAt order bytes i = w := by
  rw [isPrefix_drop_iff (by simp), ByteOrder.length_encode]
  exact and_congr_right sliceList_eq_encode_iff

theorem long_isPrefix_iff {w : UInt64} :
    order.encode 8 w.toNat <+: bytes.data.toList.drop i ↔
      i + 8 ≤ bytes.size ∧ longAt order bytes i = w := by
  rw [isPrefix_drop_iff (by simp), ByteOrder.length_encode]
  apply and_congr_right
  intro hi
  rw [sliceList_eq_encode_iff_decode hi w.toNat_lt, ← toNat_longAt hi, UInt64.toNat_inj]

/-- The bytes from an offset on are those that encode a record exactly if the words of the record stand
    there. -/
theorem encode_isPrefix_iff {words : List UInt32} :
    (words.flatMap fun w => order.encode 4 w.toNat) <+: bytes.data.toList.drop i ↔
      HoldsWords order bytes i words := by
  induction words generalizing i with
  | nil => simp [HoldsWords]
  | cons w rest ih =>
    rw [List.flatMap_cons, append_isPrefix_iff, word_isPrefix_iff, ByteOrder.length_encode,
      List.drop_drop, ih, and_assoc, HoldsWords]

end ReleaseSeal.MachO
