import ReleaseSeal.Proofs.MachO.Header

/-!
# Headers and their encodings

Bytes are recognised as a thin or a fat binary exactly if they start with the encoding of its header, and
what is recognised is that header. A thin header may be encoded in either byte order, and is found in the
one in which it is; a fat header is in big-endian order. The wider records of a fat header end with a
word that is not looked at, so that a header with any such words counts as an encoding.

## Key results

- `FatLayout.exists_encodeWith_isPrefix_iff`: one record and its bytes
- `FatLayout.opens_iff_encode`: a fat header and its bytes
- `classify_eq_unrecognized_iff`: what is not recognised
- `classify_inverts_encode`: what is recognised, by the encodings of headers
-/

namespace ReleaseSeal.MachO

variable {bytes : ByteArray}

/-! ## The records of a fat header -/

/-- A range that is stored in a word is one that the word holds. -/
theorem eq_toUInt64_iff {n : UInt64} {w : UInt32} :
    n = w.toUInt64 ↔ n.toNat < UInt32.size ∧ w = n.toUInt32 := by
  constructor
  · rintro rfl
    exact ⟨w.toNat_lt, by simp⟩
  · intro hword
    obtain ⟨hn, rfl⟩ := hword
    apply UInt64.toNat.inj
    rw [UInt32.toNat_toUInt64, UInt64.toNat_toUInt32, Nat.mod_eq_of_lt hn]

namespace FatLayout

variable {layout : FatLayout}

/-- The ranges of an architecture fit into the fields of a record. -/
def Fits : FatLayout → FatArch → Prop
  | bits32, a => a.offset.toNat < UInt32.size ∧ a.size.toNat < UInt32.size
  | bits64, _ => True

/-- The bytes of a record whose last word is another, where that word means nothing. -/
def encodeWith : FatLayout → FatArch → UInt32 → List UInt8
  | bits32, a, _ => bits32.encode a
  | bits64, a, last => (bits64.encode a).take 28 ++ ByteOrder.big.encode 4 last.toNat

/-- The bytes of a fat header whose records end with other words, where these mean nothing. -/
def encodeHeaderWith (layout : FatLayout) (records : List (FatArch × UInt32)) : List UInt8 :=
  ByteOrder.big.encode 4 layout.magic.toNat ++ ByteOrder.big.encode 4 records.length ++
    records.flatMap fun record => layout.encodeWith record.1 record.2

/-- The fields of a wide record. -/
theorem encodeWith_bits64 (a : FatArch) (last : UInt32) :
    bits64.encodeWith a last =
      ByteOrder.big.encode 4 a.cpuType.toUInt32.toNat ++
        (ByteOrder.big.encode 4 a.cpuSubtype.toUInt32.toNat ++
          (ByteOrder.big.encode 8 a.offset.toNat ++ (ByteOrder.big.encode 8 a.size.toNat ++
            (ByteOrder.big.encode 4 a.align.toNat ++ ByteOrder.big.encode 4 last.toNat)))) := by
  simp only [encodeWith, encode]
  rw [List.take_left' (by simp)]
  simp only [List.append_assoc]

/-- The fields of a narrow record, with ranges that fit into it. -/
theorem encodeWith_bits32 {a : FatArch} (hfits : bits32.Fits a) (last : UInt32) :
    bits32.encodeWith a last =
      ByteOrder.big.encode 4 a.cpuType.toUInt32.toNat ++
        (ByteOrder.big.encode 4 a.cpuSubtype.toUInt32.toNat ++
          (ByteOrder.big.encode 4 a.offset.toUInt32.toNat ++
            (ByteOrder.big.encode 4 a.size.toUInt32.toNat ++ ByteOrder.big.encode 4 a.align.toNat))) := by
  have hword {n : UInt64} (hn : n.toNat < UInt32.size) : n.toUInt32.toNat = n.toNat := by
    rw [UInt64.toNat_toUInt32, Nat.mod_eq_of_lt hn]
  simp only [encodeWith, encode, List.append_assoc, List.append_nil, hword hfits.1, hword hfits.2]

@[simp]
theorem length_encodeWith (a : FatArch) (last : UInt32) :
    (layout.encodeWith a last).length = layout.recordSize := by
  cases layout with
  | bits32 => simp [encodeWith, encode, recordSize]
  | bits64 => simp [encodeWith_bits64, recordSize]

theorem encodeWith_zero (a : FatArch) : layout.encodeWith a 0 = layout.encode a := by
  cases layout with
  | bits32 => rfl
  | bits64 => simp [encodeWith_bits64, encode]

/-- An encoding is one with zeros where a word means nothing. -/
theorem encodeHeaderWith_zero (arches : List FatArch) :
    layout.encodeHeaderWith (arches.map (·, 0)) = layout.encodeHeader arches := by
  simp [encodeHeaderWith, encodeHeader, List.flatMap_map, encodeWith_zero]

/-- What is decoded at an offset is the record whose bytes stand there. -/
theorem exists_encodeWith_isPrefix_iff {a : FatArch} {i : Nat} :
    (layout.Fits a ∧ ∃ last, layout.encodeWith a last <+: bytes.data.toList.drop i) ↔
      i + layout.recordSize ≤ bytes.size ∧ a = layout.decode bytes i := by
  obtain ⟨cpuType, cpuSubtype, offset, size, align⟩ := a
  cases layout with
  | bits64 =>
    simp only [Fits, true_and, encodeWith_bits64, append_isPrefix_iff, word_isPrefix_iff,
      long_isPrefix_iff, ByteOrder.length_encode, List.drop_drop, recordSize, decode,
      FatArch.mk.injEq, Header.eq_toUInt32_iff, Nat.add_assoc, Nat.add_zero]
    constructor
    · intro hstarts
      obtain ⟨last, ⟨-, hcpu⟩, ⟨-, hsubtype⟩, ⟨-, hoffset⟩, ⟨-, hsize⟩, ⟨-, halign⟩, hlast, -⟩ := hstarts
      exact ⟨hlast, hcpu, hsubtype, hoffset.symm, hsize.symm, halign.symm⟩
    · intro hdecoded
      obtain ⟨hin, hcpu, hsubtype, hoffset, hsize, halign⟩ := hdecoded
      -- the word that means nothing is the one that stands there
      exact ⟨wordAt .big bytes (i + 28), ⟨by omega, hcpu⟩, ⟨by omega, hsubtype⟩,
        ⟨by omega, hoffset.symm⟩, ⟨by omega, hsize.symm⟩, ⟨by omega, halign.symm⟩, by omega, rfl⟩
  | bits32 =>
    simp only [recordSize, decode, FatArch.mk.injEq, eq_toUInt64_iff, Nat.add_zero]
    -- only ranges that fit are the ones whose words are encoded
    constructor
    · intro hstarts
      obtain ⟨hfits, last, hstarts⟩ := hstarts
      rw [encodeWith_bits32 hfits] at hstarts
      simp only [append_isPrefix_iff, word_isPrefix_iff, ByteOrder.length_encode, List.drop_drop,
        Nat.add_assoc, Header.eq_toUInt32_iff] at hstarts
      obtain ⟨⟨-, hcpu⟩, ⟨-, hsubtype⟩, ⟨-, hoffset⟩, ⟨-, hsize⟩, hin, halign⟩ := hstarts
      exact ⟨hin, hcpu, hsubtype, ⟨hfits.1, hoffset⟩, ⟨hfits.2, hsize⟩, halign.symm⟩
    · intro hdecoded
      obtain ⟨hin, hcpu, hsubtype, ⟨hfits, hoffset⟩, ⟨hfits', hsize⟩, halign⟩ := hdecoded
      refine ⟨⟨hfits, hfits'⟩, 0, ?_⟩
      rw [encodeWith_bits32 ⟨hfits, hfits'⟩]
      simp only [append_isPrefix_iff, word_isPrefix_iff, ByteOrder.length_encode, List.drop_drop,
        Nat.add_assoc, Header.eq_toUInt32_iff]
      exact ⟨⟨by omega, hcpu⟩, ⟨by omega, hsubtype⟩, ⟨by omega, hoffset⟩, ⟨by omega, hsize⟩, hin,
        halign.symm⟩

/-- Records stand one after the other exactly if their bytes do. -/
theorem holdsRecords_iff_encode {arches : List FatArch} {i : Nat} :
    layout.HoldsRecords bytes i arches ↔
      (∀ a ∈ arches, layout.Fits a) ∧ ∃ records : List (FatArch × UInt32),
        records.map Prod.fst = arches ∧
          (records.flatMap fun record => layout.encodeWith record.1 record.2) <+:
            bytes.data.toList.drop i := by
  -- by induction on the records: each starts where the one in front of it ends
  induction arches generalizing i with
  | nil => simp [HoldsRecords]
  | cons a rest ih =>
    rw [HoldsRecords, ← and_assoc, ← exists_encodeWith_isPrefix_iff, ih, List.forall_mem_cons]
    constructor
    · intro hholds
      obtain ⟨⟨hfits, last, hfirst⟩, hrest, records, rfl, hrecords⟩ := hholds
      refine ⟨⟨hfits, hrest⟩, (a, last) :: records, rfl, ?_⟩
      rw [List.flatMap_cons, append_isPrefix_iff, length_encodeWith, List.drop_drop]
      exact ⟨hfirst, hrecords⟩
    · intro hencoded
      obtain ⟨⟨hfits, hrest⟩, records, hmap, hrecords⟩ := hencoded
      cases records with
      | nil => cases hmap
      | cons record records =>
        obtain ⟨rfl, rfl⟩ := List.cons.inj hmap
        rw [List.flatMap_cons, append_isPrefix_iff, length_encodeWith, List.drop_drop] at hrecords
        exact ⟨⟨hfits, record.2, hrecords.1⟩, hrest, records, rfl, hrecords.2⟩

/-- A fat header opens the bytes exactly if they start with an encoding of it, and it names as many
    architectures as it may. -/
theorem opens_iff_encode {arches : List FatArch} :
    layout.Opens arches bytes ↔
      0 < arches.length ∧ arches.length ≤ maxArchitectures ∧ (∀ a ∈ arches, layout.Fits a) ∧
        ∃ records : List (FatArch × UInt32), records.map Prod.fst = arches ∧
          layout.encodeHeaderWith records <+: bytes.data.toList := by
  -- the two words in front of the records
  have hhead {records : List (FatArch × UInt32)} (hmax : records.length ≤ maxArchitectures) :
      layout.encodeHeaderWith records <+: bytes.data.toList ↔
        (8 ≤ bytes.size ∧ wordAt .big bytes 0 = layout.magic ∧
          (wordAt .big bytes 4).toNat = records.length) ∧
        (records.flatMap fun record => layout.encodeWith record.1 record.2) <+:
          bytes.data.toList.drop 8 := by
    have hcount : (UInt32.ofNat records.length).toNat = records.length :=
      UInt32.toNat_ofNat_of_lt' (Nat.lt_of_le_of_lt hmax (by decide))
    have hfirst := @word_isPrefix_iff .big bytes 0 layout.magic
    have hsecond := @word_isPrefix_iff .big bytes 4 (UInt32.ofNat records.length)
    rw [List.drop_zero] at hfirst
    rw [hcount, ← UInt32.toNat_inj, hcount] at hsecond
    rw [encodeHeaderWith, append_isPrefix_iff, append_isPrefix_iff, hfirst,
      List.length_append, ByteOrder.length_encode, ByteOrder.length_encode, hsecond]
    grind
  constructor
  · intro h
    obtain ⟨hfits, records, rfl, hrecords⟩ := holdsRecords_iff_encode.mp h.records
    have hmax := h.le_max
    have hcount := h.count
    rw [List.length_map] at hmax hcount
    exact ⟨h.pos, h.le_max, hfits, records, rfl,
      (hhead hmax).mpr ⟨⟨h.head_le, h.magic, hcount⟩, hrecords⟩⟩
  · intro hencoded
    obtain ⟨hpos, hmax, hfits, records, rfl, hheader⟩ := hencoded
    rw [List.length_map] at hpos hmax
    obtain ⟨⟨hsize, hmagic, hcount⟩, hrecords⟩ := (hhead hmax).mp hheader
    exact
      { head_le := hsize
        magic := hmagic
        count := by rw [List.length_map, hcount]
        pos := by rwa [List.length_map]
        le_max := by rwa [List.length_map]
        records := holdsRecords_iff_encode.mpr ⟨hfits, records, rfl, hrecords⟩ }

end FatLayout

/-! ## Classification -/

/-- Without an order, a reader takes little-endian order exactly if a thin mark stands there in it. -/
theorem probeOrder_eq_little_iff :
    probeOrder bytes = .little ↔ 4 ≤ bytes.size ∧ isThinMagic (wordAt .little bytes 0) = true := by
  unfold probeOrder
  split
  · rename_i h
    simpa using h
  · rename_i h
    simpa using h

/-- A fat mark in big-endian order is no thin one in any order. -/
theorem isThinMagic_eq_false_of_fatMagic {layout : FatLayout} (order : ByteOrder) (hsize : 4 ≤ bytes.size)
    (h : wordAt .big bytes 0 = layout.magic) : isThinMagic (wordAt order bytes 0) = false := by
  have hin : 0 + 4 ≤ bytes.size := by omega
  have hword : wordAt order bytes 0 =
      UInt32.ofNat (order.decode (ByteOrder.big.encode 4 layout.magic.toNat)) := by
    rw [wordAt, (sliceList_eq_encode_iff hin).mpr h]
  rw [hword]
  cases order <;> cases layout <;> decide

/-- What a reader in its own order recognises as a fat binary. -/
theorem classify_eq_fat_iff_encode {layout : FatLayout} {arches : List FatArch} :
    Reading.result (.ofBytes none bytes) (classify 0) = .ok (.fat layout arches) ↔
      0 < arches.length ∧ arches.length ≤ maxArchitectures ∧ (∀ a ∈ arches, layout.Fits a) ∧
        ∃ records : List (FatArch × UInt32), records.map Prod.fst = arches ∧
          layout.encodeHeaderWith records <+: bytes.data.toList := by
  rw [classify_eq_fat_iff, ← FatLayout.opens_iff_encode]
  apply and_iff_right_of_imp
  intro h
  have hsize := h.head_le
  exact isThinMagic_eq_false_of_fatMagic _ (by omega) h.magic

/-- What is not recognised by a reader in a given order. -/
theorem classify_eq_unrecognized_iff_of_order {f : Frame} {magic : UInt32} :
    Reading.result f (classify 0) = .ok (.unrecognized magic) ↔
      8 ≤ f.size ∧ magic = wordAt f.order f.bytes 0 ∧ isThinMagic magic = false ∧
        FatLayout.ofMagic? (wordAt .big f.bytes 0) = none := by
  rw [classify_eq_ok_iff]
  constructor
  · intro hresult
    obtain ⟨-, h⟩ := hresult
    split at h
    · obtain ⟨_, hno, -⟩ := h
      cases hno
    · rename_i hthin
      obtain ⟨j, hread⟩ := Reading.result_eq_ok_iff.mp h
      obtain ⟨hhead, hfat, heq, -⟩ | ⟨_, _, hno, -⟩ := (FatLayout.yields_readFat_iff rfl).mp hread
      · cases heq
        exact ⟨hhead, rfl, Bool.eq_false_iff.mpr hthin, hfat⟩
      · cases hno
  · intro hwords
    obtain ⟨hhead, rfl, hthin, hfat⟩ := hwords
    rw [if_neg (by rw [hthin]; exact Bool.false_ne_true)]
    refine ⟨by omega, Reading.result_eq_ok_iff.mpr ⟨8, ?_⟩⟩
    exact (FatLayout.yields_readFat_iff rfl).mpr (.inl ⟨hhead, hfat, rfl, rfl⟩)

/-- What is not recognised: the first word is no thin mark in either order, and no fat one. -/
theorem classify_eq_unrecognized_iff {magic : UInt32} :
    Reading.result (.ofBytes none bytes) (classify 0) = .ok (.unrecognized magic) ↔
      8 ≤ bytes.size ∧ magic = wordAt .big bytes 0 ∧
        (∀ order, isThinMagic (wordAt order bytes 0) = false) ∧
        FatLayout.ofMagic? (wordAt .big bytes 0) = none := by
  rw [classify_eq_unrecognized_iff_of_order]
  have hlittle := @probeOrder_eq_little_iff bytes
  simp only [Frame.size, Frame.ofBytes, Option.getD_none]
  constructor
  · intro hwords
    obtain ⟨hhead, rfl, hthin, hfat⟩ := hwords
    cases horder : probeOrder bytes with
    | little =>
      -- it would have been a thin mark
      rw [horder, (hlittle.mp horder).2] at hthin
      cases hthin
    | big =>
      rw [horder] at hthin hlittle
      refine ⟨hhead, rfl, fun order => ?_, hfat⟩
      cases order with
      | little =>
        -- behind a thin mark of this order it would have been the reader's
        rw [← Bool.not_eq_true]
        intro hmark
        have hno : ByteOrder.big = .little := hlittle.mpr ⟨by omega, hmark⟩
        cases hno
      | big => exact hthin
  · intro hwords
    obtain ⟨hhead, rfl, hthin, hfat⟩ := hwords
    cases horder : probeOrder bytes with
    | little =>
      have hno := (hlittle.mp horder).2
      rw [hthin] at hno
      cases hno
    | big => exact ⟨hhead, rfl, hthin .big, hfat⟩

/-- Recognising a header inverts encoding it. Bytes start with the encoding of a thin header in some order
    exactly if that header is recognised and the order is the one that the reader takes; the encoding is as
    long as the header says. A fat binary is recognised exactly if the bytes start with the encoding of its
    header, up to the words that mean nothing, and it has as many architectures as it may have, with ranges
    that fit into their fields; in particular if they start with the encoding itself. Anything else that is
    not an error is not recognised, and its first word is no mark in any order in which one is looked for. -/
theorem classify_inverts_encode (bytes : ByteArray) :
    (∀ (order : ByteOrder) (h : Header), h.encode order <+: bytes.data.toList ↔
      Reading.result (.ofBytes none bytes) (classify 0) = .ok (.thin h) ∧ probeOrder bytes = order) ∧
    (∀ (order : ByteOrder) (h : Header), (h.encode order).length = h.size) ∧
    (∀ layout arches, Reading.result (.ofBytes none bytes) (classify 0) = .ok (.fat layout arches) ↔
      0 < arches.length ∧ arches.length ≤ maxArchitectures ∧ (∀ a ∈ arches, layout.Fits a) ∧
        ∃ records : List (FatArch × UInt32), records.map Prod.fst = arches ∧
          layout.encodeHeaderWith records <+: bytes.data.toList) ∧
    (∀ layout arches, layout.encodeHeader arches <+: bytes.data.toList →
      0 < arches.length → arches.length ≤ maxArchitectures → (∀ a ∈ arches, layout.Fits a) →
        Reading.result (.ofBytes none bytes) (classify 0) = .ok (.fat layout arches)) ∧
    (∀ magic, Reading.result (.ofBytes none bytes) (classify 0) = .ok (.unrecognized magic) ↔
      8 ≤ bytes.size ∧ magic = wordAt .big bytes 0 ∧
        (∀ order, isThinMagic (wordAt order bytes 0) = false) ∧
        FatLayout.ofMagic? (wordAt .big bytes 0) = none) := by
  refine ⟨?thin, ?length, ?fat, ?encoded, ?unrecognized⟩
  case thin =>
    intro order h
    rw [classify_eq_thin_iff_encode]
    constructor
    · intro hstarts
      -- the order in which the header is encoded is found
      have horder : probeOrder bytes = order := by
        rw [Header.encode_eq, ← List.drop_zero (l := bytes.data.toList), encode_isPrefix_iff] at hstarts
        exact probeOrder_eq_of_holdsWords hstarts
      refine ⟨?_, horder⟩
      rwa [← horder] at hstarts
    · intro hfound
      obtain ⟨hstarts, rfl⟩ := hfound
      exact hstarts
  case length =>
    intro order h
    rw [← h.length_words, Header.encode_eq]
    simp [List.length_flatMap, List.map_const', Nat.mul_comm]
  case fat =>
    intro layout arches
    exact classify_eq_fat_iff_encode
  case encoded =>
    intro layout arches hstarts hpos hmax hfits
    rw [← FatLayout.encodeHeaderWith_zero] at hstarts
    exact classify_eq_fat_iff_encode.mpr ⟨hpos, hmax, hfits, _, by simp [Function.comp_def], hstarts⟩
  case unrecognized =>
    intro magic
    exact classify_eq_unrecognized_iff

/-- A wide fat header of one slice that starts where a word cannot point to, with a byte behind it. -/
theorem classify_encoded_wide_fat :
    let a : FatArch :=
      { cpuType := 0x100000c, cpuSubtype := 2, offset := 0x100000000, size := 16, align := 14 }
    let bytes : ByteArray := ⟨(FatLayout.bits64.encodeHeader [a] ++ [0xff]).toArray⟩
    FatLayout.bits64.encodeHeader [a] <+: bytes.data.toList ∧ FatLayout.bits64.Fits a ∧
      Reading.result (.ofBytes none bytes) (classify 0) = .ok (.fat .bits64 [a]) := by
  intro a bytes
  have hstarts : FatLayout.bits64.encodeHeader [a] <+: bytes.data.toList := List.prefix_append ..
  have hfits : ∀ b ∈ [a], FatLayout.bits64.Fits b := fun _ _ => trivial
  obtain ⟨-, -, -, hencoded, -⟩ := classify_inverts_encode bytes
  exact ⟨hstarts, trivial, hencoded .bits64 [a] hstarts (by decide) (by decide) hfits⟩

end ReleaseSeal.MachO
