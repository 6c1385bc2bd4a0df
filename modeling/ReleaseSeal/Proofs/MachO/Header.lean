import ReleaseSeal.MachO.Binary
import ReleaseSeal.Proofs.MachO.Reading
import ReleaseSeal.Proofs.MachO.Word

/-!
# Recognised headers

Which bytes are recognised as a thin or a fat binary. A reader finds a thin header in its own byte
order exactly if the bytes start with the encoding of that header, and a reader that is told no order
takes the one in which the header is encoded. A fat header is always in big-endian order, and its
records stand behind it without gaps.

## Key results

- `classify_eq_thin_iff_encode`: what is recognised as a thin binary
- `classify_eq_fat_iff`: what is recognised as a fat binary
- `probeOrder_eq_of_holdsWords`: the byte order of a thin header is found
-/

namespace ReleaseSeal.MachO

variable {f : Frame}

/-- The word at an offset that is counted from the front. -/
theorem peek_eq_ok_iff {i : Nat} {w : UInt32} :
    f.peek i none = .ok w ↔ i + 4 ≤ f.size ∧ w = wordAt f.order f.bytes i := by
  have hfits : (i : Int) + 4 > f.size ↔ ¬i + 4 ≤ f.size := by omega
  unfold Frame.peek
  by_cases h : i + 4 ≤ f.size
  · rw [if_neg (by simp only [hfits, h, not_true, not_false_eq_true]), if_pos (by omega)]
    simp [h, eq_comm]
  · rw [if_pos (hfits.mpr h)]
    simp [h]

/-! ## Thin headers -/

theorem Layout.magic_eq (layout : Layout) : layout.magic = thinMagic32 ∨ layout.magic = thinMagic64 := by
  cases layout with
  | bits32 => exact .inl rfl
  | bits64 reserved => exact .inr rfl

namespace Header

/-- The words that a header consists of. -/
def words (h : Header) : List UInt32 :=
  [h.layout.magic, h.cpuType.toUInt32, h.cpuSubtype.toUInt32, h.fileType, h.commandCount,
    h.commandsSize, h.flags] ++
  match h.layout with
  | .bits32 => []
  | .bits64 reserved => [reserved]

theorem encode_eq (order : ByteOrder) (h : Header) :
    h.encode order = h.words.flatMap fun w => order.encode 4 w.toNat := rfl

theorem length_words (h : Header) : 4 * h.words.length = h.size := by
  obtain ⟨layout, -⟩ := h
  cases layout <;> rfl

theorem size_pos (h : Header) : 0 < h.size := by
  obtain ⟨layout, -⟩ := h
  cases layout with
  | bits32 => exact Nat.zero_lt_succ 27
  | bits64 reserved => exact Nat.zero_lt_succ 31

theorem eq_toUInt32_iff {w : UInt32} {n : Int32} : w = n.toUInt32 ↔ n = w.toInt32 :=
  ⟨fun h => h ▸ rfl, fun h => h ▸ rfl⟩

/-- The words of a header stand at an offset exactly if they are what is decoded there. -/
theorem holdsWords_iff {order : ByteOrder} {bytes : ByteArray} {i : Nat} {h : Header} :
    HoldsWords order bytes i h.words ↔
      i + h.size ≤ bytes.size ∧ wordAt order bytes i = h.layout.magic ∧
        h = .decode order bytes i h.layout ∧
        ∀ reserved, h.layout = .bits64 reserved → reserved = wordAt order bytes (i + 28) := by
  obtain ⟨layout, cpuType, cpuSubtype, fileType, count, size, flags⟩ := h
  cases layout with
  | bits32 =>
    simp only [words, Layout.magic, List.append_nil, HoldsWords, eq_toUInt32_iff, and_true,
      Header.size, Layout.headerSize, decode, mk.injEq, true_and, reduceCtorEq, false_implies,
      implies_true]
    grind
  | bits64 reserved =>
    simp only [words, Layout.magic, List.cons_append, List.nil_append, HoldsWords, eq_toUInt32_iff,
      and_true, Header.size, Layout.headerSize, decode, mk.injEq, true_and, Layout.bits64.injEq,
      forall_eq']
    grind

theorem isThinMagic_of_holdsWords {order : ByteOrder} {bytes : ByteArray} {i : Nat} {h : Header}
    (hwords : HoldsWords order bytes i h.words) : isThinMagic (wordAt order bytes i) = true := by
  rw [(holdsWords_iff.mp hwords).2.1]
  cases h.layout <;> rfl

/-- Behind the mark of a thin binary, a header is read exactly if its words stand there. -/
theorem yields_read_iff {i j : Nat} {h : Header}
    (hmagic : isThinMagic (wordAt f.order f.bytes i) = true) :
    Reading.Yields f i read h j ↔ HoldsWords f.order f.bytes i h.words ∧ j = i + h.size := by
  have hmarks : thinMagic32 ≠ thinMagic64 := by decide
  rw [holdsWords_iff]
  simp only [isThinMagic, Bool.or_eq_true, beq_iff_eq] at hmagic
  -- the mark decides the layout, and with it the width of the header
  obtain hmagic | hmagic := hmagic
  · have hread : Reading.Yields f i read h j ↔
        i + 4 ≤ f.size ∧ i + 28 ≤ f.size ∧ j = i + 28 ∧ h = .decode f.order f.bytes i .bits32 := by
      simp [read, and_assoc, peek_eq_ok_iff, hmagic, hmarks]
    rw [hread, hmagic]
    constructor
    · rintro ⟨-, hin, rfl, rfl⟩
      exact ⟨⟨hin, rfl, rfl, nofun⟩, rfl⟩
    · rintro ⟨⟨hin, hlayout, hdecode, -⟩, rfl⟩
      cases hl : h.layout with
      | bits64 reserved => exact absurd (hlayout.trans (congrArg Layout.magic hl)) hmarks
      | bits32 =>
        have hsize : h.size = 28 := by rw [Header.size, hl]; rfl
        rw [hsize] at hin ⊢
        exact ⟨Nat.le_trans (by omega) hin, hin, rfl, hl ▸ hdecode⟩
  · have hread : Reading.Yields f i read h j ↔
        i + 4 ≤ f.size ∧ i + 32 ≤ f.size ∧ j = i + 32 ∧
          h = .decode f.order f.bytes i (.bits64 (wordAt f.order f.bytes (i + 28))) := by
      simp [read, and_assoc, peek_eq_ok_iff, hmagic]
    rw [hread, hmagic]
    constructor
    · rintro ⟨-, hin, rfl, rfl⟩
      exact ⟨⟨hin, rfl, rfl, fun _ h => (Layout.bits64.inj h).symm⟩, rfl⟩
    · rintro ⟨⟨hin, hlayout, hdecode, hreserved⟩, rfl⟩
      cases hl : h.layout with
      | bits32 => exact absurd (hlayout.trans (congrArg Layout.magic hl)) hmarks.symm
      | bits64 reserved =>
        have hsize : h.size = 32 := by rw [Header.size, hl]; rfl
        rw [hsize] at hin ⊢
        rw [hl, hreserved reserved hl] at hdecode
        exact ⟨Nat.le_trans (by omega) hin, hin, rfl, hdecode⟩

end Header

/-! ## Fat headers -/

namespace FatLayout

theorem ofMagic?_eq_some_iff {magic : UInt32} {layout : FatLayout} :
    ofMagic? magic = some layout ↔ magic = layout.magic := by
  unfold ofMagic?
  cases layout <;> grind [FatLayout.magic]

/-- A record depends on its bytes only. -/
theorem decode_congr {layout : FatLayout} {bytes bytes' : ByteArray} {i : Nat}
    (hi : i + layout.recordSize ≤ bytes.size) (hi' : i + layout.recordSize ≤ bytes'.size)
    (hbytes : ∀ k < layout.recordSize, byteAt bytes' (i + k) = byteAt bytes (i + k)) :
    layout.decode bytes' i = layout.decode bytes i := by
  have hword (d : Nat) (hd : d + 4 ≤ layout.recordSize) :
      wordAt .big bytes' (i + d) = wordAt .big bytes (i + d) :=
    wordAt_congr (by omega) (by omega) fun k hk => by
      simpa [Nat.add_assoc] using hbytes (d + k) (by omega)
  have hlong (d : Nat) (hd : d + 8 ≤ layout.recordSize) :
      longAt .big bytes' (i + d) = longAt .big bytes (i + d) :=
    longAt_congr (by omega) (by omega) fun k hk => by
      simpa [Nat.add_assoc] using hbytes (d + k) (by omega)
  cases layout with
  | bits32 =>
    rw [recordSize] at hword
    simp only [decode, hword 0 (by omega), hword 4 (by omega), hword 8 (by omega),
      hword 12 (by omega), hword 16 (by omega)]
  | bits64 =>
    rw [recordSize] at hword hlong
    simp only [decode, hword 0 (by omega), hword 4 (by omega), hlong 8 (by omega),
      hlong 16 (by omega), hword 24 (by omega)]

/-- The records stand one after the other from an offset on. -/
def HoldsRecords (layout : FatLayout) (bytes : ByteArray) : Nat → List FatArch → Prop
  | _, [] => True
  | i, a :: rest =>
    i + layout.recordSize ≤ bytes.size ∧ a = layout.decode bytes i ∧
      HoldsRecords layout bytes (i + layout.recordSize) rest

/-- Records are the same where the bytes are. -/
theorem HoldsRecords.congr {layout : FatLayout} {bytes bytes' : ByteArray} {i : Nat}
    {arches : List FatArch} (h : layout.HoldsRecords bytes i arches)
    (hsize : i + arches.length * layout.recordSize ≤ bytes'.size)
    (hbytes : ∀ k, i ≤ k → k < i + arches.length * layout.recordSize →
      byteAt bytes' k = byteAt bytes k) : layout.HoldsRecords bytes' i arches := by
  induction arches generalizing i with
  | nil => exact trivial
  | cons a rest ih =>
    obtain ⟨hin, rfl, hrest⟩ := h
    have hnext : i + layout.recordSize + rest.length * layout.recordSize =
        i + (rest.length + 1) * layout.recordSize := by rw [Nat.succ_mul]; omega
    rw [List.length_cons] at hsize hbytes
    have hin' : i + layout.recordSize ≤ bytes'.size := by omega
    refine ⟨hin', (decode_congr hin hin' fun k hk => ?_).symm, ih hrest (by omega) fun k hk hlt => ?_⟩
    · exact hbytes _ (by omega) (by omega)
    · exact hbytes k (by omega) (by omega)

/-- Reading records yields those that stand from the offset of the reader on. -/
theorem yields_readRecords_iff {layout : FatLayout} {count index i j : Nat} {arches : List FatArch} :
    Reading.Yields f i (layout.readRecords count index) arches j ↔
      arches.length = count ∧ layout.HoldsRecords f.bytes i arches ∧
        j = i + count * layout.recordSize := by
  -- by induction on the records that are left, from wherever the reader has come
  induction count generalizing index i arches with
  | zero =>
    simp only [readRecords, Reading.yields_pure, List.length_eq_zero_iff, Nat.zero_mul, Nat.add_zero]
    constructor
    · rintro ⟨rfl, rfl⟩
      exact ⟨rfl, trivial, rfl⟩
    · rintro ⟨rfl, -, rfl⟩
      exact ⟨rfl, rfl⟩
  | succ count ih =>
    have hnext : i + layout.recordSize + count * layout.recordSize =
        i + (count + 1) * layout.recordSize := by rw [Nat.succ_mul]; omega
    have hread : Reading.Yields f i (layout.readRecords (count + 1) index) arches j ↔
        i + layout.recordSize ≤ f.size ∧ ∃ rest, rest.length = count ∧
          layout.HoldsRecords f.bytes (i + layout.recordSize) rest ∧
          j = i + (count + 1) * layout.recordSize ∧ arches = layout.decode f.bytes i :: rest := by
      simp [readRecords, ih, and_assoc, hnext]
    rw [hread]
    constructor
    · rintro ⟨hin, rest, rfl, hrest, rfl, rfl⟩
      exact ⟨rfl, ⟨hin, rfl, hrest⟩, rfl⟩
    · rintro ⟨hlength, hrecords, rfl⟩
      cases arches with
      | nil => exact absurd hlength.symm (Nat.succ_ne_zero _)
      | cons a rest =>
        obtain ⟨hin, rfl, hrest⟩ := hrecords
        exact ⟨hin, rest, Nat.succ.inj hlength, hrest, rfl, rfl⟩

/-- A fat header with its records stands at the start of the bytes. -/
structure Opens (layout : FatLayout) (arches : List FatArch) (bytes : ByteArray) : Prop where
  head_le : 8 ≤ bytes.size
  magic : wordAt .big bytes 0 = layout.magic
  count : (wordAt .big bytes 4).toNat = arches.length
  pos : 0 < arches.length
  le_max : arches.length ≤ maxArchitectures
  records : layout.HoldsRecords bytes 8 arches

theorem HoldsRecords.size_le {layout : FatLayout} {bytes : ByteArray} {i : Nat}
    {arches : List FatArch} (h : layout.HoldsRecords bytes i arches) (hi : i ≤ bytes.size) :
    i + arches.length * layout.recordSize ≤ bytes.size := by
  induction arches generalizing i with
  | nil => simpa using hi
  | cons a rest ih =>
    have hrest := ih h.2.2 h.1
    rw [List.length_cons, Nat.succ_mul]
    omega

/-- The header with its records is inside the bytes. -/
theorem Opens.size_le {layout : FatLayout} {arches : List FatArch} {bytes : ByteArray}
    (h : layout.Opens arches bytes) : 8 + arches.length * layout.recordSize ≤ bytes.size :=
  h.records.size_le h.head_le

/-- What is read behind a mark that is not one of a thin binary. -/
theorem yields_readFat_iff {magic : UInt32} {j : Nat} {b : Binary} (hbig : f.order = .big) :
    Reading.Yields f 0 (readFat magic) b j ↔
      (8 ≤ f.size ∧ ofMagic? (wordAt .big f.bytes 0) = none ∧ b = .unrecognized magic ∧ j = 8) ∨
      ∃ layout arches, b = .fat layout arches ∧ layout.Opens arches f.bytes ∧
        j = 8 + arches.length * layout.recordSize := by
  cases hlayout : ofMagic? (wordAt .big f.bytes 0) with
  | none =>
    have hread : Reading.Yields f 0 (readFat magic) b j ↔
        8 ≤ f.size ∧ b = .unrecognized magic ∧ j = 8 := by
      simp [readFat, and_assoc, hbig, hlayout]
    rw [hread]
    constructor
    · rintro ⟨hhead, rfl, rfl⟩
      exact .inl ⟨hhead, rfl, rfl, rfl⟩
    · rintro (⟨hhead, -, rfl, rfl⟩ | ⟨_, _, -, hopens, -⟩)
      · exact ⟨hhead, rfl, rfl⟩
      · -- the mark of a fat binary would have been one of a layout
        rw [ofMagic?_eq_some_iff.mpr hopens.magic] at hlayout
        exact nomatch hlayout
  | some layout =>
    have hread : Reading.Yields f 0 (readFat magic) b j ↔
        8 ≤ f.size ∧ wordAt .big f.bytes 4 ≠ 0 ∧
          (wordAt .big f.bytes 4).toNat ≤ maxArchitectures ∧
          ∃ arches, arches.length = (wordAt .big f.bytes 4).toNat ∧
            layout.HoldsRecords f.bytes 8 arches ∧
            j = 8 + (wordAt .big f.bytes 4).toNat * layout.recordSize ∧ b = .fat layout arches := by
      simp [readFat, and_assoc, hbig, hlayout, yields_readRecords_iff]
    rw [hread]
    rw [ofMagic?_eq_some_iff] at hlayout
    constructor
    · rintro ⟨hhead, hpos, hmax, arches, hcount, hrecords, rfl, rfl⟩
      have hpos : (wordAt .big f.bytes 4).toNat ≠ 0 := fun h => hpos (UInt32.toNat.inj h)
      exact .inr ⟨layout, arches, rfl, ⟨hhead, hlayout, hcount.symm, by omega, by omega, hrecords⟩,
        by rw [hcount]⟩
    · rintro (⟨-, hno, -⟩ | ⟨layout', arches, rfl, ⟨hhead, hmagic, hcount, hpos, hmax, hrecords⟩, rfl⟩)
      · exact nomatch hno
      obtain rfl : layout = layout' := by
        rw [← ofMagic?_eq_some_iff] at hlayout hmagic
        exact Option.some.inj (hlayout.symm.trans hmagic)
      refine ⟨hhead, fun hzero => ?_, by omega, arches, hcount.symm, hrecords, by rw [hcount], rfl⟩
      rw [hzero, UInt32.toNat_zero] at hcount
      omega

end FatLayout

/-! ## Classification -/

/-- What is recognised at the start of a frame: behind the mark of a thin binary its header, else what
    a reader in big-endian order finds. -/
theorem classify_eq_ok_iff {b : Binary} :
    Reading.result f (classify 0) = .ok b ↔
      4 ≤ f.size ∧
      if isThinMagic (wordAt f.order f.bytes 0) = true then
        ∃ h, b = .thin h ∧ HoldsWords f.order f.bytes 0 h.words
      else
        Reading.result (f.withOrder (some .big)) (readFat (wordAt f.order f.bytes 0)) = .ok b := by
  have hpeek {w : UInt32} : f.peek 0 none = .ok w ↔ 4 ≤ f.size ∧ w = wordAt f.order f.bytes 0 :=
    peek_eq_ok_iff (i := 0)
  rw [Reading.result_eq_ok_iff]
  by_cases hmagic : isThinMagic (wordAt f.order f.bytes 0) = true
  · have hread {j : Nat} : Reading.Yields f 0 (classify 0) b j ↔
        4 ≤ f.size ∧ ∃ h, HoldsWords f.order f.bytes 0 h.words ∧ j = h.size ∧ b = .thin h := by
      simp [classify, and_assoc, hpeek, hmagic, Header.yields_read_iff hmagic]
    simp only [hread, if_pos hmagic]
    constructor
    · rintro ⟨_, hin, h, hwords, rfl, rfl⟩
      exact ⟨hin, h, rfl, hwords⟩
    · rintro ⟨hin, h, rfl, hwords⟩
      exact ⟨_, hin, h, hwords, rfl, rfl⟩
  · have hread {j : Nat} : Reading.Yields f 0 (classify 0) b j ↔
        4 ≤ f.size ∧
          Reading.result (f.withOrder (some .big)) (readFat (wordAt f.order f.bytes 0)) = .ok b ∧
          j = 0 := by
      simp [classify, and_assoc, hpeek, hmagic, Reading.result_eq_ok_iff]
    simp only [hread, if_neg hmagic]
    constructor
    · rintro ⟨_, hin, hfat, -⟩
      exact ⟨hin, hfat⟩
    · rintro ⟨hin, hfat⟩
      exact ⟨_, hin, hfat, rfl⟩

/-- A thin header is recognised exactly if its words stand at the start. -/
theorem classify_eq_thin_iff {h : Header} :
    Reading.result f (classify 0) = .ok (.thin h) ↔ HoldsWords f.order f.bytes 0 h.words := by
  rw [classify_eq_ok_iff]
  constructor
  · rintro ⟨-, hthin⟩
    -- by whether the mark is one of a thin binary
    split at hthin
    · obtain ⟨h', heq, hwords⟩ := hthin
      rwa [Binary.thin.inj heq]
    · -- no thin header is read in big-endian order behind another mark
      obtain ⟨j, hread⟩ := Reading.result_eq_ok_iff.mp hthin
      obtain ⟨-, -, hno, -⟩ | ⟨_, _, hno, -⟩ := (FatLayout.yields_readFat_iff rfl).mp hread
      · exact nomatch hno
      · exact nomatch hno
  · intro hwords
    rw [if_pos (Header.isThinMagic_of_holdsWords hwords)]
    exact ⟨hwords.1, h, rfl, hwords⟩

/-- A thin header is recognised exactly if the bytes start with its encoding. -/
theorem classify_eq_thin_iff_encode {h : Header} :
    Reading.result f (classify 0) = .ok (.thin h) ↔ h.encode f.order <+: f.bytes.data.toList := by
  rw [classify_eq_thin_iff, ← encode_isPrefix_iff, List.drop_zero, Header.encode_eq]

/-- A fat header is recognised exactly if it stands at the start, where no thin one does. -/
theorem classify_eq_fat_iff {layout : FatLayout} {arches : List FatArch} :
    Reading.result f (classify 0) = .ok (.fat layout arches) ↔
      isThinMagic (wordAt f.order f.bytes 0) = false ∧ layout.Opens arches f.bytes := by
  rw [classify_eq_ok_iff]
  constructor
  · rintro ⟨-, hfat⟩
    split at hfat
    · obtain ⟨h, hno, -⟩ := hfat
      exact nomatch hno
    · rename_i hmagic
      obtain ⟨j, hread⟩ := Reading.result_eq_ok_iff.mp hfat
      obtain ⟨-, -, hno, -⟩ | ⟨_, _, heq, hopens, -⟩ := (FatLayout.yields_readFat_iff rfl).mp hread
      · exact nomatch hno
      · obtain ⟨rfl, rfl⟩ := Binary.fat.inj heq
        exact ⟨Bool.eq_false_iff.mpr hmagic, hopens⟩
  · rintro ⟨hmagic, hopens⟩
    rw [if_neg (by rw [hmagic]; exact Bool.false_ne_true)]
    have hsize : 8 ≤ f.size := hopens.head_le
    refine ⟨by omega, Reading.result_eq_ok_iff.mpr ⟨8 + arches.length * layout.recordSize, ?_⟩⟩
    exact (FatLayout.yields_readFat_iff rfl).mpr (.inr ⟨layout, arches, rfl, hopens, rfl⟩)

/-! ## The byte order of a file -/

/-- The byte order in which a thin mark stands is the one that a reader takes by itself. -/
theorem probeOrder_eq_of_isThinMagic {order : ByteOrder} {bytes : ByteArray} (hin : 4 ≤ bytes.size)
    (h : isThinMagic (wordAt order bytes 0) = true) : probeOrder bytes = order := by
  have hin' : 0 + 4 ≤ bytes.size := by omega
  unfold probeOrder
  cases order with
  | little => rw [if_pos (by simp [h, hin])]
  | big =>
    -- read in the other order, the marks are none of a thin binary
    have hreversed : isThinMagic (wordAt .little bytes 0) = false := by
      simp only [isThinMagic, Bool.or_eq_true, beq_iff_eq] at h
      obtain hmagic | hmagic := h
      · rw [wordAt, (sliceList_eq_encode_iff hin').mpr hmagic]
        decide
      · rw [wordAt, (sliceList_eq_encode_iff hin').mpr hmagic]
        decide
    rw [if_neg (by simp [hreversed])]

/-- The byte order in which a thin header is encoded is the one that a reader takes by itself. -/
theorem probeOrder_eq_of_holdsWords {order : ByteOrder} {bytes : ByteArray} {h : Header}
    (hwords : HoldsWords order bytes 0 h.words) : probeOrder bytes = order :=
  probeOrder_eq_of_isThinMagic (by simpa using hwords.1) (Header.isThinMagic_of_holdsWords hwords)

/-- Bytes that start alike tell the same order. -/
theorem probeOrder_congr {bytes bytes' : ByteArray} (h : 4 ≤ bytes.size) (h' : 4 ≤ bytes'.size)
    (hbytes : ∀ k < 4, byteAt bytes' k = byteAt bytes k) : probeOrder bytes' = probeOrder bytes := by
  have hword : wordAt .little bytes' 0 = wordAt .little bytes 0 :=
    wordAt_congr (by omega) (by omega) fun k hk => by simpa using hbytes k hk
  simp only [probeOrder, hword, h, h', decide_true]

/-- A header that starts with the byte with which it starts in a given order, or with zero, stands there
    in that order. -/
theorem order_eq_of_holdsWords {order order' : ByteOrder} {bytes bytes' : ByteArray} {h : Header}
    (hwords : HoldsWords order bytes 0 h.words) (hwords' : HoldsWords order' bytes' 0 h.words)
    (hbyte : byteAt bytes' 0 = byteAt bytes 0 ∨ byteAt bytes' 0 = 0) : order' = order := by
  -- the first byte is that of the mark
  have hfirst {o : ByteOrder} {b : ByteArray} (hw : HoldsWords o b 0 h.words) :
      some (byteAt b 0) = (o.encode 4 h.layout.magic.toNat).head? := by
    have hslice := (sliceList_eq_encode_iff hw.1).mpr hw.2.1
    rw [show (o.encode 4 h.layout.magic.toNat) = sliceList b 0 4 from hslice.symm,
      sliceList_eq_map hw.1]
    rfl
  rw [← Option.some_inj, ← Option.some_inj (b := 0), hfirst hwords, hfirst hwords'] at hbyte
  -- in the other order the mark starts with another byte, which is not zero either
  obtain hmagic | hmagic := h.layout.magic_eq <;> rw [hmagic] at hbyte
  · cases order <;> cases order' <;> first | rfl | exact absurd hbyte (by decide)
  · cases order <;> cases order' <;> first | rfl | exact absurd hbyte (by decide)

/-- What is recognised as a fat binary is, wherever the bytes start with the same fat header. -/
theorem classify_eq_fat_congr {bytes bytes' : ByteArray} {layout : FatLayout} {arches : List FatArch}
    (h : Reading.result (.ofBytes none bytes) (classify 0) = .ok (.fat layout arches))
    (hsize : 8 + arches.length * layout.recordSize ≤ bytes'.size)
    (hbytes : ∀ k < 8 + arches.length * layout.recordSize, byteAt bytes' k = byteAt bytes k) :
    Reading.result (.ofBytes none bytes') (classify 0) = .ok (.fat layout arches) := by
  obtain ⟨hmagic, hopens⟩ := classify_eq_fat_iff.mp h
  have hhead : 8 ≤ bytes.size := hopens.head_le
  have hword {order : ByteOrder} {i : Nat} (hi : i + 4 ≤ 8) :
      wordAt order bytes' i = wordAt order bytes i :=
    wordAt_congr (by omega) (by omega) fun k hk => hbytes _ (by omega)
  have horder : probeOrder bytes' = probeOrder bytes :=
    probeOrder_congr (by omega) (by omega) fun k hk => hbytes k (by omega)
  -- neither the mark in the order that is found nor anything of the header has changed
  refine classify_eq_fat_iff.mpr ⟨?_, ?_⟩
  · rw [← hmagic]
    simp only [Frame.ofBytes, Option.getD_none, horder, hword (Nat.le_add_left 4 4)]
  · exact
      { head_le := Nat.le_trans (Nat.le_add_right ..) hsize
        magic := (hword (Nat.le_add_left 4 4)).trans hopens.magic
        count := (congrArg UInt32.toNat (hword (Nat.le_refl 8))).trans hopens.count
        pos := hopens.pos
        le_max := hopens.le_max
        records := hopens.records.congr hsize fun k _ hlt => hbytes k hlt }

end ReleaseSeal.MachO
