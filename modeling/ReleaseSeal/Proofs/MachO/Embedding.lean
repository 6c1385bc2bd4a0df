import Mathlib.Tactic.ByContra
import ReleaseSeal.Proofs.MachO.Encoding
import ReleaseSeal.Proofs.MachO.Failing
import ReleaseSeal.Proofs.Outcome

/-!
# Binaries behind other bytes

What is recognised at an offset behind other bytes, and what of the bytes from there on alone. An action
that starts at the offset does on the whole what it does on these bytes (`Reading.Shifts`), as long as both
are read in one byte order. But the order is the one that the reader has, and a reader that is told none
takes it from the start of what it looks at, not from where a binary is looked for.

## Key results

- `sameOutcome_classify_append`: in one order, what stands in front makes no difference
- `sameOutcome_classify_iff`: when the order makes none
- `classify_append_iff`: when a binary behind other bytes is recognised as it is alone
- `classify_little_endian_behind_zeros`: a binary that is not
-/

namespace ReleaseSeal.MachO

/-! ## Fields behind other bytes -/

section Bytes

variable {front bytes : ByteArray} {order : ByteOrder}

theorem sliceList_append (i length : Nat) :
    sliceList (front ++ bytes) (front.size + i) length = sliceList bytes i length := by
  simp only [sliceList, data_toList_extract, ByteArray.toList_data_append, List.drop_take,
    Nat.add_sub_cancel_left]
  rw [← List.drop_drop, List.drop_left' (length_data_toList front)]

theorem wordAt_append (i : Nat) :
    wordAt order (front ++ bytes) (front.size + i) = wordAt order bytes i := by
  rw [wordAt, sliceList_append, wordAt]

theorem longAt_append (i : Nat) :
    longAt order (front ++ bytes) (front.size + i) = longAt order bytes i := by
  rw [longAt, sliceList_append, longAt]

theorem Header.decode_append (i : Nat) (layout : Layout) :
    Header.decode order (front ++ bytes) (front.size + i) layout = .decode order bytes i layout := by
  simp only [Header.decode, Nat.add_assoc, wordAt_append]

theorem FatLayout.decode_append (layout : FatLayout) (i : Nat) :
    layout.decode (front ++ bytes) (front.size + i) = layout.decode bytes i := by
  cases layout <;> simp only [FatLayout.decode, Nat.add_assoc, wordAt_append, longAt_append]

end Bytes

/-! ## Actions behind other bytes -/

/-- Two outcomes are the same result, or faults of one class. -/
def SameOutcome {α : Type} (x y : Except Error α) : Prop :=
  x.mapError Error.kind? = y.mapError Error.kind?

theorem SameOutcome.symm {α : Type} {x y : Except Error α} (h : SameOutcome x y) : SameOutcome y x :=
  Eq.symm h

theorem SameOutcome.trans {α : Type} {x y z : Except Error α} (h : SameOutcome x y)
    (h' : SameOutcome y z) : SameOutcome x z :=
  Eq.trans h h'

theorem SameOutcome.eq_ok_iff {α : Type} {x y : Except Error α} (h : SameOutcome x y) {a : α} :
    x = .ok a ↔ y = .ok a := by
  rw [← mapError_eq_ok, h, mapError_eq_ok]

namespace Reading

variable {α β : Type} {front bytes : ByteArray} {order : ByteOrder}

/-- An action that starts behind some bytes does what another one does without them: it yields a related
    result and moves as far, or it fails with a fault of the same class. -/
structure Shifts (front bytes : ByteArray) (order : ByteOrder) (R : α → α → Prop) (x y : Reading α) :
    Prop where
  yields : ∀ {i a j}, Yields ⟨bytes, order⟩ i y a j →
    ∃ a', R a' a ∧ Yields ⟨front ++ bytes, order⟩ (front.size + i) x a' (front.size + j)
  fails : ∀ {i e}, Fails ⟨bytes, order⟩ i y e →
    ∃ e', e'.kind? = e.kind? ∧ Fails ⟨front ++ bytes, order⟩ (front.size + i) x e'

section

variable {R : α → α → Prop} {S : β → β → Prop}

theorem shifts_pure {a' a : α} (h : R a' a) : Shifts front bytes order R (pure a') (pure a) := by
  constructor
  · intro i b j hy
    obtain ⟨rfl, rfl⟩ := yields_pure.mp hy
    exact ⟨a', h, yields_pure.mpr ⟨rfl, rfl⟩⟩
  · intro i e hy
    exact absurd hy not_fails_pure

theorem shifts_throw {e' e : Error} (h : e'.kind? = e.kind?) :
    Shifts front bytes order R (throw e') (throw e) := by
  constructor
  · intro i a j hy
    exact absurd hy not_yields_throw
  · intro i e₀ hy
    rw [fails_throw.mp hy]
    exact ⟨e', h, fails_throw.mpr rfl⟩

theorem Shifts.bind {x y : Reading α} {g h : α → Reading β} (hxy : Shifts front bytes order R x y)
    (hgh : ∀ a' a, R a' a → Shifts front bytes order S (g a') (h a)) :
    Shifts front bytes order S (x >>= g) (y >>= h) := by
  constructor
  · intro i b j hy
    obtain ⟨a, k, hfirst, hrest⟩ := yields_bind.mp hy
    obtain ⟨a', ha, hfirst'⟩ := hxy.yields hfirst
    obtain ⟨b', hb, hrest'⟩ := (hgh a' a ha).yields hrest
    exact ⟨b', hb, yields_bind.mpr ⟨a', _, hfirst', hrest'⟩⟩
  · intro i e hy
    obtain hfirst | ⟨a, k, hfirst, hrest⟩ := fails_bind.mp hy
    · obtain ⟨e', he, hfirst'⟩ := hxy.fails hfirst
      exact ⟨e', he, fails_bind.mpr (.inl hfirst')⟩
    · obtain ⟨a', ha, hfirst'⟩ := hxy.yields hfirst
      obtain ⟨e', he, hrest'⟩ := (hgh a' a ha).fails hrest
      exact ⟨e', he, fails_bind.mpr (.inr ⟨a', _, hfirst', hrest'⟩)⟩

/-- Behind a look at the frame, each action is about its own. -/
theorem Shifts.read_bind {g h : Frame → Reading β}
    (hgh : Shifts front bytes order S (g ⟨front ++ bytes, order⟩) (h ⟨bytes, order⟩)) :
    Shifts front bytes order S (read >>= g) (read >>= h) := by
  constructor
  · intro i b j hy
    obtain ⟨f, k, hread, hrest⟩ := yields_bind.mp hy
    obtain ⟨rfl, rfl⟩ := yields_read.mp hread
    obtain ⟨b', hb, hrest'⟩ := hgh.yields hrest
    exact ⟨b', hb, yields_bind.mpr ⟨_, _, yields_read.mpr ⟨rfl, rfl⟩, hrest'⟩⟩
  · intro i e hy
    obtain hfirst | ⟨f, k, hread, hrest⟩ := fails_bind.mp hy
    · exact absurd hfirst not_fails_read
    · obtain ⟨rfl, rfl⟩ := yields_read.mp hread
      obtain ⟨e', he, hrest'⟩ := hgh.fails hrest
      exact ⟨e', he, fails_bind.mpr (.inr ⟨_, _, yields_read.mpr ⟨rfl, rfl⟩, hrest'⟩)⟩

theorem shifts_ofOutcome {x y : Except Error α} (h : SameOutcome x y) :
    Shifts front bytes order Eq (ofOutcome x) (ofOutcome y) := by
  unfold SameOutcome at h
  cases x with
  | ok a =>
    cases y with
    | ok b =>
      cases h
      exact shifts_pure rfl
    | error e => cases h
  | error e' =>
    cases y with
    | ok b => cases h
    | error e => exact shifts_throw (Except.error.inj h)

/-- Offsets are relative to the bytes in front. -/
theorem shifts_tell :
    Shifts front bytes order (fun k' k => k' = front.size + k) tell tell := by
  constructor
  · intro i k j hy
    obtain ⟨rfl, rfl⟩ := yields_tell.mp hy
    exact ⟨_, rfl, yields_tell.mpr ⟨rfl, rfl⟩⟩
  · intro i e hy
    exact absurd hy not_fails_tell

theorem shifts_record (what : String) (width : Nat) :
    Shifts front bytes order (fun k' k => k' = front.size + k) (record what width)
      (record what width) := by
  have hsize : (front ++ bytes).size = front.size + bytes.size := ByteArray.size_append
  constructor
  · intro i k j hy
    obtain ⟨hin, rfl, rfl⟩ := yields_record.mp hy
    refine ⟨_, rfl, yields_record.mpr ⟨?_, rfl, (Nat.add_assoc ..).symm⟩⟩
    simp only [Frame.size] at hin ⊢
    omega
  · intro i e hy
    obtain ⟨hout, rfl⟩ := fails_record.mp hy
    refine ⟨_, ?_, fails_record.mpr ⟨?_, rfl⟩⟩
    · rfl
    · simp only [Frame.size] at hout ⊢
      omega

end

/-- The words at corresponding offsets are the same. -/
theorem sameOutcome_peek (k : Nat) :
    SameOutcome (Frame.peek ⟨front ++ bytes, order⟩ ((front.size + k : Nat) : Int) none)
      (Frame.peek ⟨bytes, order⟩ (k : Int) none) := by
  have hsize : (front ++ bytes).size = front.size + bytes.size := ByteArray.size_append
  unfold SameOutcome
  by_cases hin : k + 4 ≤ bytes.size
  · have hpeek : Frame.peek ⟨bytes, order⟩ (k : Int) none = .ok (wordAt order bytes k) :=
      peek_eq_ok_iff.mpr ⟨hin, rfl⟩
    have hpeek' : Frame.peek ⟨front ++ bytes, order⟩ ((front.size + k : Nat) : Int) none =
        .ok (wordAt order bytes k) := by
      refine peek_eq_ok_iff.mpr ⟨?_, (wordAt_append k).symm⟩
      simp only [Frame.size]
      omega
    rw [hpeek, hpeek']
  · simp only [Frame.peek, Frame.size]
    rw [if_pos (by omega), if_pos (by omega)]
    rfl

theorem shifts_wordPair (what : String) :
    Shifts front bytes order Eq (wordPair what) (wordPair what) := by
  unfold wordPair
  apply (shifts_record what 8).bind
  rintro _ k rfl
  apply Shifts.read_bind
  apply shifts_pure
  simp only [Nat.add_assoc, wordAt_append]

end Reading

theorem Header.shifts_read {front bytes : ByteArray} {order : ByteOrder} :
    Reading.Shifts front bytes order Eq Header.read Header.read := by
  unfold Header.read
  apply Reading.Shifts.read_bind
  apply Reading.shifts_tell.bind
  rintro _ k rfl
  apply (Reading.shifts_ofOutcome (Reading.sameOutcome_peek k)).bind
  rintro _ magic rfl
  split
  · apply (Reading.shifts_record "mach header" 32).bind
    rintro _ i rfl
    apply Reading.shifts_pure
    simp only [Nat.add_assoc, wordAt_append, decode_append]
  · apply (Reading.shifts_record "mach header" 28).bind
    rintro _ i rfl
    apply Reading.shifts_pure
    rw [decode_append]

theorem FatLayout.shifts_readRecords {front bytes : ByteArray} {order : ByteOrder} (layout : FatLayout)
    (count index : Nat) :
    Reading.Shifts front bytes order Eq (layout.readRecords count index)
      (layout.readRecords count index) := by
  induction count generalizing index with
  | zero => exact Reading.shifts_pure rfl
  | succ count ih =>
    rw [readRecords]
    apply (Reading.shifts_record _ _).bind
    rintro _ i rfl
    apply Reading.Shifts.read_bind
    apply (ih (index + 1)).bind
    rintro _ rest rfl
    apply Reading.shifts_pure
    rw [decode_append]

theorem shifts_readFat {front bytes : ByteArray} {order : ByteOrder} (magic : UInt32) :
    Reading.Shifts front bytes order Eq (readFat magic) (readFat magic) := by
  unfold readFat
  apply (Reading.shifts_wordPair _).bind
  rintro _ ⟨fatMagic, count⟩ rfl
  dsimp only
  cases FatLayout.ofMagic? fatMagic with
  | none => exact Reading.shifts_pure rfl
  | some layout =>
    dsimp only
    split
    · exact Reading.shifts_throw rfl
    split
    · exact Reading.shifts_throw rfl
    apply (layout.shifts_readRecords _ _).bind
    rintro _ arches rfl
    exact Reading.shifts_pure rfl

/-- What is read from an offset on. -/
theorem Reading.sameOutcome_of_shifts {α : Type} {front bytes : ByteArray} {order : ByteOrder}
    {x y : Reading α} (h : Shifts front bytes order Eq x y) :
    SameOutcome (result ⟨front ++ bytes, order⟩ (seek front.size >>= fun _ => x))
      (result ⟨bytes, order⟩ (seek 0 >>= fun _ => y)) := by
  -- the end of the bytes in front is an offset inside the frame
  have hseek : Yields ⟨front ++ bytes, order⟩ 0 (seek front.size) () front.size := by
    refine yields_seek_natCast.mpr ⟨?_, rfl⟩
    rw [Frame.size, ByteArray.size_append]
    exact Nat.le_add_right ..
  cases houtcome : result ⟨bytes, order⟩ (seek 0 >>= fun _ => y) with
  | ok a =>
    obtain ⟨j, hy⟩ := result_eq_ok_iff.mp houtcome
    obtain ⟨_, k, hstart, hy⟩ := yields_bind.mp hy
    obtain ⟨-, -, rfl⟩ := yields_seek.mp hstart
    obtain ⟨a', rfl, hx⟩ := h.yields hy
    rw [Int.toNat_zero, Nat.add_zero] at hx
    rw [result_eq_ok_iff.mpr ⟨_, yields_bind.mpr ⟨(), front.size, hseek, hx⟩⟩]
    rfl
  | error e =>
    obtain hno | ⟨_, k, hstart, hy⟩ := fails_bind.mp (result_eq_error_iff.mp houtcome)
    · obtain ⟨hno, -⟩ := fails_seek.mp hno
      exact absurd ⟨Int.le_refl 0, Int.natCast_nonneg _⟩ hno
    · obtain ⟨-, -, rfl⟩ := yields_seek.mp hstart
      obtain ⟨e', he, hx⟩ := h.fails hy
      rw [Int.toNat_zero, Nat.add_zero] at hx
      rw [result_eq_error_iff.mpr (fails_bind.mpr (.inr ⟨(), front.size, hseek, hx⟩))]
      exact congrArg Except.error he

/-- In one byte order it makes no difference what stands in front. -/
theorem sameOutcome_classify_append (front bytes : ByteArray) (order : ByteOrder) :
    SameOutcome (Reading.result ⟨front ++ bytes, order⟩ (classify front.size))
      (Reading.result ⟨bytes, order⟩ (classify 0)) := by
  apply Reading.sameOutcome_of_shifts
  apply Reading.Shifts.read_bind
  apply (Reading.shifts_ofOutcome (Reading.sameOutcome_peek 0)).bind
  rintro magic _ rfl
  split
  · apply Header.shifts_read.bind
    rintro _ h rfl
    exact Reading.shifts_pure rfl
  · -- a fat header is looked for in big-endian order, from the same offset on
    apply Reading.shifts_ofOutcome
    apply Reading.sameOutcome_of_shifts
    exact shifts_readFat magic

/-! ## The byte order of a reader -/

variable {f : Frame}

/-- Classification fails if the first word is out of reach, or as what is read behind it does. -/
theorem classify_eq_error_iff {e : Error} :
    Reading.result f (classify 0) = .error e ↔
      f.peek 0 none = .error e ∨
        (4 ≤ f.size ∧
          if isThinMagic (wordAt f.order f.bytes 0) = true then Reading.Fails f 0 Header.read e
          else Reading.result (f.withOrder (some .big)) (readFat (wordAt f.order f.bytes 0)) =
            .error e) := by
  have hpeek {w : UInt32} : f.peek 0 none = .ok w ↔ 4 ≤ f.size ∧ w = wordAt f.order f.bytes 0 :=
    peek_eq_ok_iff (i := 0)
  rw [Reading.result_eq_error_iff]
  by_cases hthin : isThinMagic (wordAt f.order f.bytes 0) = true
  · simp [classify, and_assoc, hpeek, hthin]
  · simp [classify, and_assoc, hpeek, hthin, Reading.result_eq_error_iff]

/-- Behind a first word that is no thin mark in the reader's order, a fat header is looked for. -/
theorem classify_eq_readFat (hsize : 4 ≤ f.size)
    (hthin : isThinMagic (wordAt f.order f.bytes 0) = false) :
    Reading.result f (classify 0) =
      Reading.result (f.withOrder (some .big)) (readFat (wordAt f.order f.bytes 0)) := by
  have hno : ¬isThinMagic (wordAt f.order f.bytes 0) = true := by
    rw [hthin]
    exact Bool.false_ne_true
  cases houtcome : Reading.result (f.withOrder (some .big)) (readFat (wordAt f.order f.bytes 0)) with
  | ok b =>
    refine classify_eq_ok_iff.mpr ⟨hsize, ?_⟩
    rwa [if_neg hno]
  | error e =>
    refine classify_eq_error_iff.mpr (.inr ⟨hsize, ?_⟩)
    rwa [if_neg hno]

/-- Behind the mark of a thin binary a header is too short if the frame is. -/
theorem Header.exists_fails_read (hsize : 4 ≤ f.size) (h : f.size < 28) :
    ∃ e, Reading.Fails f 0 Header.read e ∧ e.kind? = some .parse := by
  have hpeek : f.peek 0 none = .ok (wordAt f.order f.bytes 0) := peek_eq_ok_iff.mpr ⟨hsize, rfl⟩
  by_cases hwide : wordAt f.order f.bytes 0 = thinMagic64
  · refine ⟨.insufficient "mach header" 32 0 f.size, ?_, rfl⟩
    simp [Header.read, and_assoc, hpeek, hwide]
    omega
  · refine ⟨.insufficient "mach header" 28 0 f.size, ?_, rfl⟩
    simp [Header.read, and_assoc, hpeek, hwide, h]

/-- Bytes that are too short for any header are too short in every order. -/
theorem exists_classify_eq_error_of_short (h : f.size < 8) :
    ∃ e, Reading.result f (classify 0) = .error e ∧ e.kind? = some .parse := by
  simp only [classify_eq_error_iff]
  by_cases hword : 4 ≤ f.size
  · by_cases hthin : isThinMagic (wordAt f.order f.bytes 0) = true
    · obtain ⟨e, hfails, hkind⟩ := Header.exists_fails_read hword (by omega)
      exact ⟨e, .inr ⟨hword, by rwa [if_pos hthin]⟩, hkind⟩
    · refine ⟨.insufficient "fat header" 8 0 f.size, .inr ⟨hword, ?_⟩, rfl⟩
      rw [if_neg hthin, Reading.result_eq_error_iff, readFat]
      exact Reading.fails_bind.mpr (.inl (Reading.fails_wordPair.mpr ⟨h, rfl⟩))
  · refine ⟨.insufficientMagic 0, .inl ?_, rfl⟩
    rw [Frame.peek, if_pos (by omega)]

/-- If a fat header is announced, the word that stands there in the reader's order does not matter. -/
theorem result_readFat_congr {layout : FatLayout} (hbig : f.order = .big) (hsize : 8 ≤ f.size)
    (h : wordAt .big f.bytes 0 = layout.magic) (magic magic' : UInt32) :
    Reading.result f (readFat magic) = Reading.result f (readFat magic') := by
  have hpair : Reading.Yields f 0 (Reading.wordPair "fat header")
      (wordAt f.order f.bytes 0, wordAt f.order f.bytes 4) 8 :=
    Reading.yields_wordPair.mpr ⟨hsize, rfl, rfl⟩
  unfold Reading.result readFat
  rw [Reading.run_bind_of_yields hpair, Reading.run_bind_of_yields hpair]
  dsimp only
  rw [hbig, FatLayout.ofMagic?_eq_some_iff.mpr h]

/-- Which order a reader takes makes no difference exactly if it takes the one that the bytes tell, or they
    are too short for any header, or a fat header is announced, or the first word is the same in both orders. -/
theorem sameOutcome_classify_iff (bytes : ByteArray) (order : ByteOrder) :
    SameOutcome (Reading.result ⟨bytes, order⟩ (classify 0))
        (Reading.result (.ofBytes none bytes) (classify 0)) ↔
      order = probeOrder bytes ∨ bytes.size < 8 ∨
        (∃ layout, wordAt .big bytes 0 = FatLayout.magic layout) ∨
        wordAt .little bytes 0 = wordAt .big bytes 0 := by
  constructor
  · intro hsame
    by_contra hno
    simp only [not_or, Nat.not_lt, not_exists] at hno
    obtain ⟨horder, hsize, hfat, hword⟩ := hno
    have hthin : isThinMagic (wordAt order bytes 0) = false := by
      by_contra hthin
      rw [Bool.not_eq_false] at hthin
      exact horder (probeOrder_eq_of_isThinMagic (by omega) hthin).symm
    have hnone : FatLayout.ofMagic? (wordAt .big bytes 0) = none := by
      rw [Option.eq_none_iff_forall_ne_some]
      intro layout hlayout
      exact hfat layout (FatLayout.ofMagic?_eq_some_iff.mp hlayout)
    -- in the other order nothing is recognised, and the word is told as it stands there
    have hleft : Reading.result ⟨bytes, order⟩ (classify 0) =
        .ok (.unrecognized (wordAt order bytes 0)) :=
      classify_eq_unrecognized_iff_of_order.mpr ⟨hsize, rfl, hthin, hnone⟩
    have hright := hsame.eq_ok_iff.mp hleft
    obtain ⟨-, hwords, -⟩ := classify_eq_unrecognized_iff_of_order.mp hright
    simp only [Frame.ofBytes, Option.getD_none] at hwords
    cases order with
    | little =>
      cases hprobe : probeOrder bytes with
      | little => exact horder hprobe.symm
      | big =>
        rw [hprobe] at hwords
        exact hword hwords
    | big =>
      cases hprobe : probeOrder bytes with
      | little =>
        rw [hprobe] at hwords
        exact hword hwords.symm
      | big => exact horder hprobe.symm
  · intro h
    by_cases hprobe : order = probeOrder bytes
    · rw [hprobe]
      rfl
    by_cases hshort : bytes.size < 8
    · obtain ⟨e, he, hkind⟩ := exists_classify_eq_error_of_short (f := ⟨bytes, order⟩) hshort
      obtain ⟨e', he', hkind'⟩ := exists_classify_eq_error_of_short (f := .ofBytes none bytes) hshort
      rw [he, he']
      exact congrArg Except.error (hkind.trans hkind'.symm)
    have hsize : 8 ≤ bytes.size := by omega
    have hword : 4 ≤ bytes.size := by omega
    obtain hno | hno | ⟨layout, hfat⟩ | hboth := h
    · exact absurd hno hprobe
    · exact absurd hno hshort
    · -- neither order makes a thin mark of a fat one
      have hthin (o : ByteOrder) := isThinMagic_eq_false_of_fatMagic o hword hfat
      rw [classify_eq_readFat (f := ⟨bytes, order⟩) hword (hthin order),
        classify_eq_readFat (f := .ofBytes none bytes) hword (hthin _)]
      exact congrArg _ (result_readFat_congr (f := ⟨bytes, .big⟩) rfl hsize hfat _ _)
    · have hwords : wordAt order bytes 0 = wordAt (probeOrder bytes) bytes 0 := by
        cases order <;> cases probeOrder bytes <;> first | rfl | exact hboth | exact hboth.symm
      have hthin : isThinMagic (wordAt order bytes 0) = false := by
        by_contra hthin
        rw [Bool.not_eq_false] at hthin
        exact hprobe (probeOrder_eq_of_isThinMagic hword hthin).symm
      rw [classify_eq_readFat (f := ⟨bytes, order⟩) hword hthin,
        classify_eq_readFat (f := .ofBytes none bytes) hword (hwords ▸ hthin)]
      simp only [Frame.ofBytes, Option.getD_none, ← hwords]
      rfl

/-! ## Classification behind other bytes -/

/-- A binary behind other bytes is recognised as it is by itself if the reader takes the order that the binary
    tells. A reader that takes another one, because it was given it or because of what stands in front, sees
    the same only if the binary is too short for any header, or a fat header is announced, or its first word
    is the same in both orders; so a thin binary is recognised in its own order only, and a fat one always. -/
theorem classify_append_iff (front bytes : ByteArray) (order? : Option ByteOrder) :
    (SameOutcome (Reading.result (.ofBytes order? (front ++ bytes)) (classify front.size))
        (Reading.result (.ofBytes none bytes) (classify 0)) ↔
      (Frame.ofBytes order? (front ++ bytes)).order = probeOrder bytes ∨ bytes.size < 8 ∨
        (∃ layout, wordAt .big bytes 0 = FatLayout.magic layout) ∨
        wordAt .little bytes 0 = wordAt .big bytes 0) ∧
    (∀ h, Reading.result (.ofBytes order? (front ++ bytes)) (classify front.size) = .ok (.thin h) ↔
      Reading.result (.ofBytes none bytes) (classify 0) = .ok (.thin h) ∧
        (Frame.ofBytes order? (front ++ bytes)).order = probeOrder bytes) ∧
    (∀ layout arches,
      Reading.result (.ofBytes order? (front ++ bytes)) (classify front.size) =
          .ok (.fat layout arches) ↔
        Reading.result (.ofBytes none bytes) (classify 0) = .ok (.fat layout arches)) := by
  obtain ⟨order, horder⟩ : ∃ order, (Frame.ofBytes order? (front ++ bytes)).order = order := ⟨_, rfl⟩
  have hframe : Frame.ofBytes order? (front ++ bytes) = ⟨front ++ bytes, order⟩ := by
    rw [← horder]
    rfl
  -- what stands in front only tells the order
  have hshift := sameOutcome_classify_append front bytes order
  rw [hframe]
  refine ⟨?same, ?thin, ?fat⟩
  case same =>
    rw [← sameOutcome_classify_iff]
    exact ⟨hshift.symm.trans, hshift.trans⟩
  case thin =>
    intro h
    rw [hshift.eq_ok_iff, classify_eq_thin_iff, classify_eq_thin_iff]
    constructor
    · intro hwords
      have hprobe := probeOrder_eq_of_holdsWords hwords
      refine ⟨?_, hprobe.symm⟩
      simpa only [Frame.ofBytes, Option.getD_none, hprobe] using hwords
    · intro halone
      obtain ⟨hwords, hprobe⟩ := halone
      rw [show order = probeOrder bytes from hprobe]
      exact hwords
  case fat =>
    intro layout arches
    rw [hshift.eq_ok_iff, classify_eq_fat_iff, classify_eq_fat_iff]
    apply and_congr_left
    intro hopens
    have hsize := hopens.head_le
    have hthin (o : ByteOrder) := isThinMagic_eq_false_of_fatMagic o (by omega) hopens.magic
    exact iff_of_true (hthin _) (hthin _)

/-- A narrow thin header in little-endian order is recognised by itself, but not behind four zeros. -/
theorem classify_little_endian_behind_zeros :
    let front : ByteArray := ⟨#[0, 0, 0, 0]⟩
    let bytes : ByteArray := ⟨#[0xce, 0xfa, 0xed, 0xfe, 7, 0, 0, 0, 3, 0, 0, 0, 2, 0, 0, 0,
      0, 0, 0, 0, 0, 0, 0, 0, 0, 0, 0, 0]⟩
    Reading.result (.ofBytes none (front ++ bytes)) (classify front.size) =
        .ok (.unrecognized 0xcefaedfe) ∧
      Reading.result (.ofBytes none bytes) (classify 0) = .ok (.thin
        { layout := .bits32, cpuType := 7, cpuSubtype := 3, fileType := 2, commandCount := 0,
          commandsSize := 0, flags := 0 }) ∧
      ¬SameOutcome (Reading.result (.ofBytes none (front ++ bytes)) (classify front.size))
        (Reading.result (.ofBytes none bytes) (classify 0)) := by
  intro front bytes
  have hbehind : Reading.result (.ofBytes none (front ++ bytes)) (classify front.size) =
      .ok (.unrecognized 0xcefaedfe) := by
    decide +kernel
  have halone : Reading.result (.ofBytes none bytes) (classify 0) = .ok (.thin
      { layout := .bits32, cpuType := 7, cpuSubtype := 3, fileType := 2, commandCount := 0,
        commandsSize := 0, flags := 0 }) := by
    decide +kernel
  refine ⟨hbehind, halone, ?_⟩
  rw [hbehind, halone]
  intro hno
  cases hno

end ReleaseSeal.MachO
