import Mathlib.Data.Set.List
import ReleaseSeal.Proofs.Bytes.Assigned
import ReleaseSeal.Proofs.MachO.Unsigned

/-!
# The effect of stripping a file

The commands are read from the file as it was, and what they declare is assigned zeros in a buffer that
could grow. It never does: every range is inside its slice, and every slice inside the file. So the buffer
is, in whatever order the ranges are assigned, the file with all of them blanked, and only the place at
which a thin file is cut depends on an order, that of its commands.

## Key results

- `ThinSlice.covers_iff`: what a slice covers, assignment by assignment
- `foldl_assignments`: what the assignments to a buffer do, in any order
- `StrippedFile.of_buffer`: the effect on a file, from the buffer and where it is cut
- `exists_strippedFile`: the effect on a file that can be stripped
-/

namespace ReleaseSeal.MachO

/-! ## Thin slices -/

namespace PlacedCommand

/-- The signature that a command declares, as a range of the file in which its slice starts at `base`. -/
def signatureRange (f : Frame) (base : Nat) (c : PlacedCommand) : ByteRange :=
  ⟨base + c.signatureOffset f, c.signatureSize f⟩

/-- The fields that locate a signature, as a range of the file. -/
def locatorRange (base : Nat) (c : PlacedCommand) : ByteRange :=
  ⟨base + c.locator, 8⟩

variable {f : Frame} {base : Nat} {c : PlacedCommand} {i : Nat}

theorem has_signatureRange_iff :
    (c.signatureRange f base).Has i ↔ base ≤ i ∧ c.Declares f (i - base) := by
  simp only [signatureRange, ByteRange.Has, ByteRange.stop, Declares, signatureEnd]
  omega

theorem has_locatorRange_iff : (c.locatorRange base).Has i ↔ base ≤ i ∧ c.Locates (i - base) := by
  simp only [locatorRange, ByteRange.Has, ByteRange.stop, Locates]
  omega

/-- Ranges inside a slice that is inside a file are inside the file. -/
theorem IsInside.stop_le (h : c.IsInside f) {size : Nat} (hin : base + f.size ≤ size) :
    (c.signatureRange f base).stop ≤ size ∧ (c.locatorRange base).stop ≤ size := by
  obtain ⟨hlocator, hend⟩ := h
  simp only [signatureRange, locatorRange, ByteRange.stop, signatureEnd] at *
  omega

end PlacedCommand

/-- A thin slice of a file, by where it starts there. -/
structure ThinSlice where
  base : Nat
  frame : Frame
  binary : ThinBinary frame

namespace ThinSlice

/-- Where the slice starts, and its frame. -/
def place (s : ThinSlice) : Nat × Frame := (s.base, s.frame)

/-- The ranges of the file that are assigned zeros because of the slice, command by command. -/
def assignments (s : ThinSlice) : List ByteRange :=
  s.binary.signatures.flatMap fun c => [c.signatureRange s.frame s.base, c.locatorRange s.base]

/-- The offset of the file lies in a signature that the slice declares, or in the fields that locate
    one. -/
def Covers (s : ThinSlice) (i : Nat) : Prop :=
  s.base ≤ i ∧ s.binary.Covers (i - s.base)

/-- There is only one slice at a place. -/
theorem place_injective : Function.Injective place := by
  rintro ⟨base, f, B⟩ ⟨base', f', B'⟩ h
  obtain ⟨rfl, rfl⟩ := Prod.mk.inj h
  rw [Subsingleton.elim B B']

variable {s : ThinSlice} {r : ByteRange} {i : Nat}

theorem mem_assignments_iff :
    r ∈ s.assignments ↔
      ∃ c ∈ s.binary.signatures, r = c.signatureRange s.frame s.base ∨ r = c.locatorRange s.base := by
  simp [assignments]

/-- A slice covers what its assignments do. -/
theorem covers_iff : s.Covers i ↔ ∃ r ∈ s.assignments, r.Has i := by
  simp only [Covers, ThinBinary.covers_iff, mem_assignments_iff]
  constructor
  · rintro ⟨hbase, c, hc, hdeclares | hlocates⟩
    · exact ⟨_, ⟨c, hc, .inl rfl⟩, PlacedCommand.has_signatureRange_iff.mpr ⟨hbase, hdeclares⟩⟩
    · exact ⟨_, ⟨c, hc, .inr rfl⟩, PlacedCommand.has_locatorRange_iff.mpr ⟨hbase, hlocates⟩⟩
  · rintro ⟨r, ⟨c, hc, rfl | rfl⟩, hhas⟩
    · obtain ⟨hbase, hdeclares⟩ := PlacedCommand.has_signatureRange_iff.mp hhas
      exact ⟨hbase, c, hc, .inl hdeclares⟩
    · obtain ⟨hbase, hlocates⟩ := PlacedCommand.has_locatorRange_iff.mp hhas
      exact ⟨hbase, c, hc, .inr hlocates⟩

/-- The slice is inside a file of the size, and what it declares is inside the slice. -/
structure IsInside (s : ThinSlice) (size : Nat) : Prop where
  in_file : s.base + s.frame.size ≤ size
  in_slice : ∀ c ∈ s.binary.signatures, c.IsInside s.frame

theorem IsInside.stop_le {size : Nat} (h : s.IsInside size) (hr : r ∈ s.assignments) :
    r.stop ≤ size := by
  obtain ⟨c, hc, rfl | rfl⟩ := mem_assignments_iff.mp hr
  · exact ((h.in_slice c hc).stop_le h.in_file).1
  · exact ((h.in_slice c hc).stop_le h.in_file).2

end ThinSlice

/-- The frame holds a thin binary. -/
def Frame.isThin (f : Frame) : Bool :=
  match Reading.result f (classify 0) with
  | .ok (.thin _) => true
  | _ => false

/-- Where the thin slices of a file are: the whole file if it is thin, and those of its slices that are
    thin if it is fat. -/
def thinPlaces (file : ByteArray) : List (Nat × Frame) :=
  match Reading.result (.ofBytes none file) (classify 0) with
  | .ok (.thin _) => [(0, .ofBytes none file)]
  | .ok (.fat _ arches) =>
    (arches.filter fun a => (a.frame file).isThin).map fun a => (a.offset.toNat, a.frame file)
  | _ => []

/-! ## The effect on a file -/

/-- Some slice covers the offset. -/
def CoveredBy (slices : List ThinSlice) (i : Nat) : Prop :=
  ∃ s ∈ slices, s.Covers i

/-- How long a file is after it was stripped. -/
structure StrippedSize (file stripped : ByteArray) : Prop where
  /-- A fat file keeps its size. -/
  fat : ∀ layout arches, Reading.result (.ofBytes none file) (classify 0) = .ok (.fat layout arches) →
    stripped.size = file.size
  /-- A thin file keeps its size if no signature is its end. -/
  uncut : ∀ B : ThinBinary (.ofBytes none file),
    lastReaching? (.ofBytes none file) B.signatures = none → stripped.size = file.size
  /-- Otherwise it is cut where the last such signature starts, and only bytes of it are dropped. -/
  cut : ∀ (B : ThinBinary (.ofBytes none file)) (c : PlacedCommand),
    lastReaching? (.ofBytes none file) B.signatures = some c →
      stripped.size = c.signatureOffset (.ofBytes none file) ∧
      ∀ i, stripped.size ≤ i → i < file.size → c.Declares (.ofBytes none file) i

/-- What became of a file with some thin slices. -/
structure StrippedFile (file stripped : ByteArray) (slices : List ThinSlice) : Prop where
  /-- These are the thin slices of the file, as it was. -/
  places : slices.map ThinSlice.place = thinPlaces file
  /-- What is declared is inside the slice that declares it, and that inside the file. -/
  inside : ∀ s ∈ slices, s.IsInside file.size
  size : StrippedSize file stripped
  zero : ∀ i < stripped.size, CoveredBy slices i → byteAt stripped i = 0
  keep : ∀ i < stripped.size, ¬CoveredBy slices i → byteAt stripped i = byteAt file i
  /-- In whatever order zeros are assigned to the ranges, the buffer always has the size of the file, and
      the result is what it begins with in the end. -/
  assigned : ∀ order : List ByteRange, order.Perm (slices.flatMap ThinSlice.assignments) →
    (∀ k, ((order.take k).foldl assignZeros file).size = file.size) ∧
      stripped = (order.foldl assignZeros file).extract 0 stripped.size

section

variable {file stripped buffer : ByteArray} {slices : List ThinSlice}

/-- What slices cover is what their assignments do. -/
theorem coveredBy_iff {i : Nat} :
    CoveredBy slices i ↔ ∃ r ∈ slices.flatMap ThinSlice.assignments, r.Has i := by
  simp only [CoveredBy, ThinSlice.covers_iff, List.mem_flatMap]
  constructor
  · rintro ⟨s, hs, r, hr, hhas⟩
    exact ⟨r, ⟨s, hs, hr⟩, hhas⟩
  · rintro ⟨r, ⟨s, hs, hr⟩, hhas⟩
    exact ⟨s, hs, r, hr, hhas⟩

/-- In any order the assignments keep the size of the file and end with the covered bytes blanked. -/
theorem foldl_assignments (hinside : ∀ s ∈ slices, s.IsInside file.size)
    (hblanked : Blanked (CoveredBy slices) file buffer) {order : List ByteRange}
    (horder : order.Perm (slices.flatMap ThinSlice.assignments)) :
    (∀ k, ((order.take k).foldl assignZeros file).size = file.size) ∧
      order.foldl assignZeros file = buffer := by
  have hstop (r : ByteRange) (hr : r ∈ slices.flatMap ThinSlice.assignments) : r.stop ≤ file.size := by
    obtain ⟨s, hs, hr⟩ := List.mem_flatMap.mp hr
    exact (hinside s hs).stop_le hr
  constructor
  · intro k
    have htake (r : ByteRange) (hr : r ∈ order.take k) : r.stop ≤ file.size :=
      hstop r (horder.mem_iff.mp (List.mem_of_mem_take hr))
    exact (blanked_foldl_assignZeros htake).size_eq
  · rw [foldl_assignZeros_perm hstop horder]
    exact (blanked_foldl_assignZeros hstop).unique (hblanked.congr fun i => coveredBy_iff.symm)

/-- The effect on a file, from the buffer and where it is cut. -/
theorem StrippedFile.of_buffer (hplaces : slices.map ThinSlice.place = thinPlaces file)
    (hinside : ∀ s ∈ slices, s.IsInside file.size) (hsize : StrippedSize file stripped)
    (hblanked : Blanked (CoveredBy slices) file buffer)
    (hfront : stripped = buffer.extract 0 stripped.size) : StrippedFile file stripped slices where
  places := hplaces
  inside := hinside
  size := hsize
  zero _ hi := (hblanked.byteAt_front hfront hi).1
  keep _ hi := (hblanked.byteAt_front hfront hi).2
  assigned order horder := by
    obtain ⟨hkeeps, hbuffer⟩ := foldl_assignments hinside hblanked horder
    exact ⟨hkeeps, hbuffer ▸ hfront⟩

/-! ### Thin files -/

theorem StrippedSize.of_thin (B : ThinBinary (.ofBytes none file))
    (h : stripSignatures file = .ok stripped) : StrippedSize file stripped := by
  have hsize := (size_of_stripSignatures B h).trans B.sliceEnd_removed
  refine ⟨fun layout arches hfat => ?_, fun B' hlast => ?_, fun B' c hlast => ?_⟩
  · exact nomatch B.classify_eq.symm.trans hfat
  · obtain rfl := Subsingleton.elim B B'
    rwa [hlast] at hsize
  · obtain rfl := Subsingleton.elim B B'
    rw [hlast, Option.map_some, Option.getD_some] at hsize
    refine ⟨hsize, fun i hi hlt => ⟨hsize ▸ hi, ?_⟩⟩
    rw [(mem_of_lastReaching? hlast).2]
    exact hlt

/-- The effect on a thin file. -/
theorem StrippedFile.of_thin (B : ThinBinary (.ofBytes none file))
    (h : stripSignatures file = .ok stripped) :
    StrippedFile file stripped [⟨0, .ofBytes none file, B⟩] := by
  have hinside := ((stripSignatures_thin_iff B).mp h).1
  refine .of_buffer ?_ ?_ (.of_thin B h) (B.blanked_removed.congr fun i => ?_)
    (eq_extract_of_stripSignatures B h)
  · simp only [thinPlaces, B.classify_eq]
    rfl
  · exact List.forall_mem_singleton.mpr ⟨Nat.le_of_eq (Nat.zero_add _), hinside⟩
  · simp [CoveredBy, ThinSlice.Covers]

/-! ### Fat files -/

theorem StrippedSize.of_fat {layout : FatLayout} {arches : List FatArch}
    (hclassify : Reading.result (.ofBytes none file) (classify 0) = .ok (.fat layout arches))
    (hsize : stripped.size = file.size) : StrippedSize file stripped where
  fat _ _ _ := hsize
  uncut _ _ := hsize
  cut B _ _ := nomatch hclassify.symm.trans B.classify_eq

/-- A frame that can be stripped holds a thin binary exactly if it has a table of commands. -/
theorem FatArch.IsStrippable.isThin_iff {a : FatArch} (h : a.IsStrippable file) :
    (a.frame file).isThin = true ↔ Nonempty (ThinBinary (a.frame file)) := by
  constructor
  · intro hthin
    obtain ⟨b, hclassify, hrecognized⟩ := h.recognized
    rw [Frame.isThin, hclassify] at hthin
    cases b with
    | thin header =>
      obtain ⟨B, -⟩ := hrecognized header rfl
      exact ⟨B⟩
    | fat layout arches => exact nomatch hthin
    | unrecognized magic => exact nomatch hthin
  · intro ⟨B⟩
    rw [Frame.isThin, B.classify_eq]

/-- A thin slice that can be stripped is inside the file, and what it declares inside the slice. -/
theorem FatArch.IsStrippable.isInside {a : FatArch} (h : a.IsStrippable file)
    (B : ThinBinary (a.frame file)) :
    ThinSlice.IsInside ⟨a.offset.toNat, a.frame file, B⟩ file.size := by
  obtain ⟨b, hclassify, hrecognized⟩ := h.recognized
  obtain rfl : b = .thin B.header := Except.ok.inj (hclassify.symm.trans B.classify_eq)
  obtain ⟨B', -, hinside⟩ := hrecognized _ rfl
  obtain rfl := Subsingleton.elim B' B
  refine ⟨?_, hinside⟩
  show a.offset.toNat + (a.frame file).size ≤ file.size
  rw [FatArch.size_frame h.in_file]
  exact h.in_file

section

variable {layout : FatLayout} {arches : List FatArch}
  (hclassify : Reading.result (.ofBytes none file) (classify 0) = .ok (.fat layout arches))
  (hstrippable : ∀ a ∈ arches, a.IsStrippable file)

include hclassify hstrippable

/-- The places of the thin slices of a fat file. -/
theorem mem_thinPlaces_iff {p : Nat × Frame} :
    p ∈ thinPlaces file ↔
      ∃ a ∈ arches, ∃ B, p = ThinSlice.place ⟨a.offset.toNat, a.frame file, B⟩ := by
  simp only [thinPlaces, hclassify, List.mem_map, List.mem_filter, ThinSlice.place]
  constructor
  · rintro ⟨a, ⟨ha, hthin⟩, rfl⟩
    obtain ⟨B⟩ := (hstrippable a ha).isThin_iff.mp hthin
    exact ⟨a, ha, B, rfl⟩
  · rintro ⟨a, ha, B, rfl⟩
    exact ⟨a, ⟨ha, (hstrippable a ha).isThin_iff.mpr ⟨B⟩⟩, rfl⟩

/-- The thin slices of a fat file. -/
theorem exists_slices_of_fat :
    ∃ slices : List ThinSlice, slices.map ThinSlice.place = thinPlaces file ∧
      ∀ s, s ∈ slices ↔ ∃ a ∈ arches, ∃ B, s = ⟨a.offset.toNat, a.frame file, B⟩ := by
  have hrange : thinPlaces file ∈ Set.range (List.map ThinSlice.place) := by
    rw [Set.range_list_map]
    intro p hp
    obtain ⟨a, -, B, rfl⟩ := (mem_thinPlaces_iff hclassify hstrippable).mp hp
    exact ⟨_, rfl⟩
  obtain ⟨slices, hplaces⟩ := hrange
  refine ⟨slices, hplaces, fun s => ?_⟩
  -- a slice is one of them if its place is
  rw [← List.mem_map_of_injective ThinSlice.place_injective, hplaces,
    mem_thinPlaces_iff hclassify hstrippable]
  simp only [ThinSlice.place_injective.eq_iff]

end

/-- What the thin slices of a fat file cover is what its records do. -/
theorem coveredBy_iff_of_fat {arches : List FatArch}
    (hslices : ∀ s, s ∈ slices ↔ ∃ a ∈ arches, ∃ B, s = ⟨a.offset.toNat, a.frame file, B⟩) {i : Nat} :
    CoveredBy slices i ↔ ∃ a ∈ arches, a.Covers file i := by
  constructor
  · rintro ⟨s, hs, hbase, hcovers⟩
    obtain ⟨a, ha, B, rfl⟩ := (hslices s).mp hs
    exact ⟨a, ha, hbase, B, hcovers⟩
  · rintro ⟨a, ha, hbase, B, hcovers⟩
    exact ⟨_, (hslices _).mpr ⟨a, ha, B, rfl⟩, hbase, hcovers⟩

/-- The effect on a fat file. -/
theorem exists_strippedFile_of_fat {layout : FatLayout} {arches : List FatArch}
    (hclassify : Reading.result (.ofBytes none file) (classify 0) = .ok (.fat layout arches))
    (h : stripSignatures file = .ok stripped) :
    ∃ slices, StrippedFile file stripped slices := by
  obtain ⟨hstrippable, hblanked⟩ := (stripSignatures_fat_iff hclassify).mp h
  obtain ⟨slices, hplaces, hslices⟩ := exists_slices_of_fat hclassify hstrippable
  have hinside (s : ThinSlice) (hs : s ∈ slices) : s.IsInside file.size := by
    obtain ⟨a, ha, B, rfl⟩ := (hslices s).mp hs
    exact (hstrippable a ha).isInside B
  -- nothing is cut off
  have hfront : stripped = stripped.extract 0 stripped.size := (ByteArray.extract_zero_size ..).symm
  exact ⟨slices, .of_buffer hplaces hinside (.of_fat hclassify hblanked.size_eq)
    (hblanked.congr fun i => coveredBy_iff_of_fat hslices) hfront⟩

/-- The effect of stripping a file. If a file can be stripped, let the slices be the whole file if it is
    thin, and those of its slices that are thin if it is fat. Every range that a command of a slice
    declares as a signature, and the fields that locate it, are inside the slice. A fat file keeps its
    size; a thin file keeps it too, unless a signature is its end, and then is cut where the last such
    signature starts. In what is left the covered bytes are zero and all others as they were. Assigning
    zeros to the ranges in a buffer that could grow never changes its length, and ends with the same bytes
    in every order of the commands and slices. -/
theorem exists_strippedFile (h : stripSignatures file = .ok stripped) :
    ∃ slices, StrippedFile file stripped slices := by
  have hbind := h
  unfold stripSignatures at hbind
  obtain ⟨b, hclassify, hrest⟩ := bind_eq_ok.mp hbind
  -- by what the file is recognised as
  cases b with
  | thin header =>
    obtain ⟨B, -⟩ := exists_thinBinary_of_stripSignatures hclassify h
    exact ⟨_, .of_thin B h⟩
  | fat layout arches => exact exists_strippedFile_of_fat hclassify h
  | unrecognized magic => cases hrest

end

set_option maxRecDepth 4000 in
/-- A signed file and a fat file of two signed slices. -/
theorem exists_strippedFile_signedFile :
    (stripSignatures (signedFile [1, 2, 3, 4]) = .ok unsignedFile ∧
      ∃ slices, StrippedFile (signedFile [1, 2, 3, 4]) unsignedFile slices) ∧
    ∃ stripped, stripSignatures (fatFile (signedFile [1, 2, 3, 4]) (signedFile [5, 6])) = .ok stripped ∧
      ∃ slices, slices.length = 2 ∧
        StrippedFile (fatFile (signedFile [1, 2, 3, 4]) (signedFile [5, 6])) stripped slices := by
  have hthin : stripSignatures (signedFile [1, 2, 3, 4]) = .ok unsignedFile := by decide +kernel
  have hfat : stripSignatures (fatFile (signedFile [1, 2, 3, 4]) (signedFile [5, 6])) =
      .ok (fatFile ⟨(unsignedFile.data.toList ++ [0, 0, 0, 0]).toArray⟩
        ⟨(unsignedFile.data.toList ++ [0, 0]).toArray⟩) := by
    decide +kernel
  have hplaces : (thinPlaces (fatFile (signedFile [1, 2, 3, 4]) (signedFile [5, 6]))).length = 2 := by
    decide +kernel
  obtain ⟨slices, hstripped⟩ := exists_strippedFile hfat
  refine ⟨⟨hthin, exists_strippedFile hthin⟩, _, hfat, slices, ?_, hstripped⟩
  rw [← hplaces, ← hstripped.places, List.length_map]

end ReleaseSeal.MachO
