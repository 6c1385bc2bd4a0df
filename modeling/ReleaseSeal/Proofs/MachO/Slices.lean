import ReleaseSeal.MachO.Image
import ReleaseSeal.Proofs.MachO.Embedded
import ReleaseSeal.Proofs.MachO.Stripping

/-!
# Entitlements slice by slice

The entitlements of a file are those of its slices, in order. A slice has as many of them as it has
commands that grant some: commands whose signature was not removed and has a blob with the mark of
entitlements. Nothing keeps a slice from having several such commands, so that only where each slice
has at most one, a file has at most one entitlements dictionary for each slice.

## Key results

- `ThinBinary.length_eq_of_sliceEntitlements`: how many dictionaries a thin binary has
- `readEntitlements_slice_by_slice`: the dictionaries of a file, by its slices
- `readEntitlements_twiceGranted`: a thin binary with two dictionaries
-/

namespace ReleaseSeal.MachO

/-- Every architecture has a name. -/
theorem archName_ne_empty (cpuType cpuSubtype : Int) : archName cpuType cpuSubtype ≠ "" := by
  unfold archName
  split
  · decide
  cases hname : cpuNames.lookup cpuType with
  | none =>
    -- a type without a name is shown by its number, behind a prefix
    intro hempty
    have hlength := congrArg String.length hempty
    rw [Option.getD_none, String.length_append] at hlength
    exact absurd hlength (by simp)
  | some name =>
    have hnames : ∀ pair ∈ cpuNames, pair.2 ≠ "" := by decide
    obtain ⟨before, after, hsplit, -⟩ := List.lookup_eq_some_iff.mp hname
    exact hnames (cpuType, name) (hsplit ▸ List.mem_append_right before List.mem_cons_self)

/-! ## Signatures -/

/-- A blob of the signature at an offset has the mark of entitlements. -/
def HoldsEntitlements (bytes : ByteArray) (offset : Nat) : Prop :=
  ∃ k < (wordAt .big bytes (offset + 8)).toNat,
    wordAt .big bytes (blobStart bytes offset k) = entitlementsMagic

/-- The command locates a signature that was not removed and holds entitlements. -/
def PlacedCommand.Grants (f : Frame) (c : PlacedCommand) : Prop :=
  c.signatureSize f ≠ 0 ∧ HoldsEntitlements f.bytes (c.signatureOffset f)

instance {f : Frame} : DecidablePred (PlacedCommand.Grants f) :=
  fun c => inferInstanceAs (Decidable (c.signatureSize f ≠ 0 ∧
    ∃ k < (wordAt .big f.bytes (c.signatureOffset f + 8)).toNat,
      wordAt .big f.bytes (blobStart f.bytes (c.signatureOffset f) k) = entitlementsMagic))

section Signature

variable {f : Frame} {arch : Option String} {offset i j : Nat} {found : Option Entitlements}

theorem arch_of_readPayload [Host] {e : Entitlements} (h : Reading.Yields f i (readPayload arch) e j) :
    e.arch = arch := by
  simp only [readPayload, Reading.yields_bind, Reading.yields_guard, Reading.yields_ofOutcome] at h
  obtain ⟨_, _, _, _, _, _, _, _, hpayload, -⟩ := h
  obtain ⟨_, -, rfl⟩ := Entitlements.ofPayload_eq_ok_iff.mp hpayload
  rfl

/-- A search that comes to an end has found entitlements exactly if one of the blobs has their mark. -/
theorem found_of_findEntitlements [Host] (hbig : f.order = .big) {count index : Nat}
    (h : Reading.Yields f i (findEntitlements arch offset count index) found j) :
    (found.isSome ↔ ∃ k, index ≤ k ∧ k < index + count ∧
      wordAt .big f.bytes (blobStart f.bytes offset k) = entitlementsMagic) ∧
    ∀ e ∈ found, e.arch = arch := by
  -- by induction on the entries that are left; the search stops at the first blob with the mark
  induction count generalizing index i with
  | zero =>
    obtain ⟨rfl, -⟩ := Reading.yields_pure.mp h
    refine ⟨⟨nofun, ?_⟩, nofun⟩
    rintro ⟨k, hle, hlt, -⟩
    omega
  | succ count ih =>
    simp only [findEntitlements, Reading.yields_bind, Reading.yields_seek_natCast,
      Reading.yields_wordPair, Reading.yields_word, hbig] at h
    -- the entry leads to a blob, whose mark decides
    obtain ⟨_, _, ⟨-, rfl⟩, _, _, ⟨-, rfl, rfl⟩, _, _, ⟨-, rfl⟩, _, _, ⟨-, rfl, rfl⟩, h⟩ := h
    split at h
    · rename_i hmagic
      obtain ⟨e, k, hpayload, hfound⟩ := Reading.yields_bind.mp h
      obtain ⟨rfl, -⟩ := Reading.yields_pure.mp hfound
      refine ⟨⟨fun _ => ⟨index, Nat.le_refl _, by omega, hmagic⟩, fun _ => rfl⟩, ?_⟩
      rintro e' ⟨⟩
      exact arch_of_readPayload hpayload
    · rename_i hmagic
      obtain ⟨hsome, harch⟩ := ih h
      refine ⟨hsome.trans ⟨?_, ?_⟩, harch⟩
      · rintro ⟨k, hle, hlt, hmark⟩
        exact ⟨k, by omega, by omega, hmark⟩
      · rintro ⟨k, hle, hlt, hmark⟩
        obtain rfl | hne := Nat.eq_or_lt_of_le hle
        · exact absurd hmark hmagic
        · exact ⟨k, hne, by omega, hmark⟩

/-- A signature that can be read has entitlements exactly if a blob of it has their mark. -/
theorem found_of_readSignature [Host] (hbig : f.order = .big)
    (h : Reading.result f (readSignature arch offset) = .ok found) :
    (found.isSome ↔ HoldsEntitlements f.bytes offset) ∧ ∀ e ∈ found, e.arch = arch := by
  obtain ⟨j, h⟩ := Reading.result_eq_ok_iff.mp h
  simp only [readSignature, Reading.yields_bind, Reading.yields_seek_natCast, Reading.yields_record,
    Reading.yields_read, Reading.yields_guard] at h
  obtain ⟨_, _, ⟨-, rfl⟩, _, _, ⟨-, rfl, rfl⟩, _, _, ⟨rfl, rfl⟩, -, -, h⟩ := h
  obtain ⟨hsome, harch⟩ := found_of_findEntitlements hbig h
  refine ⟨hsome.trans ?_, harch⟩
  simp [HoldsEntitlements, hbig]

/-- What a command adds: entitlements exactly if it grants some. -/
theorem PlacedCommand.FindsEntitlements.isSome_iff [Host] {c : PlacedCommand}
    (h : c.FindsEntitlements f arch found) :
    (found.isSome ↔ c.Grants f) ∧ ∀ e ∈ found, e.arch = arch := by
  obtain ⟨-, h⟩ := h
  split at h
  · rename_i hremoved
    subst h
    exact ⟨⟨nofun, fun hgrants => absurd hremoved hgrants.1⟩, nofun⟩
  · rename_i hsize
    obtain ⟨hsome, harch⟩ := found_of_readSignature rfl h
    exact ⟨hsome.trans (and_iff_right hsize).symm, harch⟩

end Signature

/-! ## Thin binaries -/

namespace ThinBinary

variable {f : Frame} {arch : Option String}

/-- The commands that grant entitlements. -/
def granting (B : ThinBinary f) : List PlacedCommand :=
  B.signatures.filter (·.Grants f)

/-- A thin binary has one dictionary of entitlements for each command that grants some, all of them
    under the name of the binary. -/
theorem length_eq_of_sliceEntitlements [Host] (B : ThinBinary f) {es : List Entitlements}
    (h : Reading.result f (sliceEntitlements arch B.header) = .ok es) :
    es.length = B.granting.length ∧ ∀ e ∈ es, e.arch = some (sliceName arch B.header) := by
  rw [sliceEntitlements_eq_ok_iff B] at h
  obtain ⟨found, hfound, rfl⟩ := h
  unfold granting
  -- by induction on the commands that locate signatures, whichever they are
  generalize B.signatures = cs at hfound
  induction hfound with
  | nil => exact ⟨rfl, nofun⟩
  | @cons c e rest found hc _ ih =>
    obtain ⟨hsome, harch⟩ := hc.isSome_iff
    obtain ⟨hlength, hrest⟩ := ih
    rw [List.flatMap_cons, List.length_append, List.filter_cons, hlength]
    refine ⟨?_, fun e' he' => ?_⟩
    · -- the command is counted exactly if it adds a dictionary
      cases e with
      | none => rw [if_neg (by simpa using hsome), Option.toList_none, List.length_nil, Nat.zero_add]
      | some e =>
        rw [if_pos (by simpa using hsome), Option.toList_some, List.length_cons, List.length_cons,
          List.length_nil, Nat.add_comm]
    · obtain hfirst | hlater := List.mem_append.mp he'
      · exact harch e' (Option.mem_toList.mp hfirst)
      · exact hrest e' hlater

end ThinBinary

/-! ## Slices -/

/-- A slice of a file: a thin binary, and the name by which its entitlements go. -/
structure Slice where
  frame : Frame
  name : String
  binary : ThinBinary frame

/-- The slices of a file: the file itself if it is thin, else one for each record of the fat header, in
    order. -/
inductive HoldsSlices (bytes : ByteArray) : List Slice → Prop
  | thin (B : ThinBinary (.ofBytes none bytes)) :
      HoldsSlices bytes [{ frame := _, name := B.header.name, binary := B }]
  | fat {layout : FatLayout} {arches : List FatArch} {slices : List Slice}
      (hclassify : Reading.result (.ofBytes none bytes) (classify 0) = .ok (.fat layout arches))
      (hslices : List.Forall₂ (fun a s => s.frame = a.frame bytes ∧ s.name = a.name) arches slices) :
      HoldsSlices bytes slices

/-- What is read from a slice: a dictionary for each command that grants entitlements, under the name of
    the slice. -/
structure Slice.Holds [Host] (s : Slice) (es : List Entitlements) : Prop where
  read : Reading.result s.frame (sliceEntitlements (some s.name) s.binary.header) = .ok es
  length_eq : es.length = s.binary.granting.length
  arch_eq : ∀ e ∈ es, e.arch = some s.name

section Slices

variable {bytes : ByteArray} {slices : List Slice} {results : List (List Entitlements)}
  {es : List Entitlements}

/-- An image is what its bytes are recognised as. -/
theorem Image.classify_of_ofBytes {image : Image} (h : Image.ofBytes bytes = .ok image) :
    Reading.result (.ofBytes none bytes) (classify 0) = .ok image.binary := by
  obtain ⟨_, -, h⟩ := bind_eq_ok.mp h
  obtain ⟨binary, hclassify, h⟩ := bind_eq_ok.mp h
  rw [hclassify]
  cases binary with
  | thin header => rw [← Except.ok.inj h]
  | fat layout arches => rw [← Except.ok.inj h]
  | unrecognized magic => exact nomatch h

/-- The architectures of an image are the names of its slices. -/
theorem HoldsSlices.architectures_eq (h : HoldsSlices bytes slices) {image : Image}
    (himage : Image.ofBytes bytes = .ok image) : image.architectures = slices.map Slice.name := by
  have hclassify := Image.classify_of_ofBytes himage
  unfold Image.architectures
  cases h with
  | thin B =>
    rw [B.classify_eq] at hclassify
    rw [← Except.ok.inj hclassify]
    rfl
  | @fat layout arches slices hfat hslices =>
    rw [hfat] at hclassify
    rw [← Except.ok.inj hclassify]
    show arches.map FatArch.name = slices.map Slice.name
    rw [← List.forall₂_eq_eq_eq, List.forall₂_map_left_iff, List.forall₂_map_right_iff]
    exact hslices.imp fun a s h => h.2.symm

/-- The entitlements of a thin binary that goes by a name are those of its slice. -/
theorem exists_slice_of_sliceEntitlements [Host] {f : Frame} {name : String} (hname : name ≠ "")
    {header : Header} (hclassify : Reading.result f (classify 0) = .ok (.thin header))
    (h : Reading.result f (sliceEntitlements (some name) header) = .ok es) :
    ∃ B : ThinBinary f, B.header = header ∧ Slice.Holds ⟨f, name, B⟩ es := by
  obtain ⟨B, rfl, -⟩ := exists_thinBinary hclassify h
  obtain ⟨hlength, harch⟩ := B.length_eq_of_sliceEntitlements h
  have hslice : sliceName (some name) B.header = name := if_neg hname
  exact ⟨B, rfl, h, hlength, hslice ▸ harch⟩

/-- Each record of a fat file leads to a slice: nothing but thin binaries may stand there. -/
theorem exists_slices_of_arches [Host] {arches : List FatArch}
    (h : List.Forall₂ (fun a es => (do
      entitlementsIn 0 (some a.name)
        (← (Frame.ofBytes none bytes).view a.offset.toNat a.size.toNat none)) = .ok es)
      arches results) :
    ∃ slices : List Slice,
      List.Forall₂ (fun a s => s.frame = a.frame bytes ∧ s.name = a.name) arches slices ∧
        List.Forall₂ Slice.Holds slices results := by
  induction h with
  | nil => exact ⟨[], .nil, .nil⟩
  | @cons a es _ _ ha _ ih =>
    obtain ⟨slices, hslices, hholds⟩ := ih
    obtain ⟨f, hview, ha⟩ := bind_eq_ok.mp ha
    obtain ⟨-, rfl⟩ := Frame.view_eq_ok_iff.mp hview
    rw [entitlementsIn, bind_eq_ok] at ha
    obtain ⟨binary, hclassify, ha⟩ := ha
    -- a slice that is no thin binary ends the reading
    cases binary with
    | unrecognized magic => cases ha
    | fat layout arches => cases ha
    | thin header =>
      obtain ⟨B, -, hB⟩ := exists_slice_of_sliceEntitlements (archName_ne_empty _ _) hclassify ha
      exact ⟨⟨a.frame bytes, a.name, B⟩ :: slices, .cons ⟨rfl, rfl⟩ hslices, .cons hB hholds⟩

/-- The entitlements of a file are those of its slices, in order. -/
theorem exists_slices_of_readEntitlements [Host]
    (h : readEntitlements (.ofBytes none bytes) 0 none 0 = .ok es) :
    ∃ slices results, HoldsSlices bytes slices ∧ List.Forall₂ Slice.Holds slices results ∧
      es = results.flatten := by
  have hfile : entitlementsIn 1 none (.ofBytes none bytes) = .ok es := h
  rw [entitlementsIn, bind_eq_ok] at hfile
  obtain ⟨binary, hclassify, hfile⟩ := hfile
  cases binary with
  | unrecognized magic => cases hfile
  | thin header =>
    -- without a name a binary goes by that of its architecture
    have hread : Reading.result (.ofBytes none bytes) (sliceEntitlements (some header.name) header) =
        .ok es := by
      rw [← hfile]
      simp [sliceEntitlements, sliceName]
    obtain ⟨B, rfl, hholds⟩ :=
      exists_slice_of_sliceEntitlements (archName_ne_empty _ _) hclassify hread
    exact ⟨_, [es], .thin B, .cons hholds .nil, by simp⟩
  | fat layout arches =>
    obtain ⟨results, hresults, hes⟩ := bind_eq_ok.mp hfile
    obtain ⟨slices, hslices, hholds⟩ := exists_slices_of_arches (mapM_eq_ok.mp hresults)
    exact ⟨slices, results, .fat hclassify hslices, hholds, (pure_eq_ok.mp hes).symm⟩

/-- If each slice has one dictionary at most, the architectures of the dictionaries are some of those of
    the slices, in the same order. -/
theorem sublist_of_holds [Host] (h : List.Forall₂ Slice.Holds slices results)
    (hone : ∀ rs ∈ results, rs.length ≤ 1) :
    (results.flatten.map Entitlements.arch).Sublist (slices.map fun s => some s.name) := by
  induction h with
  | nil => exact .slnil
  | @cons s rs slices results hs _ ih =>
    obtain ⟨hfirst, hrest⟩ := List.forall_mem_cons.mp hone
    rw [List.flatten_cons, List.map_append, List.map_cons]
    cases rs with
    | nil =>
      -- the name of this slice is left out
      exact (ih hrest).cons _
    | cons e rest =>
      obtain rfl : rest = [] := List.eq_nil_of_length_eq_zero (by simpa using hfirst)
      have harch : e.arch = some s.name := hs.arch_eq e List.mem_cons_self
      rw [List.map_singleton, List.singleton_append, harch]
      exact (ih hrest).cons_cons _

/-- No slice has two dictionaries exactly if none has two commands that grant entitlements. -/
theorem forall_length_le_one_iff [Host] (h : List.Forall₂ Slice.Holds slices results) :
    (∀ rs ∈ results, rs.length ≤ 1) ↔ ∀ s ∈ slices, s.binary.granting.length ≤ 1 := by
  induction h with
  | nil => simp
  | cons hs _ ih => rw [List.forall_mem_cons, List.forall_mem_cons, ih, hs.length_eq]

/-- The entitlements of a file, slice by slice: of each slice as many dictionaries as it has commands
    that grant some, under its name. So the dictionaries are at most one for each slice exactly if no
    slice has two such commands; then there are at most as many dictionaries as slices, and their
    architectures are some of those of the file, in order. -/
theorem readEntitlements_slice_by_slice [Host]
    (h : readEntitlements (.ofBytes none bytes) 0 none 0 = .ok es) :
    ∃ slices results, HoldsSlices bytes slices ∧ List.Forall₂ Slice.Holds slices results ∧
      es = results.flatten ∧
      (∀ image, Image.ofBytes bytes = .ok image → image.architectures = slices.map Slice.name) ∧
      ((∀ rs ∈ results, rs.length ≤ 1) ↔ ∀ s ∈ slices, s.binary.granting.length ≤ 1) ∧
      ((∀ s ∈ slices, s.binary.granting.length ≤ 1) → es.length ≤ slices.length ∧
        (es.map Entitlements.arch).Sublist (slices.map fun s => some s.name)) := by
  obtain ⟨slices, results, hslices, hholds, rfl⟩ := exists_slices_of_readEntitlements h
  have hone := forall_length_le_one_iff hholds
  refine ⟨slices, results, hslices, hholds, rfl, fun image => hslices.architectures_eq, hone, ?_⟩
  intro hgranting
  have hsublist := sublist_of_holds hholds (hone.mpr hgranting)
  have hlength := hsublist.length_le
  rw [List.length_map, List.length_map] at hlength
  exact ⟨hlength, hsublist⟩

end Slices

/-! ## A binary of two slices and one of two signatures -/

/-- The records of a fat file with a signed slice and an unsigned one. -/
def grantedArches : List FatArch :=
  [{ cpuType := 0x0100000c, cpuSubtype := 0, offset := 48, size := 153, align := 0 },
   { cpuType := 18, cpuSubtype := 0, offset := 201, size := 44, align := 0 }]

def grantedFat : ByteArray :=
  ⟨(FatLayout.bits32.encodeHeader grantedArches ++ granted.data.toList ++
    unsignedFile.data.toList).toArray⟩

/-- There is one dictionary in the file. -/
theorem exists_readEntitlements_grantedFat :
    ∃ es, readEntitlements (.ofBytes none grantedFat) 0 none 0 = .ok es ∧ es.length = 1 := by
  have hread : (readEntitlements (.ofBytes none grantedFat) 0 none 0).map List.length = .ok 1 := by
    decide +kernel
  exact map_eq_ok.mp hread

theorem readEntitlements_slice_by_slice_grantedFat :
    ∃ es slices, readEntitlements (.ofBytes none grantedFat) 0 none 0 = .ok es ∧
      HoldsSlices grantedFat slices ∧ (∀ s ∈ slices, s.binary.granting.length ≤ 1) ∧
      es.length ≤ slices.length ∧
      (es.map Entitlements.arch).Sublist (slices.map fun s => some s.name) := by
  obtain ⟨es, hes, hlength⟩ := exists_readEntitlements_grantedFat
  obtain ⟨slices, results, hslices, -, hflat, -, hone, hatmost⟩ :=
    readEntitlements_slice_by_slice hes
  rw [hflat] at hlength
  -- there is only one dictionary in the file, so that no slice has two
  have hgranting : ∀ s ∈ slices, s.binary.granting.length ≤ 1 :=
    hone.mp fun rs hrs => hlength ▸ (List.sublist_flatten_of_mem hrs).length_le
  exact ⟨es, slices, hes, hslices, hgranting, hatmost hgranting⟩

def twiceGrantedHeader : Header :=
  { grantedHeader with commandsSize := 32 }

/-- A binary whose two commands locate the same signature. -/
def twiceGranted : ByteArray :=
  ⟨(twiceGrantedHeader.encode .little ++
    ([0x1d, 16, 64, 93, 0x1d, 16, 64, 93].flatMap fun w => ByteOrder.little.encode 4 w) ++
    granted.data.toList.drop 60).toArray⟩

/-- A thin binary may have two dictionaries of entitlements. -/
theorem readEntitlements_twiceGranted :
    Reading.result (.ofBytes none twiceGranted) (classify 0) = .ok (.thin twiceGrantedHeader) ∧
    (readEntitlements (.ofBytes none twiceGranted) 0 none 0).map
      (fun es => es.map Entitlements.arch) = .ok [some "arm64", some "arm64"] := by
  decide +kernel

end ReleaseSeal.MachO
