import ReleaseSeal.Proofs.MachO.Embedded
import ReleaseSeal.Proofs.MachO.SameTable
import Mathlib.Data.List.Pairwise

/-!
# Binaries without signatures

In a binary that is well laid out, the fields that locate a signature belong to their command, and a
signature that is not empty lies behind the load commands. Stripping such a binary keeps its table
and leaves every command that locates a signature with two fields of zero, by which a reader knows
that the signature was removed. What is left is a fixed point of stripping and has no entitlements.

## Key results

- `ThinBinary.WellLaidOut.exists_unsigned`: what is left of a thin slice
- `ThinBinary.IsUnsigned.sliceEntitlements_eq`: it has no entitlements
- `stripSignatures_idempotent`: stripping twice, and the entitlements of a stripped file
-/

namespace ReleaseSeal.MachO

/-! ## Thin slices -/

namespace ThinBinary

variable {f : Frame}

/-- The fields that locate signatures are inside the frame and zero. -/
structure IsUnsigned (B : ThinBinary f) : Prop where
  inside : ∀ c ∈ B.signatures, c.locator + 8 ≤ f.size
  zero : ∀ i, B.InLocator i → byteAt f.bytes i = 0

namespace WellLaidOut

variable {B : ThinBinary f}

/-- Where the bytes that a well laid out binary declares were set to zero, the table is kept and no
    signature is left. -/
theorem exists_unsigned (h : B.WellLaidOut) {bytes : ByteArray} (hstop : B.stop ≤ bytes.size)
    (hzero : ∀ i, B.Covers i → byteAt bytes i = 0)
    (hkeep : ∀ i < bytes.size, ¬B.Covers i → byteAt bytes i = byteAt f.bytes i) :
    ∃ B' : ThinBinary (.ofBytes none bytes), B.SameTable B' ∧ B'.IsUnsigned := by
  obtain ⟨-, B', hsame⟩ := B.exists_sameTable_of_heads_eq hstop fun i hi =>
    hkeep i (Nat.lt_of_lt_of_le hi.lt_stop hstop) (h.not_covers_of_inHeads hi)
  have hsignatures : B'.signatures = B.signatures := by
    rw [signatures, signatures, hsame.commands_eq]
  refine ⟨B', hsame, fun c hc => ?_, fun i hi => ?_⟩
  · exact Nat.le_trans (h.locator_le (hsignatures ▸ hc)) hstop
  · rw [InLocator, hsignatures] at hi
    exact hzero i (.inr hi)

end WellLaidOut

namespace IsUnsigned

variable {B : ThinBinary f} {c : PlacedCommand}

/-- No signature is declared. -/
theorem signature_eq_zero (h : B.IsUnsigned) (hc : c ∈ B.signatures) :
    c.signatureOffset f = 0 ∧ c.signatureSize f = 0 := by
  have hin : c.locator + 8 ≤ f.bytes.size := h.inside c hc
  have hzero (k : Nat) (hk : k < 8) : byteAt f.bytes (c.locator + k) = 0 :=
    h.zero _ ⟨c, hc, Nat.le_add_right .., Nat.add_lt_add_left hk _⟩
  have hoffset : wordAt f.order f.bytes c.locator = 0 :=
    wordAt_eq_zero (by omega) fun k hk => hzero k (by omega)
  have hsize : wordAt f.order f.bytes (c.locator + 4) = 0 :=
    wordAt_eq_zero hin fun k hk => by rw [Nat.add_assoc]; exact hzero (4 + k) (by omega)
  exact ⟨congrArg UInt32.toNat hoffset, congrArg UInt32.toNat hsize⟩

theorem signatureEnd_eq_zero (h : B.IsUnsigned) (hc : c ∈ B.signatures) : c.signatureEnd f = 0 := by
  obtain ⟨hoffset, hsize⟩ := h.signature_eq_zero hc
  rw [PlacedCommand.signatureEnd, hoffset, hsize]

theorem isInside (h : B.IsUnsigned) (hc : c ∈ B.signatures) : c.IsInside f :=
  ⟨h.inside c hc, by rw [h.signatureEnd_eq_zero hc]; exact Nat.zero_le _⟩

/-- What is declared is zero. -/
theorem byteAt_eq_zero (h : B.IsUnsigned) {i : Nat} (hi : B.Covers i) : byteAt f.bytes i = 0 := by
  obtain ⟨c, hc, -, hend⟩ | hlocates := hi
  · rw [h.signatureEnd_eq_zero hc] at hend
    exact absurd hend (Nat.not_lt_zero i)
  · exact h.zero i hlocates

/-- There are no entitlements. -/
theorem sliceEntitlements_eq [Host] (h : B.IsUnsigned) (arch : Option String) :
    Reading.result f (sliceEntitlements arch B.header) = .ok [] := by
  rw [sliceEntitlements_eq_ok_iff]
  -- each signature is passed over as removed
  refine ⟨B.signatures.map fun _ => none, ?_, by simp⟩
  rw [List.forall₂_map_right_iff, List.forall₂_same]
  intro c hc
  exact ⟨h.inside c hc, by rw [if_pos (h.signature_eq_zero hc).2]⟩

end IsUnsigned

end ThinBinary

/-! ## Thin files -/

section Thin

variable {bytes stripped : ByteArray}

/-- A well laid out file is not cut in front of the end of its table. -/
theorem StrippedThin.stop_le {B : ThinBinary (.ofBytes none bytes)} (h : StrippedThin B stripped)
    (hlaid : B.WellLaidOut) : B.stop ≤ stripped.size := by
  have hstop : B.stop ≤ bytes.size := B.tiles.stop_le
  obtain ⟨-, hsize⟩ | ⟨c, hc, hend, hsize⟩ := h.cut
  · exact hsize ▸ hstop
  · have hbehind := hlaid.behind c hc
    unfold PlacedCommand.signatureEnd at hend
    omega

/-- What has no signature is left as it is. -/
theorem stripSignatures_eq_of_isUnsigned {B : ThinBinary (.ofBytes none bytes)} (h : B.IsUnsigned) :
    stripSignatures bytes = .ok bytes := by
  have hstrip := (stripSignatures_thin_iff B).mpr ⟨fun c hc => h.isInside hc, rfl⟩
  have hstripped := StrippedThin.of_stripSignatures B hstrip
  have hsize : (B.removed.bytes.extract 0 B.removed.sliceEnd).size = bytes.size := by
    obtain ⟨-, hsize⟩ | ⟨c, hc, hend, -⟩ := hstripped.cut
    · exact hsize
    · -- the bytes hold a header, so their end is not where an empty signature is
      have hpos := B.header.size_pos
      have hheader : B.header.size ≤ bytes.size := B.header_size_le_size
      rw [h.signatureEnd_eq_zero hc] at hend
      omega
  -- what is blanked was zero before
  have hsame : B.removed.bytes.extract 0 B.removed.sliceEnd = bytes := by
    refine eq_of_byteAt_eq hsize fun i hi => ?_
    exact (blanked_eq_iff (hstripped.zero i) (hstripped.keep i hi)).mpr h.byteAt_eq_zero
  rwa [hsame] at hstrip

end Thin

/-! ## Fat files -/

section Fat

variable {bytes stripped : ByteArray} {layout : FatLayout} {arches : List FatArch}

/-- Two slices do not overlap. -/
def FatArch.Disjoint (a b : FatArch) : Prop :=
  a.offset.toNat + a.size.toNat ≤ b.offset.toNat ∨ b.offset.toNat + b.size.toNat ≤ a.offset.toNat

instance : Std.Symm FatArch.Disjoint :=
  ⟨fun _ _ h => h.symm⟩

/-- What a slice that can be stripped declares is inside the slice. -/
theorem FatArch.IsStrippable.lt_of_covers {a : FatArch} (h : a.IsStrippable bytes) {i : Nat}
    (hi : a.Covers bytes i) : i < a.offset.toNat + a.size.toNat := by
  obtain ⟨hle, B, hB⟩ := hi
  obtain ⟨b, hclassify, hthin⟩ := h.recognized
  obtain ⟨B', hB', hinside⟩ := hthin B.header (Except.ok.inj (hclassify.symm.trans B.classify_eq))
  obtain rfl : B' = B := Subsingleton.elim ..
  have hsize : (a.frame bytes).size = a.size.toNat := a.size_frame h.in_file
  obtain ⟨c, hc, -, hend⟩ | ⟨c, hc, -, hend⟩ := hB
  · have hin := (hinside c hc).2
    omega
  · have hin := (hinside c hc).1
    omega

/-- Fat files whose slices are thin and well laid out, do not overlap and are behind the header. -/
structure WellLaidOutSlices (layout : FatLayout) (arches : List FatArch) (bytes : ByteArray) :
    Prop where
  thin : ∀ a ∈ arches, ∃ B : ThinBinary (a.frame bytes), B.WellLaidOut
  disjoint : arches.Pairwise FatArch.Disjoint
  behind : ∀ a ∈ arches, 8 + arches.length * layout.recordSize ≤ a.offset.toNat

/-- In a slice that overlaps no other, only the bytes that it declares itself are blanked. -/
theorem WellLaidOutSlices.covers_iff (h : WellLaidOutSlices layout arches bytes)
    (hstrippable : ∀ a ∈ arches, a.IsStrippable bytes) {a : FatArch} (ha : a ∈ arches) {i : Nat}
    (hi : i < a.size.toNat) :
    (∃ b ∈ arches, b.Covers bytes (a.offset.toNat + i)) ↔ a.Covers bytes (a.offset.toNat + i) := by
  refine ⟨fun ⟨b, hb, hcovers⟩ => ?_, fun hcovers => ⟨a, ha, hcovers⟩⟩
  by_cases hab : a = b
  · exact hab ▸ hcovers
  · -- another slice would have to reach into this one
    have hlt := (hstrippable b hb).lt_of_covers hcovers
    have hle := hcovers.1
    have hdisjoint : a.Disjoint b := h.disjoint.forall ha hb hab
    unfold FatArch.Disjoint at hdisjoint
    omega

/-- Each slice of a stripped file is a thin binary without signatures. -/
theorem WellLaidOutSlices.exists_unsigned (h : WellLaidOutSlices layout arches bytes)
    (hstrippable : ∀ a ∈ arches, a.IsStrippable bytes)
    (hblanked : Blanked (fun i => ∃ a ∈ arches, a.Covers bytes i) bytes stripped) {a : FatArch}
    (ha : a ∈ arches) : ∃ B : ThinBinary (a.frame stripped), B.IsUnsigned := by
  obtain ⟨B, hlaid⟩ := h.thin a ha
  have hin := (hstrippable a ha).in_file
  have hsize : (a.frame bytes).size = a.size.toNat := a.size_frame hin
  have hsize' : (a.frame stripped).bytes.size = a.size.toNat := a.size_frame (hblanked.size_eq ▸ hin)
  have hcovers {i : Nat} (hi : i < a.size.toNat) :
      (∃ b ∈ arches, b.Covers bytes (a.offset.toNat + i)) ↔ B.Covers i := by
    rw [h.covers_iff hstrippable ha hi, FatArch.covers_iff B, Nat.add_sub_cancel_left,
      and_iff_right (Nat.le_add_right ..)]
  have hstop : B.stop ≤ (a.frame stripped).bytes.size := hsize' ▸ hsize ▸ B.tiles.stop_le
  have hzero (i : Nat) (hi : B.Covers i) : byteAt (a.frame stripped).bytes i = 0 := by
    by_cases hlt : i < a.size.toNat
    · rw [FatArch.byteAt_frame hlt]
      exact hblanked.zero _ ((hcovers hlt).mpr hi)
    · exact dif_neg (hsize' ▸ hlt)
  have hkeep (i : Nat) (hlt : i < (a.frame stripped).bytes.size) (hi : ¬B.Covers i) :
      byteAt (a.frame stripped).bytes i = byteAt (a.frame bytes).bytes i := by
    rw [hsize'] at hlt
    rw [FatArch.byteAt_frame hlt, FatArch.byteAt_frame hlt]
    exact hblanked.keep _ fun hno => hi ((hcovers hlt).mp hno)
  obtain ⟨B', -, hunsigned⟩ := hlaid.exists_unsigned hstop hzero hkeep
  exact ⟨B', hunsigned⟩

/-- A slice without signatures can be stripped. -/
theorem FatArch.isStrippable_of_isUnsigned {a : FatArch}
    (hin : a.offset.toNat + a.size.toNat ≤ bytes.size) {B : ThinBinary (a.frame bytes)}
    (h : B.IsUnsigned) : a.IsStrippable bytes where
  in_file := hin
  recognized := ⟨_, B.classify_eq, fun _ hh => ⟨B, Binary.thin.inj hh, fun _ hc => h.isInside hc⟩⟩

/-- Stripping leaves a fat file as it is if no slice has a signature. -/
theorem stripSignatures_eq_of_isUnsigned_slices
    (hclassify : Reading.result (.ofBytes none bytes) (classify 0) = .ok (.fat layout arches))
    (hin : ∀ a ∈ arches, a.offset.toNat + a.size.toNat ≤ bytes.size)
    (h : ∀ a ∈ arches, ∃ B : ThinBinary (a.frame bytes), B.IsUnsigned) :
    stripSignatures bytes = .ok bytes := by
  have hstrippable (a : FatArch) (ha : a ∈ arches) : a.IsStrippable bytes := by
    obtain ⟨B, hB⟩ := h a ha
    exact FatArch.isStrippable_of_isUnsigned (hin a ha) hB
  have hzero (i : Nat) (hi : ∃ a ∈ arches, a.Covers bytes i) : byteAt bytes i = 0 := by
    obtain ⟨a, ha, hcovers⟩ := hi
    obtain ⟨B, hB⟩ := h a ha
    have hlt := (hstrippable a ha).lt_of_covers hcovers
    obtain ⟨hle, hi⟩ := (FatArch.covers_iff B).mp hcovers
    obtain ⟨k, rfl⟩ := Nat.exists_eq_add_of_le hle
    rw [Nat.add_sub_cancel_left] at hi
    rw [← FatArch.byteAt_frame (Nat.lt_of_add_lt_add_left hlt)]
    exact hB.byteAt_eq_zero hi
  exact (stripSignatures_fat_iff hclassify).mpr ⟨hstrippable, rfl, hzero, fun _ _ => rfl⟩

/-- A fat file has no entitlements if no slice has a signature. -/
theorem readEntitlements_eq_nil_of_isUnsigned_slices [Host]
    (hclassify : Reading.result (.ofBytes none bytes) (classify 0) = .ok (.fat layout arches))
    (hin : ∀ a ∈ arches, a.offset.toNat + a.size.toNat ≤ bytes.size)
    (h : ∀ a ∈ arches, ∃ B : ThinBinary (a.frame bytes), B.IsUnsigned) :
    readEntitlements (.ofBytes none bytes) 0 none 0 = .ok [] := by
  have hfat : readEntitlements (.ofBytes none bytes) 0 none 0 =
      entitlementsIn 1 none (.ofBytes none bytes) := rfl
  rw [hfat, entitlementsIn, hclassify, bind_eq_ok]
  refine ⟨_, rfl, bind_eq_ok.mpr ⟨arches.map fun _ => [], mapM_eq_ok.mpr ?_, by simp [pure_eq_ok]⟩⟩
  rw [List.forall₂_map_right_iff, List.forall₂_same]
  intro a ha
  obtain ⟨B, hB⟩ := h a ha
  refine bind_eq_ok.mpr ⟨a.frame bytes, Frame.view_eq_ok_iff.mpr ⟨hin a ha, rfl⟩, ?_⟩
  rw [entitlementsIn_thin B]
  exact hB.sliceEntitlements_eq _

end Fat

/-! ## Stripping twice -/

/-- A thin binary that is well laid out, or a fat one whose slices are thin and well laid out, do not
    overlap and are behind its header. -/
inductive WellLaidOut (bytes : ByteArray) : Prop
  | thin (B : ThinBinary (.ofBytes none bytes)) : B.WellLaidOut → WellLaidOut bytes
  | fat {layout : FatLayout} {arches : List FatArch} :
      Reading.result (.ofBytes none bytes) (classify 0) = .ok (.fat layout arches) →
      WellLaidOutSlices layout arches bytes → WellLaidOut bytes

/-- What is left of a well laid out binary when its signatures are removed cannot be stripped any
    further and has no entitlements. -/
theorem stripSignatures_idempotent [Host] {bytes stripped : ByteArray} (hlaid : WellLaidOut bytes)
    (h : stripSignatures bytes = .ok stripped) :
    stripSignatures stripped = .ok stripped ∧
      readEntitlements (.ofBytes none stripped) 0 none 0 = .ok [] := by
  cases hlaid with
  | thin B hlaid =>
    have hstripped := StrippedThin.of_stripSignatures B h
    obtain ⟨B', -, hunsigned⟩ :=
      hlaid.exists_unsigned (hstripped.stop_le hlaid) hstripped.zero hstripped.keep
    exact ⟨stripSignatures_eq_of_isUnsigned hunsigned,
      (readEntitlements_thin B').trans (hunsigned.sliceEntitlements_eq _)⟩
  | @fat layout arches hclassify hlaid =>
    obtain ⟨hstrippable, hblanked⟩ := (stripSignatures_fat_iff hclassify).mp h
    have hin (a : FatArch) (ha : a ∈ arches) : a.offset.toNat + a.size.toNat ≤ stripped.size :=
      hblanked.size_eq ▸ (hstrippable a ha).in_file
    have hunsigned (a : FatArch) (ha : a ∈ arches) :
        ∃ B : ThinBinary (a.frame stripped), B.IsUnsigned :=
      hlaid.exists_unsigned hstrippable hblanked ha
    -- nothing is blanked in front of the slices
    have hclassify' :
        Reading.result (.ofBytes none stripped) (classify 0) = .ok (.fat layout arches) := by
      have hsize := (classify_eq_fat_iff.mp hclassify).2.size_le
      refine classify_eq_fat_congr hclassify (hblanked.size_eq ▸ hsize) fun i hi => ?_
      refine hblanked.keep i fun ⟨a, ha, hle, _⟩ => ?_
      have hbehind := hlaid.behind a ha
      omega
    exact ⟨stripSignatures_eq_of_isUnsigned_slices hclassify' hin hunsigned,
      readEntitlements_eq_nil_of_isUnsigned_slices hclassify' hin hunsigned⟩

/-- The records of a fat file with two slices. -/
def fatArches : List FatArch :=
  [{ cpuType := 18, cpuSubtype := 0, offset := 48, size := 48, align := 0 },
   { cpuType := 18, cpuSubtype := 0, offset := 96, size := 46, align := 0 }]

/-- A fat file with two slices. -/
def fatFile (first second : ByteArray) : ByteArray :=
  ⟨(FatLayout.bits32.encodeHeader fatArches ++ first.data.toList ++ second.data.toList).toArray⟩

set_option maxRecDepth 4000 in
theorem wellLaidOutSlices_fatFile :
    WellLaidOutSlices .bits32 fatArches (fatFile (signedFile [1, 2, 3, 4]) (signedFile [5, 6])) where
  thin := by
    refine List.forall_mem_cons.mpr ⟨?_, List.forall_mem_singleton.mpr ?_⟩
    · exact ⟨signedBinary _ (by decide +kernel) (by decide +kernel) (by decide +kernel),
        signedBinary_wellLaidOut (by decide +kernel)⟩
    · exact ⟨signedBinary _ (by decide +kernel) (by decide +kernel) (by decide +kernel),
        signedBinary_wellLaidOut (by decide +kernel)⟩
  disjoint := by unfold FatArch.Disjoint; decide
  behind := by decide

set_option maxRecDepth 4000 in
/-- A signed file and a fat file of two signed slices are well laid out. -/
theorem stripSignatures_idempotent_signedFile :
    (stripSignatures unsignedFile = .ok unsignedFile ∧
      readEntitlements (.ofBytes none unsignedFile) 0 none 0 = .ok []) ∧
    ∃ stripped, stripSignatures (fatFile (signedFile [1, 2, 3, 4]) (signedFile [5, 6])) = .ok stripped ∧
      stripSignatures stripped = .ok stripped ∧
      readEntitlements (.ofBytes none stripped) 0 none 0 = .ok [] := by
  have hthin : WellLaidOut (signedFile [1, 2, 3, 4]) :=
    .thin (signedBinary _ (by decide +kernel) (by decide +kernel) (by decide +kernel))
      (signedBinary_wellLaidOut (by decide +kernel))
  have hfat : WellLaidOut (fatFile (signedFile [1, 2, 3, 4]) (signedFile [5, 6])) :=
    .fat (by decide +kernel) wellLaidOutSlices_fatFile
  have hstrip : stripSignatures (fatFile (signedFile [1, 2, 3, 4]) (signedFile [5, 6])) =
      .ok (fatFile ⟨(unsignedFile.data.toList ++ [0, 0, 0, 0]).toArray⟩
        ⟨(unsignedFile.data.toList ++ [0, 0]).toArray⟩) := by
    decide +kernel
  exact ⟨stripSignatures_idempotent hthin (by decide +kernel), _, hstrip,
    stripSignatures_idempotent hfat hstrip⟩

end ReleaseSeal.MachO
