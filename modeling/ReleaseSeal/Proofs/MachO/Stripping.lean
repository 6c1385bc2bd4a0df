import ReleaseSeal.MachO.Strip
import ReleaseSeal.Proofs.Bytes.Blanked
import ReleaseSeal.Proofs.MachO.Signatures
import ReleaseSeal.Proofs.Outcome

/-!
# What stripping does

Stripping a slice has a result exactly if every signature that the slice declares is inside it, and then
sets exactly the bytes to zero that lie in a declared signature or in fields that locate one. A thin
file is cut at the last signature that reaches its end; a fat one keeps its size.

## Key results

- `stripSlice_eq_ok_iff`: when a slice can be stripped, and the steps that are made
- `StrippedThin.of_stripSignatures`: what becomes of a thin file
- `stripSignatures_fat_iff`: what becomes of a fat file
-/

namespace ReleaseSeal.MachO

/-! ## One signature -/

/-- Blanks the signature that a command declares, and the fields that locate it, in the slice that starts
    at offset `base` of a file. -/
def Stripping.remove (f : Frame) (base : Nat) (truncate : Bool) (s : Stripping) (c : PlacedCommand) :
    Stripping :=
  { bytes := blank (blank s.bytes (base + c.signatureOffset f) (c.signatureSize f))
      (base + c.locator) 8
    sliceEnd :=
      if truncate && c.signatureEnd f = f.size then base + c.signatureOffset f else s.sliceEnd }

section Slice

variable {f : Frame} {base : Nat} {truncate : Bool} {bytes : ByteArray}

/-- The visit to a command that locates a signature removes that signature, which must be inside the
    slice. -/
theorem yields_stripCommand_iff {c : PlacedCommand} (hc : c.IsSignature) {s t : Stripping} :
    (∃ k, Reading.Yields f c.locator (stripCommand base truncate c.start c.command s) t k) ↔
      c.IsInside f ∧ t = s.remove f base truncate c := by
  have hkind : c.command.kind = LoadCommand.codeSignature := hc
  simp [stripCommand, hkind, and_assoc, Stripping.remove, PlacedCommand.IsInside,
    PlacedCommand.signatureEnd, PlacedCommand.signatureOffset, PlacedCommand.signatureSize,
    PlacedCommand.locator, Nat.add_assoc]

/-- The visit to any other command does nothing. -/
theorem yields_stripCommand_of_not_isSignature {c : PlacedCommand} (hc : ¬c.IsSignature)
    {s t : Stripping} :
    (∃ k, Reading.Yields f c.locator (stripCommand base truncate c.start c.command s) t k) ↔ t = s := by
  have hkind : c.command.kind ≠ LoadCommand.codeSignature := hc
  simp [stripCommand, hkind]

/-- A slice can be stripped exactly if the signatures that it declares are inside it. They are removed
    one after the other. -/
theorem stripSlice_eq_ok_iff (B : ThinBinary f) {s : Stripping} :
    Reading.result f (stripSlice base truncate B.header bytes) = .ok s ↔
      (∀ c ∈ B.signatures, c.IsInside f) ∧
        s = B.signatures.foldl (Stripping.remove f base truncate) ⟨bytes, base + f.size⟩ := by
  have hwalk : Reading.result f (stripSlice base truncate B.header bytes) = .ok s ↔
      Visits f (stripCommand base truncate) B.signatures ⟨bytes, base + f.size⟩ s := by
    rw [← B.walk_signatures_iff fun c hc s t => yields_stripCommand_of_not_isSignature hc,
      Reading.result_eq_ok_iff, Reading.result_eq_ok_iff]
    simp [stripSlice]
  rw [hwalk, visits_iff_foldl fun c hc s t =>
    yields_stripCommand_iff (ThinBinary.mem_signatures.mp hc).2]

/-- A thin slice that was stripped has a table of commands. -/
theorem exists_thinBinary_of_stripSlice {h : Header} {s : Stripping}
    (hclassify : Reading.result f (classify 0) = .ok (.thin h))
    (hstrip : Reading.result f (stripSlice base truncate h bytes) = .ok s) :
    ∃ B : ThinBinary f, B.header = h := by
  obtain ⟨j, hyields⟩ := Reading.result_eq_ok_iff.mp hstrip
  simp only [stripSlice, Reading.yields_bind, Reading.yields_read] at hyields
  obtain ⟨_, _, ⟨rfl, rfl⟩, hwalk⟩ := hyields
  obtain ⟨B, hB, -⟩ := exists_thinBinary hclassify (Reading.result_eq_ok_iff.mpr ⟨j, hwalk⟩)
  exact ⟨B, hB⟩

/-- Removing signatures blanks what they declare. -/
theorem blanked_foldl_remove {cs : List PlacedCommand} {s : Stripping} :
    Blanked (fun i => base ≤ i ∧ ∃ c ∈ cs, c.Declares f (i - base) ∨ c.Locates (i - base))
      s.bytes (cs.foldl (Stripping.remove f base truncate) s).bytes := by
  induction cs generalizing s with
  | nil => exact (Blanked.refl s.bytes).congr fun i => by simp
  | cons c rest ih =>
    rw [List.foldl_cons]
    -- the visit blanks the signature and then the fields
    have hone := (blanked_blank s.bytes (base + c.signatureOffset f) (c.signatureSize f)).trans
      (blanked_blank _ (base + c.locator) 8)
    refine (hone.trans (@ih (s.remove f base truncate c))).congr fun i => ?_
    simp only [List.mem_cons, exists_eq_or_imp, PlacedCommand.Declares, PlacedCommand.Locates,
      PlacedCommand.signatureEnd]
    constructor
    · rintro ⟨hbase, hc | hrest⟩
      · exact .inl (by omega)
      · exact .inr ⟨hbase, hrest⟩
    · rintro (hc | ⟨hbase, hrest⟩)
      · exact ⟨by omega, .inl (by omega)⟩
      · exact ⟨hbase, .inr hrest⟩

/-- The last of some commands whose signature reaches the end of the slice. -/
def lastReaching? (f : Frame) (cs : List PlacedCommand) : Option PlacedCommand :=
  (cs.filter fun c => c.signatureEnd f = f.size).getLast?

theorem lastReaching?_eq_none_iff {cs : List PlacedCommand} :
    lastReaching? f cs = none ↔ ∀ c ∈ cs, c.signatureEnd f ≠ f.size := by
  simp [lastReaching?]

theorem mem_of_lastReaching? {cs : List PlacedCommand} {c : PlacedCommand}
    (h : lastReaching? f cs = some c) : c ∈ cs ∧ c.signatureEnd f = f.size := by
  simpa using List.mem_filter.mp (List.mem_of_getLast? h)

/-- A slice is cut where the last signature starts that reaches its end, if there is one. -/
theorem sliceEnd_foldl_remove {cs : List PlacedCommand} {s : Stripping} :
    (cs.foldl (Stripping.remove f base true) s).sliceEnd =
      ((lastReaching? f cs).map fun c => base + c.signatureOffset f).getD s.sliceEnd := by
  induction cs generalizing s with
  | nil => rfl
  | cons c rest ih =>
    rw [List.foldl_cons, ih, lastReaching?, lastReaching?, List.filter_cons, Stripping.remove]
    by_cases hc : c.signatureEnd f = f.size
    · -- a later signature that reaches the end counts instead
      simp only [hc, decide_true, Bool.and_self, if_true, List.getLast?_cons]
      cases (rest.filter fun c => c.signatureEnd f = f.size).getLast? <;> rfl
    · simp [hc]

end Slice

/-! ## Thin files -/

section Thin

variable {bytes stripped : ByteArray}

/-- A thin file in which the signatures are blanked, and where it is cut. -/
def ThinBinary.removed (B : ThinBinary (.ofBytes none bytes)) : Stripping :=
  B.signatures.foldl (Stripping.remove (.ofBytes none bytes) 0 true) ⟨bytes, 0 + bytes.size⟩

/-- What becomes of a thin file: what its signatures declare is blanked, and it is cut where a signature
    starts that reaches its end, or keeps its size if there is none. -/
structure StrippedThin (B : ThinBinary (.ofBytes none bytes)) (stripped : ByteArray) : Prop where
  inside : ∀ c ∈ B.signatures, c.IsInside (.ofBytes none bytes)
  zero : ∀ i, B.Covers i → byteAt stripped i = 0
  keep : ∀ i < stripped.size, ¬B.Covers i → byteAt stripped i = byteAt bytes i
  cut : ((∀ c ∈ B.signatures, c.signatureEnd (.ofBytes none bytes) ≠ bytes.size) ∧
      stripped.size = bytes.size) ∨
    ∃ c ∈ B.signatures, c.signatureEnd (.ofBytes none bytes) = bytes.size ∧
      stripped.size = c.signatureOffset (.ofBytes none bytes)

/-- A thin file can be stripped exactly if the signatures that it declares are inside it. -/
theorem stripSignatures_thin_iff (B : ThinBinary (.ofBytes none bytes)) :
    stripSignatures bytes = .ok stripped ↔
      (∀ c ∈ B.signatures, c.IsInside (.ofBytes none bytes)) ∧
        stripped = B.removed.bytes.extract 0 B.removed.sliceEnd := by
  have hslice (s : Stripping) : Reading.result (.ofBytes none bytes)
      (stripSlice 0 true B.header bytes) = .ok s ↔
        (∀ c ∈ B.signatures, c.IsInside (.ofBytes none bytes)) ∧ s = B.removed :=
    stripSlice_eq_ok_iff B
  simp only [stripSignatures, B.classify_eq, bind_eq_ok, Except.ok.injEq, existsAndEq, true_and,
    hslice, pure_eq_ok, and_true]
  exact and_congr_right fun _ => eq_comm

/-- Removing the signatures of a thin file blanks what they declare. -/
theorem ThinBinary.blanked_removed (B : ThinBinary (.ofBytes none bytes)) :
    Blanked B.Covers bytes B.removed.bytes :=
  (@blanked_foldl_remove (.ofBytes none bytes) 0 true B.signatures ⟨bytes, 0 + bytes.size⟩).congr
    fun i => by
      rw [ThinBinary.covers_iff]
      exact (and_iff_right (Nat.zero_le i)).symm

/-- A thin file is cut where its last signature starts that is its end. -/
theorem ThinBinary.sliceEnd_removed (B : ThinBinary (.ofBytes none bytes)) :
    B.removed.sliceEnd = ((lastReaching? (.ofBytes none bytes) B.signatures).map
      (·.signatureOffset (.ofBytes none bytes))).getD bytes.size := by
  rw [ThinBinary.removed, sliceEnd_foldl_remove]
  simp only [Nat.zero_add]

theorem ThinBinary.sliceEnd_removed_le (B : ThinBinary (.ofBytes none bytes)) :
    B.removed.sliceEnd ≤ bytes.size := by
  rw [B.sliceEnd_removed]
  cases hlast : lastReaching? (.ofBytes none bytes) B.signatures with
  | none => exact Nat.le_refl _
  | some c =>
    exact Nat.le_trans (Nat.le_add_right ..) (Nat.le_of_eq (mem_of_lastReaching? hlast).2)

/-- A thin file is as long as it is up to where it is cut. -/
theorem size_of_stripSignatures (B : ThinBinary (.ofBytes none bytes))
    (h : stripSignatures bytes = .ok stripped) : stripped.size = B.removed.sliceEnd := by
  obtain ⟨-, rfl⟩ := (stripSignatures_thin_iff B).mp h
  rw [ByteArray.size_extract, B.blanked_removed.size_eq, Nat.sub_zero,
    Nat.min_eq_left B.sliceEnd_removed_le]

/-- What is left of a thin file is the front of the blanked bytes. -/
theorem eq_extract_of_stripSignatures (B : ThinBinary (.ofBytes none bytes))
    (h : stripSignatures bytes = .ok stripped) :
    stripped = B.removed.bytes.extract 0 stripped.size := by
  rw [size_of_stripSignatures B h]
  exact ((stripSignatures_thin_iff B).mp h).2

theorem StrippedThin.of_stripSignatures (B : ThinBinary (.ofBytes none bytes))
    (h : stripSignatures bytes = .ok stripped) : StrippedThin B stripped := by
  have hfront := eq_extract_of_stripSignatures B h
  have hblanked := B.blanked_removed
  refine ⟨((stripSignatures_thin_iff B).mp h).1, fun i hi => ?_,
    fun i hlt => (hblanked.byteAt_front hfront hlt).2, ?_⟩
  · rw [hfront, byteAt_extract, Nat.zero_add, hblanked.zero i hi, ite_self]
  · rw [size_of_stripSignatures B h, B.sliceEnd_removed]
    cases hlast : lastReaching? (.ofBytes none bytes) B.signatures with
    | none => exact .inl ⟨lastReaching?_eq_none_iff.mp hlast, rfl⟩
    | some c =>
      obtain ⟨hc, hreaches⟩ := mem_of_lastReaching? hlast
      exact .inr ⟨c, hc, hreaches, rfl⟩

/-- A thin file that was stripped has a table of commands. -/
theorem exists_thinBinary_of_stripSignatures {h : Header}
    (hclassify : Reading.result (.ofBytes none bytes) (classify 0) = .ok (.thin h))
    (hstrip : stripSignatures bytes = .ok stripped) :
    ∃ B : ThinBinary (.ofBytes none bytes), B.header = h := by
  simp only [stripSignatures, hclassify, bind_eq_ok, Except.ok.injEq, existsAndEq, true_and] at hstrip
  obtain ⟨s, hslice, -⟩ := hstrip
  exact exists_thinBinary_of_stripSlice hclassify hslice

end Thin

/-! ## Fat files -/

namespace FatArch

/-- The frame of the slice that a record describes. -/
def frame (a : FatArch) (file : ByteArray) : Frame :=
  .ofBytes none (slice file a.offset.toNat a.size.toNat)

/-- The size of a slice inside the file. -/
theorem size_frame {a : FatArch} {file : ByteArray}
    (hin : a.offset.toNat + a.size.toNat ≤ file.size) :
    (a.frame file).size = a.size.toNat :=
  size_slice hin

/-- The bytes of a slice are those of the file from the offset of the slice on. -/
theorem byteAt_frame {a : FatArch} {file : ByteArray} {i : Nat}
    (hi : i < a.size.toNat) :
    byteAt (a.frame file).bytes i = byteAt file (a.offset.toNat + i) := by
  rw [frame, Frame.ofBytes, slice, byteAt_extract, if_pos (by omega)]

/-- The slice is in the file, and if it is thin, it has a table of commands and the signatures that it
    declares are inside it. -/
structure IsStrippable (a : FatArch) (file : ByteArray) : Prop where
  in_file : a.offset.toNat + a.size.toNat ≤ file.size
  recognized : ∃ b, Reading.result (a.frame file) (classify 0) = .ok b ∧
    ∀ h, b = .thin h → ∃ B : ThinBinary (a.frame file), B.header = h ∧
      ∀ c ∈ B.signatures, c.IsInside (a.frame file)

/-- The offset of the file lies in a signature that the slice declares, or in the fields that locate
    one. -/
def Covers (a : FatArch) (file : ByteArray) (i : Nat) : Prop :=
  a.offset.toNat ≤ i ∧ ∃ B : ThinBinary (a.frame file), B.Covers (i - a.offset.toNat)

theorem covers_iff {a : FatArch} {file : ByteArray} {i : Nat} (B : ThinBinary (a.frame file)) :
    a.Covers file i ↔ a.offset.toNat ≤ i ∧ B.Covers (i - a.offset.toNat) := by
  constructor
  · rintro ⟨hle, B', hB'⟩
    exact ⟨hle, Subsingleton.elim B' B ▸ hB'⟩
  · rintro ⟨hle, hB⟩
    exact ⟨hle, B, hB⟩

end FatArch

section Fat

variable {file bytes after : ByteArray} {a : FatArch} {arches : List FatArch}

/-- The result of stripping a slice, by what the slice is recognised as. -/
theorem stripArch_eq_ok_iff :
    stripArch (.ofBytes none file) bytes a = .ok after ↔
      a.offset.toNat + a.size.toNat ≤ file.size ∧
        ∃ b, Reading.result (a.frame file) (classify 0) = .ok b ∧
          ((∃ h, b = .thin h ∧ ∃ s, Reading.result (a.frame file)
              (stripSlice a.offset.toNat false h bytes) = .ok s ∧ s.bytes = after) ∨
            ((∀ h, b ≠ .thin h) ∧ bytes = after)) := by
  simp only [stripArch, bind_eq_ok, Frame.view_eq_ok_iff, and_assoc, existsAndEq, true_and]
  refine and_congr_right fun _ => exists_congr fun b => and_congr_right fun _ => ?_
  cases b with
  | thin header =>
    simp only [bind_eq_ok, pure_eq_ok, Binary.thin.injEq, existsAndEq, true_and, ne_eq]
    exact ⟨.inl, fun h => h.resolve_right fun hno => hno.1 header rfl⟩
  | fat layout arches => simp [pure_eq_ok]
  | unrecognized magic => simp [pure_eq_ok]

/-- Stripping a slice blanks what it declares. -/
theorem blanked_of_stripArch (h : stripArch (.ofBytes none file) bytes a = .ok after) :
    a.IsStrippable file ∧ Blanked (a.Covers file) bytes after := by
  obtain ⟨hin, b, hclassify, ⟨h, rfl, s, hslice, rfl⟩ | ⟨hother, rfl⟩⟩ := stripArch_eq_ok_iff.mp h
  · obtain ⟨B, rfl⟩ := exists_thinBinary_of_stripSlice hclassify hslice
    obtain ⟨hinside, rfl⟩ := (stripSlice_eq_ok_iff B).mp hslice
    refine ⟨⟨hin, _, hclassify, fun h hh => ⟨B, Binary.thin.inj hh, hinside⟩⟩, ?_⟩
    have hblanked := @blanked_foldl_remove (a.frame file) a.offset.toNat false B.signatures
      ⟨bytes, a.offset.toNat + (a.frame file).size⟩
    refine hblanked.congr fun i => ?_
    rw [FatArch.covers_iff B, ThinBinary.covers_iff]
  · -- a slice that is not thin declares nothing
    refine ⟨⟨hin, b, hclassify, fun h hh => absurd hh (hother h)⟩, ?_⟩
    refine (Blanked.refl bytes).congr fun i => ?_
    simp only [iff_false]
    rintro ⟨-, B, -⟩
    exact hother B.header (Except.ok.inj (hclassify.symm.trans B.classify_eq))

theorem exists_stripArch (h : a.IsStrippable file) :
    ∃ after, stripArch (.ofBytes none file) bytes a = .ok after := by
  obtain ⟨b, hclassify, hthin⟩ := h.recognized
  simp only [stripArch_eq_ok_iff]
  by_cases hb : ∃ header, b = .thin header
  · obtain ⟨header, rfl⟩ := hb
    obtain ⟨B, rfl, hinside⟩ := hthin header rfl
    exact ⟨_, h.in_file, _, hclassify,
      .inl ⟨_, rfl, _, (stripSlice_eq_ok_iff B).mpr ⟨hinside, rfl⟩, rfl⟩⟩
  · exact ⟨bytes, h.in_file, b, hclassify, .inr ⟨fun header hh => hb ⟨header, hh⟩, rfl⟩⟩

/-- Stripping slices blanks what any of them declares. -/
theorem blanked_of_foldlM_stripArch
    (h : arches.foldlM (stripArch (.ofBytes none file)) bytes = .ok after) :
    (∀ a ∈ arches, a.IsStrippable file) ∧
      Blanked (fun i => ∃ a ∈ arches, a.Covers file i) bytes after := by
  induction arches generalizing bytes with
  | nil =>
    obtain rfl := pure_eq_ok.mp h
    exact ⟨nofun, (Blanked.refl bytes).congr fun i => by simp⟩
  | cons a rest ih =>
    rw [List.foldlM_cons, bind_eq_ok] at h
    obtain ⟨mid, hmid, hlast⟩ := h
    obtain ⟨ha, hfirst⟩ := blanked_of_stripArch hmid
    obtain ⟨hrest, hblanked⟩ := ih hlast
    exact ⟨List.forall_mem_cons.mpr ⟨ha, hrest⟩, (hfirst.trans hblanked).congr fun i => by simp⟩

theorem exists_foldlM_stripArch (h : ∀ a ∈ arches, a.IsStrippable file) :
    ∃ after, arches.foldlM (stripArch (.ofBytes none file)) bytes = .ok after := by
  induction arches generalizing bytes with
  | nil => exact ⟨bytes, rfl⟩
  | cons a rest ih =>
    obtain ⟨ha, hrest⟩ := List.forall_mem_cons.mp h
    obtain ⟨mid, hmid⟩ := @exists_stripArch file bytes a ha
    obtain ⟨after, hafter⟩ := @ih mid hrest
    exact ⟨after, by rw [List.foldlM_cons, bind_eq_ok]; exact ⟨mid, hmid, hafter⟩⟩

/-- A fat file can be stripped exactly if each of its slices can. Then what its slices declare is
    blanked. -/
theorem stripSignatures_fat_iff {layout : FatLayout}
    (hclassify : Reading.result (.ofBytes none file) (classify 0) = .ok (.fat layout arches)) :
    stripSignatures file = .ok after ↔
      (∀ a ∈ arches, a.IsStrippable file) ∧
        Blanked (fun i => ∃ a ∈ arches, a.Covers file i) file after := by
  have hfold : stripSignatures file = .ok after ↔
      arches.foldlM (stripArch (.ofBytes none file)) file = .ok after := by
    simp only [stripSignatures, hclassify, bind_eq_ok, Except.ok.injEq, existsAndEq, true_and]
  rw [hfold]
  refine ⟨blanked_of_foldlM_stripArch, fun ⟨hstrippable, hblanked⟩ => ?_⟩
  -- there is a result, and no other one has these bytes
  obtain ⟨after', hafter'⟩ := @exists_foldlM_stripArch file file arches hstrippable
  rwa [hblanked.unique (blanked_of_foldlM_stripArch hafter').2]

end Fat

end ReleaseSeal.MachO
