import ReleaseSeal.Proofs.Compare.Archives
import ReleaseSeal.Proofs.MachO.Stripping

/-!
# Builds that were signed again

Two builds are compared without their signatures. If nothing else differs, the results are equal and the
entry is accepted. If the results are equal, all that may differ is what the binaries declare as their
signatures: no other byte is lost, neither by blanking nor by cutting the end off.

## Key results

- `StrippedThin.eq_of_resigned`: builds that were signed again are equal without their signatures
- `StrippedThin.byteAt_eq`: bytes in front of the end that no signature declares are kept
- `stripSignatures_identifies_resigned`: both for files, and what a comparison says
-/

namespace ReleaseSeal.MachO

variable {t u t' u' : ByteArray} {T : ThinBinary (.ofBytes none t)} {U : ThinBinary (.ofBytes none u)}
  {c d : PlacedCommand}

/-- Two binaries were signed differently: each has one signature, which is located at the same place,
    starts at the same offset and is the end of its file, and in front of the signatures all bytes but
    those of the fields that locate them are the same. Neither the size of the command nor the place of
    the signature matters. -/
structure Resigned (T : ThinBinary (.ofBytes none t)) (U : ThinBinary (.ofBytes none u))
    (c d : PlacedCommand) : Prop where
  signatures_eq : T.signatures = [c]
  signatures_eq' : U.signatures = [d]
  start_eq : d.start = c.start
  offset_eq : d.signatureOffset (.ofBytes none u) = c.signatureOffset (.ofBytes none t)
  end_eq : c.signatureEnd (.ofBytes none t) = t.size
  end_eq' : d.signatureEnd (.ofBytes none u) = u.size
  agree : ∀ i < c.signatureOffset (.ofBytes none t), ¬c.Locates i → byteAt t i = byteAt u i

/-! ## What is left of two builds -/

/-- A file with one signature, which is its end, is cut where the signature starts. -/
theorem StrippedThin.size_eq (h : StrippedThin T t') (hone : T.signatures = [c])
    (hend : c.signatureEnd (.ofBytes none t) = t.size) :
    t'.size = c.signatureOffset (.ofBytes none t) := by
  obtain ⟨hnone, -⟩ | ⟨c', hc', -, hsize⟩ := h.cut
  · exact absurd hend (hnone c (hone ▸ List.mem_singleton_self c))
  · obtain rfl := List.mem_singleton.mp (hone ▸ hc')
    exact hsize

/-- In front of the only signature, only its fields are blanked. -/
theorem covers_iff_of_lt (hone : T.signatures = [c]) {i : Nat}
    (hi : i < c.signatureOffset (.ofBytes none t)) : T.Covers i ↔ c.Locates i := by
  simp only [ThinBinary.Covers, ThinBinary.InSignature, ThinBinary.InLocator, hone,
    List.mem_singleton, exists_eq_left, PlacedCommand.Declares]
  exact or_iff_right fun hno => Nat.not_le_of_lt hi hno.1

/-- Builds that were signed again are equal without their signatures. -/
theorem StrippedThin.eq_of_resigned (ht : StrippedThin T t') (hu : StrippedThin U u')
    (h : Resigned T U c d) : t' = u' := by
  have htsize := ht.size_eq h.signatures_eq h.end_eq
  have husize := hu.size_eq h.signatures_eq' h.end_eq'
  refine eq_of_byteAt_eq (htsize.trans (h.offset_eq.symm.trans husize.symm)) fun i hi => ?_
  have hic : i < c.signatureOffset (.ofBytes none t) := htsize ▸ hi
  have hid : i < d.signatureOffset (.ofBytes none u) := h.offset_eq ▸ hic
  have htcovers := covers_iff_of_lt h.signatures_eq hic
  have hucovers : U.Covers i ↔ c.Locates i := by
    rw [covers_iff_of_lt h.signatures_eq' hid, PlacedCommand.Locates, PlacedCommand.Locates,
      PlacedCommand.locator, PlacedCommand.locator, h.start_eq]
  -- the fields stand at the same place in both, and all other bytes are kept
  by_cases hlocates : c.Locates i
  · rw [ht.zero i (htcovers.mpr hlocates), hu.zero i (hucovers.mpr hlocates)]
  · rw [ht.keep i hi fun hno => hlocates (htcovers.mp hno),
      hu.keep i (husize ▸ hid) fun hno => hlocates (hucovers.mp hno)]
    exact h.agree i hic hlocates

/-- If two builds are equal without their signatures, they agree where neither declares a signature or
    the fields of one. -/
theorem StrippedThin.byteAt_eq (ht : StrippedThin T t') (hu : StrippedThin U t') {i : Nat}
    (hi : i < t'.size) (hT : ¬T.Covers i) (hU : ¬U.Covers i) : byteAt t i = byteAt u i := by
  rw [← ht.keep i hi hT, ← hu.keep i hi hU]

/-- What is cut off is part of a signature. -/
theorem StrippedThin.inSignature_of_le (h : StrippedThin T t') {i : Nat} (hi : t'.size ≤ i)
    (hlt : i < t.size) : T.InSignature i := by
  obtain ⟨-, hsize⟩ | ⟨c, hc, hend, hsize⟩ := h.cut
  · omega
  · exact ⟨c, hc, hsize ▸ hi, hend ▸ hlt⟩

/-- A thin file looks like a binary. -/
theorem looksLikeMachO_of_thinBinary (T : ThinBinary (.ofBytes none t)) : looksLikeMachO t = true := by
  have hheader : T.header.size ≤ t.size := T.header_size_le_size
  have hsize : 28 ≤ T.header.size := by
    unfold Header.size Layout.headerSize
    split <;> omega
  rw [looksLikeMachO, if_neg (by omega), T.classify_eq]

end ReleaseSeal.MachO

namespace ReleaseSeal.Compare

open Archive (Entry)
open MachO (ThinBinary Resigned StrippedThin stripSignatures)

/-- Entries whose payloads are equal without their signatures are accepted. -/
theorem judge_of_strip_eq {t u : Entry} {isMain : Bool} {o : Options} {x y z : ByteArray}
    (hbuiltin : o.stripper = .builtin) (hcategory : Bundle.Category.ofPath? t.path = none)
    (ht : t.read = .ok x) (hu : u.read = .ok y) (hx : MachO.looksLikeMachO x = true)
    (hy : MachO.looksLikeMachO y = true) (hxz : stripSignatures x = .ok z)
    (hyz : stripSignatures y = .ok z) :
    judge t u isMain o = .ok (.identical t.path) ∨
      judge t u isMain o = .ok (.tolerated t.path (some 0) (some .codeSignature)) := by
  -- sizes and checksums that agree settle the entry before its payload is read
  by_cases hrecorded : RecordedSame t u
  · exact .inl (judge_eq_ok_iff.mpr (.inl ⟨hrecorded, rfl⟩))
  · have happlies : o.stripper.applies x y = true := by
      rw [hbuiltin, Stripper.applies, hx, hy]
      rfl
    have hprepares : o.stripper.Prepares x y z z := by
      rw [Stripper.Prepares, if_pos happlies, hbuiltin]
      exact ⟨mapError_eq_ok.mpr hxz, mapError_eq_ok.mpr hyz⟩
    refine .inr (judge_eq_ok_iff.mpr (.inr (.inr ⟨hrecorded, hcategory, x, y, ht, hu, ?_⟩)))
    exact judgePayloads_eq_ok_iff.mpr ⟨z, z, hprepares, .inl ⟨happlies, rfl, rfl⟩⟩

/-- Stripping identifies builds that were signed again, and no others. If the results of two thin files
    are equal, the files agree at every offset of the result that no signature of either declares, nor the
    fields of one, and what is cut off a file is part of a signature that this file declares. If the files
    were signed differently and are the same otherwise, the results are equal, and entries with these
    payloads on a path that may not differ are accepted as identical or for their signatures. -/
theorem stripSignatures_identifies_resigned {t u t' u' : ByteArray} {ht hu : MachO.Header}
    (hthin : MachO.Reading.result (.ofBytes none t) (MachO.classify 0) = .ok (.thin ht))
    (hthin' : MachO.Reading.result (.ofBytes none u) (MachO.classify 0) = .ok (.thin hu))
    (hstrip : stripSignatures t = .ok t') (hstrip' : stripSignatures u = .ok u') :
    ∃ (T : ThinBinary (.ofBytes none t)) (U : ThinBinary (.ofBytes none u)),
      (t' = u' →
        (∀ i < t'.size, ¬T.Covers i → ¬U.Covers i → byteAt t i = byteAt u i) ∧
        (∀ i, t'.size ≤ i → i < t.size → T.InSignature i) ∧
        ∀ i, t'.size ≤ i → i < u.size → U.InSignature i) ∧
      ∀ c d, Resigned T U c d →
        t' = u' ∧
        ∀ (e e' : Entry) (isMain : Bool) (o : Options), o.stripper = .builtin →
          e.read = .ok t → e'.read = .ok u → Bundle.Category.ofPath? e.path = none →
          judge e e' isMain o = .ok (.identical e.path) ∨
            judge e e' isMain o = .ok (.tolerated e.path (some 0) (some .codeSignature)) := by
  obtain ⟨T, -⟩ := MachO.exists_thinBinary_of_stripSignatures hthin hstrip
  obtain ⟨U, -⟩ := MachO.exists_thinBinary_of_stripSignatures hthin' hstrip'
  have hT := StrippedThin.of_stripSignatures T hstrip
  have hU := StrippedThin.of_stripSignatures U hstrip'
  refine ⟨T, U, ?_, fun c d hresigned => ?_⟩
  · rintro rfl
    exact ⟨fun i hi => hT.byteAt_eq hU hi, fun i => hT.inSignature_of_le, fun i => hU.inSignature_of_le⟩
  · obtain rfl := hT.eq_of_resigned hU hresigned
    refine ⟨rfl, fun e e' isMain o hbuiltin he he' hcategory => ?_⟩
    exact judge_of_strip_eq hbuiltin hcategory he he' (MachO.looksLikeMachO_of_thinBinary T)
      (MachO.looksLikeMachO_of_thinBinary U) hstrip hstrip'

set_option maxRecDepth 4000 in
/-- Two files that differ in their signatures are accepted. -/
theorem judge_signedFile :
    let t := fileWith "A.app/A" 1 (MachO.signedFile [1, 2, 3, 4])
    let u := fileWith "A.app/A" 2 (MachO.signedFile [5, 6])
    let o := { Options.standard with stripper := .builtin }
    stripSignatures (MachO.signedFile [1, 2, 3, 4]) = .ok MachO.unsignedFile ∧
      stripSignatures (MachO.signedFile [5, 6]) = .ok MachO.unsignedFile ∧
      (judge t u true o = .ok (.identical t.path) ∨
        judge t u true o = .ok (.tolerated t.path (some 0) (some .codeSignature))) := by
  intro t u o
  have hstrip : stripSignatures (MachO.signedFile [1, 2, 3, 4]) = .ok MachO.unsignedFile := by
    decide +kernel
  have hstrip' : stripSignatures (MachO.signedFile [5, 6]) = .ok MachO.unsignedFile := by
    decide +kernel
  let B : ThinBinary (.ofBytes none (MachO.signedFile [1, 2, 3, 4])) :=
    MachO.signedBinary _ (by decide +kernel) (by decide +kernel) (by decide +kernel)
  let B' : ThinBinary (.ofBytes none (MachO.signedFile [5, 6])) :=
    MachO.signedBinary _ (by decide +kernel) (by decide +kernel) (by decide +kernel)
  obtain ⟨T, U, -, hresigned⟩ :=
    stripSignatures_identifies_resigned B.classify_eq B'.classify_eq hstrip hstrip'
  have hsigned : Resigned T U MachO.signedCommand MachO.signedCommand :=
    { signatures_eq := Subsingleton.elim B T ▸ MachO.signatures_signedBinary ..
      signatures_eq' := Subsingleton.elim B' U ▸ MachO.signatures_signedBinary ..
      start_eq := rfl
      offset_eq := by decide +kernel
      end_eq := by decide +kernel
      end_eq' := by decide +kernel
      agree := by unfold MachO.PlacedCommand.Locates; decide +kernel }
  exact ⟨hstrip, hstrip', (hresigned _ _ hsigned).2 t u true o rfl rfl rfl (by decide)⟩

end ReleaseSeal.Compare
