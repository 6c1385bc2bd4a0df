import ReleaseSeal.Proofs.MachO.Slices

/-!
# Binaries inside other files

A binary that stands inside a file is read as if it were a file of its own: what is in front of it has
no influence, not even where it looks like the mark of a thin binary in another byte order. So the
entitlements of a fat file are those that are read from copies of the ranges of its records, in order,
and it fails as the first of them does that fails, or whose range is not inside the file. Ranges may
overlap, or lie over the header; nothing that is outside the range of a slice makes a difference to it.

## Key results

- `readEntitlements_append`: a binary behind other bytes
- `readEntitlements_fat`: the slices of a fat file, each read from a copy
- `FatArch.readCopy_congr`: what the entitlements of a slice depend on
- `readEntitlements_extracted`: the same as conditions on results and failures
-/

namespace ReleaseSeal.MachO

/-! ## Behind other bytes -/

/-- The frame behind some bytes that were put in front is that of the bytes themselves. -/
theorem Frame.view_append {front bytes : ByteArray} {order : Option ByteOrder} :
    (Frame.ofBytes order (front ++ bytes)).view front.size
      ((Frame.ofBytes order (front ++ bytes)).size - front.size) none = .ok (.ofBytes none bytes) := by
  have hsize : (Frame.ofBytes order (front ++ bytes)).size = front.size + bytes.size :=
    ByteArray.size_append
  have hlength : ((Frame.ofBytes order (front ++ bytes)).size : Int) - front.size = bytes.size := by
    omega
  rw [hlength, view_natCast, if_pos (by omega)]
  exact congrArg (fun range => Except.ok (Frame.ofBytes none range)) (slice_append front bytes)

/-- A binary behind other bytes is read as if it were a file of its own. -/
theorem readEntitlements_append [Host] (front bytes : ByteArray) (arch : Option String) (depth : Int) :
    readEntitlements (.ofBytes none (front ++ bytes)) front.size arch depth =
      readEntitlements (.ofBytes none bytes) 0 arch depth := by
  by_cases hfront : front.size = 0
  · -- at the start of a file no view is made
    obtain rfl : front = ByteArray.empty := ByteArray.size_eq_zero_iff.mp hfront
    rw [ByteArray.empty_append]
    rfl
  · unfold readEntitlements
    rw [if_neg (by omega), Frame.view_append]
    rfl

/-! ## Slices -/

namespace FatArch

/-- The range of a record is inside a file. -/
def IsInside (a : FatArch) (bytes : ByteArray) : Prop :=
  a.offset.toNat + a.size.toNat ≤ bytes.size

instance (a : FatArch) (bytes : ByteArray) : Decidable (a.IsInside bytes) :=
  inferInstanceAs (Decidable (_ ≤ _))

/-- What is read from a copy of the range of a record. -/
def readCopy [Host] (a : FatArch) (bytes : ByteArray) : Except Error (List Entitlements) :=
  readEntitlements (.ofBytes none (slice bytes a.offset.toNat a.size.toNat)) 0 (some a.name) 1

/-- What is read of a slice: a range that is not inside the file cannot be copied. -/
def readSlice [Host] (bytes : ByteArray) (a : FatArch) : Except Error (List Entitlements) :=
  if a.IsInside bytes then a.readCopy bytes
  else .error (.rangeOutOfBounds a.offset.toNat a.size.toNat bytes.size)

theorem readSlice_eq_ok_iff [Host] {a : FatArch} {bytes : ByteArray} {es : List Entitlements} :
    readSlice bytes a = .ok es ↔ a.IsInside bytes ∧ a.readCopy bytes = .ok es := by
  unfold readSlice
  split
  · rename_i hin
    exact (and_iff_right hin).symm
  · rename_i hout
    exact ⟨nofun, fun h => absurd h.1 hout⟩

theorem readSlice_eq_error_iff [Host] {a : FatArch} {bytes : ByteArray} {e : Error} :
    readSlice bytes a = .error e ↔
      (¬a.IsInside bytes ∧ e = .rangeOutOfBounds a.offset.toNat a.size.toNat bytes.size) ∨
        (a.IsInside bytes ∧ a.readCopy bytes = .error e) := by
  unfold readSlice
  split
  · rename_i hin
    simp [hin]
  · rename_i hout
    simp [hout, eq_comm]

/-- The entitlements of a slice depend on the bytes of its range, their number and its name only,
    wherever the range lies. -/
theorem readCopy_congr [Host] {a a' : FatArch} {bytes bytes' : ByteArray} (hin : a.IsInside bytes)
    (hin' : a'.IsInside bytes') (hname : a.name = a'.name) (hsize : a.size = a'.size)
    (hbytes : ∀ i < a.size.toNat,
      byteAt bytes (a.offset.toNat + i) = byteAt bytes' (a'.offset.toNat + i)) :
    a.readCopy bytes = a'.readCopy bytes' := by
  unfold IsInside at hin'
  rw [← hsize] at hin'
  rw [readCopy, readCopy, ← hname, ← hsize, (slice_eq_iff hin hin').mpr hbytes]

end FatArch

section

variable {bytes : ByteArray} {layout : FatLayout} {arches : List FatArch}

/-- The entitlements of a fat file are those of its slices, each read from a copy. -/
theorem readEntitlements_fat [Host]
    (hclassify : Reading.result (.ofBytes none bytes) (classify 0) = .ok (.fat layout arches)) :
    readEntitlements (.ofBytes none bytes) 0 none 0 =
      (arches.mapM (FatArch.readSlice bytes)).map List.flatten := by
  have hslice (a : FatArch) : (do
      entitlementsIn 0 (some a.name)
        (← (Frame.ofBytes none bytes).view a.offset.toNat a.size.toNat none)) =
      a.readSlice bytes := by
    rw [Frame.view_natCast, FatArch.readSlice]
    split <;> rename_i hin
    · rw [if_pos (show a.IsInside bytes from hin)]
      rfl
    · rw [if_neg (show ¬a.IsInside bytes from hin)]
      rfl
  have hfile : readEntitlements (.ofBytes none bytes) 0 none 0 =
      entitlementsIn 1 none (.ofBytes none bytes) := rfl
  rw [hfile, entitlementsIn, hclassify]
  show (do
    let slices ← arches.mapM fun (a : FatArch) => do
      entitlementsIn 0 (some a.name)
        (← (Frame.ofBytes none bytes).view a.offset.toNat a.size.toNat none)
    return slices.flatten) = _
  simp only [hslice]
  cases arches.mapM (FatArch.readSlice bytes) <;> rfl

end

/-- Binaries inside other files are read as if each was a file of its own. What is read behind other
    bytes is what is read without them. The entitlements of a fat file are those that are read from
    copies of the ranges of its records, in order; it has none exactly if some range is not inside the
    file or its copy cannot be read, and fails as the first such record does. What is read from a copy
    depends on the bytes of the range, their number and the name of the record only. -/
theorem readEntitlements_extracted [Host] :
    (∀ (front bytes : ByteArray) (arch : Option String) (depth : Int),
      readEntitlements (.ofBytes none (front ++ bytes)) front.size arch depth =
        readEntitlements (.ofBytes none bytes) 0 arch depth) ∧
    (∀ (bytes : ByteArray) (layout : FatLayout) (arches : List FatArch),
      Reading.result (.ofBytes none bytes) (classify 0) = .ok (.fat layout arches) →
        (∀ es, readEntitlements (.ofBytes none bytes) 0 none 0 = .ok es ↔
          ∃ results, List.Forall₂ (fun a rs => a.IsInside bytes ∧ a.readCopy bytes = .ok rs)
            arches results ∧ es = results.flatten) ∧
        ∀ e, readEntitlements (.ofBytes none bytes) 0 none 0 = .error e ↔
          ∃ before a after, arches = before ++ a :: after ∧
            (∀ b ∈ before, b.IsInside bytes ∧ ∃ rs, b.readCopy bytes = .ok rs) ∧
            ((¬a.IsInside bytes ∧ e = .rangeOutOfBounds a.offset.toNat a.size.toNat bytes.size) ∨
              (a.IsInside bytes ∧ a.readCopy bytes = .error e))) ∧
    ∀ (bytes bytes' : ByteArray) (a a' : FatArch), a.IsInside bytes → a'.IsInside bytes' →
      a.name = a'.name → a.size = a'.size →
      (∀ i < a.size.toNat,
        byteAt bytes (a.offset.toNat + i) = byteAt bytes' (a'.offset.toNat + i)) →
          a.readCopy bytes = a'.readCopy bytes' := by
  refine ⟨readEntitlements_append, fun bytes layout arches hclassify => ?_,
    fun _ _ _ _ => FatArch.readCopy_congr⟩
  rw [readEntitlements_fat hclassify]
  constructor
  · intro es
    rw [map_eq_ok]
    simp only [mapM_eq_ok, FatArch.readSlice_eq_ok_iff, eq_comm (b := es)]
  · intro e
    -- joining the results of the copies meets no fault
    have hmap : (arches.mapM (FatArch.readSlice bytes)).map List.flatten = .error e ↔
        arches.mapM (FatArch.readSlice bytes) = .error e := by
      cases arches.mapM (FatArch.readSlice bytes) <;> simp [Except.map]
    rw [hmap, mapM_eq_error]
    simp only [FatArch.readSlice_eq_ok_iff, FatArch.readSlice_eq_error_iff, exists_and_left]

/-- A fat file behind the mark of a thin binary in another byte order: one of its two slices has
    entitlements, which are those of a copy of it. -/
theorem readEntitlements_extracted_grantedFat :
    let front : ByteArray := ⟨#[0xcf, 0xfa, 0xed, 0xfe]⟩
    ∃ es results, readEntitlements (.ofBytes none (front ++ grantedFat)) front.size none 0 = .ok es ∧
      List.Forall₂ (fun a rs => a.IsInside grantedFat ∧ a.readCopy grantedFat = .ok rs)
        grantedArches results ∧ es = results.flatten ∧ es.length = 1 := by
  intro front
  obtain ⟨hfront, hfat, -⟩ := readEntitlements_extracted
  have hclassify : Reading.result (.ofBytes none grantedFat) (classify 0) =
      .ok (.fat .bits32 grantedArches) := by decide +kernel
  obtain ⟨es, hes, hlength⟩ := exists_readEntitlements_grantedFat
  obtain ⟨results, hresults, hflat⟩ := ((hfat grantedFat _ _ hclassify).1 es).mp hes
  exact ⟨es, results, (hfront front grantedFat none 0).trans hes, hresults, hflat, hlength⟩

end ReleaseSeal.MachO
