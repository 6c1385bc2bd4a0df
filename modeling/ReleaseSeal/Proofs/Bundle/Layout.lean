import Mathlib.Data.List.Nodup
import ReleaseSeal.Bundle.Layout
import ReleaseSeal.Proofs.Bundle.Root
import ReleaseSeal.Proofs.Outcome

/-!
# What is found of a bundle

The main executable of a bundle is always an entry of it, whatever name the information gives. The
layout is found if the entries that may hold the information can be read and raise no fault when they
are decoded.

## Key results

- `Layout.exists_entry_of_executable`: the main executable is an entry
- `rootOf?_of_mem_executablePaths`: where a bundle may have its main executable is below its root
- `endsWith_slash_of_mem_executablePaths`: when this is the path of a directory
- `Layout.exists_find`: when the layout of a bundle is found
- `Layout.find_perm`: the order of the entries does not matter, if no path occurs twice
-/

namespace ReleaseSeal.Bundle

open Archive (Entry)

variable {entries : List Entry} {root suffix : String}

theorem mem_of_entryAt? {path : String} {e : Entry} (h : entryAt? entries path = some e) :
    e ∈ entries ∧ e.path = path := by
  have hmem := List.mem_of_find?_eq_some h
  have hpath := List.find?_some h
  exact ⟨List.mem_reverse.mp hmem, beq_iff_eq.mp hpath⟩

/-- If no path occurs twice, the entry of a path is the one that has it. -/
theorem entryAt?_eq_some_iff (hdistinct : (entries.map Entry.path).Nodup) {path : String}
    {e : Entry} : entryAt? entries path = some e ↔ e ∈ entries ∧ e.path = path := by
  refine ⟨mem_of_entryAt?, ?_⟩
  rintro ⟨hmem, rfl⟩
  have hsome : (entryAt? entries e.path).isSome = true :=
    List.find?_isSome.mpr ⟨e, List.mem_reverse.mpr hmem, beq_self_eq_true _⟩
  obtain ⟨found, hfound⟩ := Option.isSome_iff_exists.mp hsome
  obtain ⟨hfoundMem, hpath⟩ := mem_of_entryAt? hfound
  rw [hfound, List.inj_on_of_nodup_map hdistinct hfoundMem hmem hpath]

/-- If no path occurs twice, each has the same entry in any order of the entries. -/
theorem entryAt?_perm {entries' : List Entry} (hdistinct : (entries.map Entry.path).Nodup)
    (h : entries.Perm entries') : entryAt? entries = entryAt? entries' := by
  have hdistinct' : (entries'.map Entry.path).Nodup := (h.map _).nodup_iff.mp hdistinct
  refine funext fun path => Option.ext fun e => ?_
  rw [entryAt?_eq_some_iff hdistinct, entryAt?_eq_some_iff hdistinct', h.mem_iff]

/-- The information in a payload is the dictionary that it decodes to. There is none if it does not,
    unless it raises a fault. -/
theorem decodeInfo_eq_ok_iff [Host] {payload : ByteArray} {info : Option Plist.Dict} :
    decodeInfo payload = .ok info ↔
      (∀ fault, Plist.decode payload ≠ .error (.fault fault)) ∧
        ∀ values, info = some values ↔ Plist.decode payload = .ok (.dict values) := by
  unfold decodeInfo
  generalize Plist.decode payload = outcome
  cases outcome with
  | ok value => cases value <;> cases info <;> simp [eq_comm]
  | error failure => cases failure <;> cases info <;> simp

theorem decodeInfo_eq_error_iff [Host] {payload : ByteArray} {failure : Failure} :
    decodeInfo payload = .error failure ↔
      ∃ fault, Plist.decode payload = .error (.fault fault) ∧ failure = .faultyInformation fault := by
  unfold decodeInfo
  generalize Plist.decode payload = outcome
  cases outcome with
  | ok value => cases value <;> simp
  | error decodeFailure => cases decodeFailure <;> simp [@eq_comm _ _ failure]

theorem readInfo_of_read [Host] {e : Entry} {payload : ByteArray} (h : e.read = .ok payload) :
    readInfo e = decodeInfo payload := by
  rw [readInfo, h]

theorem mem_of_entryOfInfo? {e : Entry} (h : entryOfInfo? entries root = some e) :
    e ∈ entries ∧ e.path ∈ infoPaths root := by
  obtain ⟨path, hpath, hentry⟩ := List.exists_of_findSome?_eq_some h
  obtain ⟨hmem, rfl⟩ := mem_of_entryAt? hentry
  exact ⟨hmem, hpath⟩

/-- The information of a bundle is found if its entries can be read, and the one that holds it raises no
    fault. -/
theorem exists_findInfo [Host] (hread : ∀ e ∈ entries, ∃ payload, e.read = .ok payload)
    (hdecode : ∀ e, entryOfInfo? entries root = some e → ∀ payload, e.read = .ok payload →
      ∀ fault, Plist.decode payload ≠ .error (.fault fault)) :
    ∃ info, findInfo entries root = .ok info := by
  unfold findInfo
  split
  · exact ⟨none, rfl⟩
  · rename_i e hfound
    obtain ⟨payload, hpayload⟩ := hread e (mem_of_entryOfInfo? hfound).1
    rw [readInfo_of_read hpayload]
    cases hinfo : decodeInfo payload with
    | ok info => exact ⟨info, rfl⟩
    | error failure =>
      obtain ⟨fault, hfault, -⟩ := decodeInfo_eq_error_iff.mp hinfo
      exact absurd hfault (hdecode e hfound payload hpayload fault)

/-! ## Where the main executable may be -/

/-- Where the main executable may be, its name stands behind a slash. -/
private theorem exists_of_mem_executablePaths {name path : String}
    (h : path ∈ executablePaths root name) :
    ∃ front, path = front ++ "/" ++ name ∧
      (front = root ++ "/" ++ "Contents/MacOS" ∨ front = packagingDirectory ++ "/" ++ root) := by
  simp only [executablePaths, List.mem_cons, List.not_mem_nil, or_false] at h
  obtain rfl | rfl := h
  · have hinner : "/Contents/MacOS/" = "/" ++ "Contents/MacOS" ++ "/" := rfl
    exact ⟨_, by rw [hinner]; simp only [String.append_assoc], .inl rfl⟩
  · exact ⟨_, rfl, .inr rfl⟩

/-- A path where the main executable may be ends with a slash if the name does or is empty. -/
theorem endsWith_slash_of_mem_executablePaths {name path : String}
    (h : path ∈ executablePaths root name) :
    Text.endsWith path "/" = true ↔ name = "" ∨ Text.endsWith name "/" = true := by
  obtain ⟨front, rfl, -⟩ := exists_of_mem_executablePaths h
  exact Text.endsWith_slash_append front name

/-- Among paths with one root, those where the main executable of its bundle may be have that root. -/
theorem rootOf?_of_mem_executablePaths {paths : List String} {name path : String}
    (honly : IsOnlyRoot paths root) (hmem : path ∈ paths) (h : path ∈ executablePaths root name) :
    rootOf? path = some root := by
  obtain ⟨above, -, habove⟩ := (honly root).mpr rfl
  have hroot := segments_of_rootOf? habove
  obtain ⟨front, rfl, hfront⟩ := exists_of_mem_executablePaths h
  have hfound : ∃ found, rootOf? (front ++ "/" ++ name) = some found := by
    obtain rfl | rfl := hfront
    · have hinner : Text.segments "Contents/MacOS" = ["Contents", "MacOS"] := by decide
      simp only [rootOf?, Text.segments_append, hroot, hinner, List.cons_append, List.nil_append]
      split <;> exact ⟨_, rfl⟩
    · have houter : Text.segments packagingDirectory = [packagingDirectory] := by decide
      simp only [rootOf?, Text.segments_append, hroot, houter, List.cons_append, List.nil_append]
      exact ⟨root, rfl⟩
  -- no path has another root
  obtain ⟨found, hfound⟩ := hfound
  rw [hfound, (honly found).mp ⟨_, hmem, hfound⟩]

/-- Why the information of a bundle is not found: an entry that may hold it cannot be read, or raises a
    fault. -/
theorem findInfo_eq_error [Host] {failure : Failure} (h : findInfo entries root = .error failure) :
    ∃ e ∈ entries, e.path ∈ infoPaths root ∧
      ((∃ fault, e.read = .error fault ∧ failure = .archive fault) ∨
        ∃ payload fault, e.read = .ok payload ∧ Plist.decode payload = .error (.fault fault) ∧
          failure = .faultyInformation fault) := by
  unfold findInfo at h
  split at h
  · cases h
  · rename_i e hfound
    obtain ⟨hmem, hpath⟩ := mem_of_entryOfInfo? hfound
    refine ⟨e, hmem, hpath, ?_⟩
    unfold readInfo at h
    split at h
    · rename_i payload hpayload
      obtain ⟨fault, hfault, rfl⟩ := decodeInfo_eq_error_iff.mp h
      exact .inr ⟨payload, fault, hpayload, hfault, rfl⟩
    · rename_i fault hfault
      split at h
      · cases h
      · cases h
        exact .inl ⟨fault, hfault, rfl⟩

namespace Layout

theorem find_eq_ok_iff [Host] {layout : Layout} :
    find entries root suffix = .ok layout ↔
      ∃ info, findInfo entries root = .ok info ∧
        layout = {
          executable := ((executableNames info root suffix).flatMap (executablePaths root)).find?
            fun path => (entryAt? entries path).isSome,
          info } := by
  simp only [find, bind_eq_ok, pure_eq_ok, eq_comm (b := layout)]

/-- The layout of a bundle is found if its information is. -/
theorem exists_find_of_info [Host] (h : ∃ info, findInfo entries root = .ok info) :
    ∃ layout, find entries root suffix = .ok layout := by
  obtain ⟨info, hinfo⟩ := h
  exact ⟨_, find_eq_ok_iff.mpr ⟨info, hinfo, rfl⟩⟩

theorem exists_find [Host] (hread : ∀ e ∈ entries, ∃ payload, e.read = .ok payload)
    (hdecode : ∀ e, entryOfInfo? entries root = some e → ∀ payload, e.read = .ok payload →
      ∀ fault, Plist.decode payload ≠ .error (.fault fault)) :
    ∃ layout, find entries root suffix = .ok layout :=
  exists_find_of_info (exists_findInfo hread hdecode)

/-- If no path occurs twice, the layout is the same in any order of the entries. -/
theorem find_perm [Host] {entries' : List Entry} (hdistinct : (entries.map Entry.path).Nodup)
    (h : entries.Perm entries') : find entries root suffix = find entries' root suffix := by
  simp only [find, findInfo, entryOfInfo?, entryAt?_perm hdistinct h]

/-- The main executable of a bundle is an entry of it. -/
theorem exists_entry_of_executable [Host] {layout : Layout} (h : find entries root suffix = .ok layout)
    {path : String} (hexecutable : layout.executable = some path) :
    ∃ e ∈ entries, e.path = path := by
  obtain ⟨info, -, rfl⟩ := find_eq_ok_iff.mp h
  have hentry := List.find?_some hexecutable
  obtain ⟨e, he⟩ := Option.isSome_iff_exists.mp hentry
  exact ⟨e, mem_of_entryAt? he⟩

/-- The main executable has one of the names that it may have, where it may be. -/
theorem exists_name_of_executable [Host] {layout : Layout} (h : find entries root suffix = .ok layout)
    {path : String} (hexecutable : layout.executable = some path) :
    ∃ name ∈ executableNames layout.info root suffix, path ∈ executablePaths root name := by
  obtain ⟨info, -, rfl⟩ := find_eq_ok_iff.mp h
  exact List.mem_flatMap.mp (List.mem_of_find?_eq_some hexecutable)

end Layout

end ReleaseSeal.Bundle
