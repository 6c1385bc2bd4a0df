import ReleaseSeal.Proofs.Outcome
import ReleaseSeal.Seal.Record

/-!
# What a seal record holds

The published files of a record contain the artifact that was compared: a copy of it in one of the
directories only tells where it stands in the list, its size and its digest are those of the artifact
itself. And a tint in a record is in normal form, whatever was given.

## Key results

- `stage_eq_error`: why files are not described
- `exists_artifact_of_stage`: the artifact is one of the published files
- `isNormalTint_of_normalTint?`: the normal form of a tint
- `exists_tint_of_assemble`: the fields of a record
-/

namespace ReleaseSeal.Seal

open Files (Volume)

/-! ## The artifact among the files -/

variable {v : Volume} {name url path : String} {artifact : Except Failure ByteArray}
  {directories : List String} {files : List (String × ByteArray)} {file : String × ByteArray}

theorem mem_of_mem_firstOfEach {seen : List String} (h : file ∈ firstOfEach seen files) :
    file ∈ files := by
  induction files generalizing seen with
  | nil => exact h
  | cons first files ih =>
    rw [firstOfEach] at h
    split at h
    · exact List.mem_cons_of_mem _ (ih h)
    · obtain rfl | hrest := List.mem_cons.mp h
      · exact List.mem_cons_self
      · exact List.mem_cons_of_mem _ (ih hrest)

/-- A collected file with the name of the artifact has the bytes of the artifact. -/
theorem artifact_eq_of_mem_collect (h : collect v name artifact directories = .ok files)
    (hfile : file ∈ files) (hname : file.1 = name) : artifact = .ok file.2 := by
  induction directories generalizing files with
  | nil =>
    obtain rfl : [] = files := Except.ok.inj h
    cases hfile
  | cons directory directories ih =>
    obtain ⟨children, -, h⟩ := bind_eq_ok.mp h
    obtain ⟨here, hhere, h⟩ := bind_eq_ok.mp h
    obtain ⟨rest, hrest, h⟩ := bind_eq_ok.mp h
    rw [← pure_eq_ok.mp h] at hfile
    obtain hmem | hmem := List.mem_append.mp hfile
    · -- whatever the copy in this directory holds, it was replaced
      obtain ⟨copy, -, hcopy⟩ := exists_of_mem_mapM hhere hmem
      split at hcopy
      · obtain ⟨bytes, hbytes, rfl⟩ := map_eq_ok.mp hcopy
        exact hbytes
      · rename_i hother
        obtain rfl := Except.ok.inj hcopy
        exact absurd hname hother
    · exact ih hrest hmem

/-- Files are not collected if one of the directories cannot be listed, or the artifact cannot be read. -/
theorem collect_eq_error {e : Failure} (h : collect v name artifact directories = .error e) :
    artifact = .error e ∨
      ∃ directory ∈ directories, ∃ fault, v.children directory = .error fault ∧ e = .file fault := by
  induction directories with
  | nil => cases h
  | cons directory directories ih =>
    obtain hchildren | ⟨children, -, h⟩ := bind_eq_error.mp h
    · obtain ⟨fault, hfault, rfl⟩ := mapError_eq_error.mp hchildren
      exact .inr ⟨directory, List.mem_cons_self, fault, hfault, rfl⟩
    obtain hfiles | ⟨files, -, h⟩ := bind_eq_error.mp h
    · -- a file in the listing has its bytes, so it is the artifact that fails
      obtain ⟨file, -, hfile⟩ := exists_of_mapM_eq_error hfiles
      split at hfile
      · cases hartifact : artifact with
        | ok bytes =>
          rw [hartifact] at hfile
          cases hfile
        | error e' =>
          rw [hartifact] at hfile
          cases hfile
          exact .inl rfl
      · cases hfile
    obtain hrest | ⟨rest, -, hno⟩ := bind_eq_error.mp h
    · obtain hartifact | ⟨other, hmem, hfault⟩ := ih hrest
      · exact .inl hartifact
      · exact .inr ⟨other, List.mem_cons_of_mem _ hmem, hfault⟩
    · cases hno

/-- Files are not described if one of the directories cannot be listed, or the artifact cannot be read. -/
theorem stage_eq_error {e : Failure} (h : stage v url directories path = .error e) :
    ∃ fault, e = .file fault ∧
      (v.readFile path = .error fault ∨ ∃ directory ∈ directories, v.children directory = .error fault) := by
  obtain hcollect | ⟨collected, -, h⟩ := bind_eq_error.mp h
  · obtain hartifact | ⟨directory, hmem, fault, hfault, rfl⟩ := collect_eq_error hcollect
    · obtain ⟨fault, hfault, rfl⟩ := mapError_eq_error.mp hartifact
      exact ⟨fault, rfl, .inl hfault⟩
    · exact ⟨fault, rfl, .inr ⟨directory, hmem, hfault⟩⟩
  · dsimp only at h
    split at h
    · cases h
    · obtain hartifact | ⟨bytes, -, hno⟩ := bind_eq_error.mp h
      · obtain ⟨fault, hfault, rfl⟩ := mapError_eq_error.mp hartifact
        exact ⟨fault, rfl, .inl hfault⟩
      · cases hno

/-- The artifact is one of the published files. -/
theorem exists_artifact_of_stage {assets : List Asset} (h : stage v url directories path = .ok assets) :
    ∃ bytes, v.readFile path = .ok bytes ∧ ∃ beside, Asset.ofBytes beside bytes ∈ assets := by
  obtain ⟨collected, hcollect, h⟩ := bind_eq_ok.mp h
  dsimp only at h
  split at h
  · -- a copy was collected, and stands for the artifact
    rename_i hany
    rw [← pure_eq_ok.mp h]
    obtain ⟨file, hfile, hname⟩ := List.any_eq_true.mp hany
    have hartifact := artifact_eq_of_mem_collect hcollect (mem_of_mem_firstOfEach hfile)
      (beq_iff_eq.mp hname)
    exact ⟨file.2, mapError_eq_ok.mp hartifact, _, List.mem_map_of_mem hfile⟩
  · obtain ⟨bytes, hbytes, h⟩ := bind_eq_ok.mp h
    rw [← pure_eq_ok.mp h]
    exact ⟨bytes, mapError_eq_ok.mp hbytes, url, List.mem_cons_self⟩

/-! ## Tints -/

/-- A tint in normal form: six or eight hexadecimal digits, in upper case. -/
def IsNormalTint (tint : String) : Prop :=
  (tint.toList.length = 6 ∨ tint.toList.length = 8) ∧
    ∀ c ∈ tint.toList, ('0' ≤ c ∧ c ≤ '9') ∨ ('A' ≤ c ∧ c ≤ 'F')

/-- A hexadecimal digit is in ASCII, where there are few enough characters to look at each. -/
theorem forall_isHexDigit {P : Char → Prop}
    (hascii : ∀ n < 128, isHexDigit (Char.ofNat n) = true → P (Char.ofNat n)) {c : Char}
    (h : isHexDigit c = true) : P c := by
  have hlt : c.toNat < 128 := by
    simp only [isHexDigit, Bool.or_eq_true, Bool.and_eq_true, decide_eq_true_eq, Char.le_def,
      UInt32.le_iff_toNat_le] at h
    have hvalues : '9'.val.toNat = 57 ∧ 'f'.val.toNat = 102 ∧ 'F'.val.toNat = 70 := by decide
    show c.val.toNat < 128
    omega
  have hc := hascii c.toNat hlt
  rw [Char.ofNat_toNat] at hc
  exact hc h

/-- A hexadecimal digit in upper case. -/
theorem upper_of_isHexDigit {c : Char} (h : isHexDigit c = true) :
    ('0' ≤ c.toUpper ∧ c.toUpper ≤ '9') ∨ ('A' ≤ c.toUpper ∧ c.toUpper ≤ 'F') := by
  apply forall_isHexDigit _ h
  decide

theorem isNormalTint_of_color? {cs : List Char} {tint : String} (h : color? cs = some tint) :
    IsNormalTint tint := by
  unfold color? at h
  dsimp only at h
  split at h
  · rename_i hdigits
    obtain ⟨hlength, hall⟩ := hdigits
    cases h
    unfold IsNormalTint
    rw [String.toList_ofList, List.length_map]
    refine ⟨hlength, ?_⟩
    intro c hc
    obtain ⟨digit, hdigit, rfl⟩ := List.mem_map.mp hc
    exact upper_of_isHexDigit (List.all_eq_true.mp hall digit hdigit)
  · cases h

theorem isNormalTint_of_normalTint? {given tint : String} (h : normalTint? given = some (some tint)) :
    IsNormalTint tint := by
  unfold normalTint? at h
  split at h
  · cases h
  · obtain ⟨color, hcolor, hsome⟩ := Option.map_eq_some_iff.mp h
    cases hsome
    exact isNormalTint_of_color? hcolor

/-- The fields of an assembled record: what it is assembled of, and a tint in normal form, if there is
    one. -/
theorem exists_tint_of_assemble {coreSize : Int} {permissions : List Entitlement.Permission}
    {assets : List Asset} {given : Option String} {record : Record}
    (h : Record.assemble coreSize permissions assets given = .ok record) :
    ∃ tint : Option String, record = Record.make coreSize permissions assets tint ∧
      ∀ t, tint = some t → IsNormalTint t := by
  unfold Record.assemble at h
  split at h
  · cases h
    exact ⟨none, rfl, by intro t ht; cases ht⟩
  · split at h
    · cases h
    · rename_i tint htint
      cases h
      refine ⟨tint, rfl, ?_⟩
      intro t ht
      subst ht
      exact isNormalTint_of_normalTint? htint

/-- A tint that has no normal form is reported. -/
theorem isReported_of_assemble {coreSize : Int} {permissions : List Entitlement.Permission}
    {assets : List Asset} {given : Option String} {e : Failure}
    (h : Record.assemble coreSize permissions assets given = .error e) : e.isReported = true := by
  unfold Record.assemble at h
  split at h
  · cases h
  · split at h
    · cases h
      rfl
    · cases h

end ReleaseSeal.Seal
