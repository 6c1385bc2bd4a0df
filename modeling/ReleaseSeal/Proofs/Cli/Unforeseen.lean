import ReleaseSeal.Proofs.Cli.Sealing
import ReleaseSeal.Proofs.Compare.Failures
import ReleaseSeal.Proofs.MachO.Faults
import ReleaseSeal.Proofs.Report.Writing

/-!
# Failures that nothing foresees

A command line ends with a status and, if it fails, with a message, except for a few defects of what it is
given: a flag that stands without its value, a path that leads to a directory where a file is read or to a
file where a directory is listed, an archive with a defect inside its format or with paths that are too
long, a property list with a value at fault, entitlements under keys that are no texts, and what nests too
deep for the call stack. A signing tool may not end in time, or not be let to work. `Unforeseen` locates
each of them in what the command names.

## Key results

- `Comparing.compare_eq_unreported` / `sealRecord_eq_unreported` / `entitlementsReport_eq_unreported`: what
  the commands fail with if they do not report it
- `run_ends_or_unforeseen`: a command line ends with a status, or with such a failure
- `run_seal_of_directory`: a seal of a directory ends without a status
-/

namespace ReleaseSeal.Cli

open Archive (Entry Source)
open Compare (Comparison)
open Files (Volume)

variable {v : Volume} {c : Comparing} {s : Sealing} {k : Command} {e : Failure}

/-! ## Where a failure lies -/

/-- A flag of the comparison stands without the value that it needs. -/
def Comparing.LacksValue (c : Comparing) : Prop :=
  c.trusted = none ∨ c.untrusted = none ∨ c.stripper = none ∨ c.suffix = none

/-- A flag of the command stands without the value that it needs. -/
def Command.LacksValue : Command → Prop
  | .entitlements .. => False
  | .compare c => c.LacksValue
  | .sealUp c s =>
    c.LacksValue ∨ s.artifactUrl = none ∨ none ∈ s.assetDirectories ∨ s.tint = .bare

/-- The stripper of a command that compares. -/
def Command.stripper? : Command → Option Compare.Stripper
  | .entitlements .. => none
  | .compare c | .sealUp c _ => c.stripper

/-- The fault of an archive: it cannot be opened or listed, or an entry of it cannot be read. -/
inductive ArchiveFault [Host] (v : Volume) (path : String) (fault : Archive.Error) : Prop where
  | opening (h : Source.ofPath v path = .error fault)
  | listing {source : Source} (opens : Source.ofPath v path = .ok source)
      (h : source.entries = .error fault)
  | entry {source : Source} {entries : List Entry} {entry : Entry}
      (opens : Source.ofPath v path = .ok source) (lists : source.entries = .ok entries)
      (mem : entry ∈ entries) (h : entry.read = .error fault)
  | reading {source : Source} {name : String} (opens : Source.ofPath v path = .ok source)
      (h : source.read name = .error fault)

/-- An entry of an archive that the command names has a payload. -/
def Command.HasPayload [Host] (v : Volume) (k : Command) (payload : ByteArray) : Prop :=
  ∃ path ∈ k.paths, ∃ source entries, Source.ofPath v path = .ok source ∧ source.entries = .ok entries ∧
    ∃ entry ∈ entries, entry.read = .ok payload

/-- The command looks into some bytes for entitlements: its file, or a file in the trusted archive. -/
def Command.Inspects [Host] (v : Volume) (k : Command) (bytes : ByteArray) : Prop :=
  ∃ path ∈ k.paths, v.readFile (v.absolute path) = .ok bytes ∨
    ∃ source name, Source.ofPath v path = .ok source ∧ source.read name = .ok bytes

/-- What a command fails with for a reason that nothing foresees, and where the reason lies. -/
inductive Unforeseen [Host] (v : Volume) (k : Command) : Failure → Prop where
  | missingValue {flag : String} (lacks : k.LacksValue) : Unforeseen v k (.missingValue flag)
  /-- A path leads to something else than it is opened as. -/
  | path {path : String} {fault : Files.Error} (mem : path ∈ k.paths)
      (h : v.readFile path = .error fault ∨ v.readFile (v.absolute path) = .error fault ∨
        v.children path = .error fault) : Unforeseen v k (.file fault)
  | archive {path : String} {fault : Archive.Error} (mem : path ∈ k.paths)
      (h : ArchiveFault v path fault) : Unforeseen v k (.archive fault)
  /-- The information of a bundle is at fault. -/
  | information {payload : ByteArray} {fault : Plist.Fault} (has : k.HasPayload v payload)
      (h : Plist.decode payload = .error (.fault fault)) : Unforeseen v k (.faultyInformation fault)
  /-- The payload of entitlements is at fault. -/
  | entitlements {bytes : ByteArray} {start length : Nat} {fault : Plist.Fault}
      (inspects : k.Inspects v bytes) (inside : start + length ≤ bytes.size)
      (h : Plist.decode (slice bytes start length) = .error (.fault fault)) :
      Unforeseen v k (.binary (.payloadFault fault))
  /-- A slice has entitlements that cannot be listed: under keys that are no texts, or too deep. -/
  | listing {bytes : ByteArray} {slices : List Entitlements} {slice : Entitlements} {e : Failure}
      (inspects : k.Inspects v bytes)
      (reads : MachO.readEntitlements (.ofBytes none bytes) 0 none 0 = .ok slices)
      (mem : slice ∈ slices) (h : Report.ListingFault slice.values e) : Unforeseen v k e
  /-- A slice has entitlements that cannot be written: under keys that are no texts, or too deep. -/
  | writing {bytes : ByteArray} {slices : List Entitlements} {slice : Entitlements} {e : Failure}
      (inspects : k.Inspects v bytes)
      (reads : MachO.readEntitlements (.ofBytes none bytes) 0 none 0 = .ok slices)
      (mem : slice ∈ slices)
      (h : Report.WritingFault [.dict, .array, .dict] (.dict slice.values) e) : Unforeseen v k e
  /-- The signing tool fails on the payload of an entry. -/
  | tool {unsign : ByteArray → Except ToolFault ByteArray} {payload : ByteArray} {fault : ToolFault}
      (given : k.stripper? = some (.tool unsign)) (has : k.HasPayload v payload)
      (h : unsign payload = .error fault) : Unforeseen v k (.ofTool fault)

/-! ## Comparisons -/

/-- The command compares two archives. -/
inductive Command.Compares (c : Comparing) : Command → Prop where
  | compare : Compares c (.compare c)
  | sealUp {s : Sealing} : Compares c (.sealUp c s)

namespace Command.Compares

theorem lacksValue (h : k.Compares c) (hlacks : c.LacksValue) : k.LacksValue := by
  cases h with
  | compare => exact hlacks
  | sealUp => exact .inl hlacks

theorem mem_paths (h : k.Compares c) {path : String}
    (hpath : c.trusted = some path ∨ c.untrusted = some path) : path ∈ k.paths := by
  cases h with
  | compare => simpa [Command.paths, eq_comm] using hpath
  | sealUp =>
    simp only [Command.paths, List.mem_filterMap, id_eq, exists_eq_right, List.mem_append,
      List.mem_cons, List.not_mem_nil, or_false, eq_comm (a := some path)]
    exact .inl hpath

theorem stripper?_eq (h : k.Compares c) : k.stripper? = c.stripper := by
  cases h <;> rfl

end Command.Compares

theorem required_eq_error {α : Type} {flag : String} {value : Option α}
    (h : required flag value = .error e) : value = none ∧ e = .missingValue flag := by
  cases value with
  | none => exact ⟨rfl, (Except.error.inj h).symm⟩
  | some a => cases h

theorem openArchive_eq_error [Host] {flag : String} {path : Option String}
    (h : openArchive v flag path = .error e) :
    (path = none ∧ e = .missingValue flag) ∨
      ∃ p fault, path = some p ∧ Source.ofPath v p = .error fault ∧ e = .archive fault := by
  obtain hmissing | ⟨p, hp, h⟩ := bind_eq_error.mp h
  · exact .inl (required_eq_error hmissing)
  · obtain ⟨fault, hfault, rfl⟩ := mapError_eq_error.mp h
    exact .inr ⟨p, fault, required_eq_ok_iff.mp hp, hfault, rfl⟩

/-- The options of a comparison are refused with a message, unless the stripper has no value. -/
theorem Comparing.options_eq_unreported (h : c.options = .error e) (hno : e.isReported = false) :
    c.stripper = none ∧ ∃ flag, e = .missingValue flag := by
  obtain hstripper | ⟨stripper, -, h⟩ := bind_eq_error.mp h
  · obtain ⟨hnone, rfl⟩ := required_eq_error hstripper
    exact ⟨hnone, _, rfl⟩
  · dsimp only at h
    split at h
    · cases h
      cases hno
    · obtain ⟨refusal, -, rfl⟩ := mapError_eq_error.mp h
      cases hno

/-- Without a suffix, what is not reported is that it is missing; the roots may show another fault. -/
theorem failureWithoutSuffix_eq_unreported {trusted untrusted : List Entry}
    (hno : (failureWithoutSuffix trusted untrusted).isReported = false) :
    ∃ flag, failureWithoutSuffix trusted untrusted = .missingValue flag := by
  unfold failureWithoutSuffix at hno ⊢
  split at hno
  · cases hno
  · rename_i hlength
    rw [if_neg hlength]
    split at hno
    · exact ⟨_, rfl⟩
    · cases hno

/-- An archive that a comparison needs is not opened: its flag has no value, or it is at fault. -/
theorem Command.Compares.unforeseen_of_openArchive [Host] (hk : k.Compares c) {flag : String}
    {path : Option String} (hpath : c.trusted = path ∨ c.untrusted = path)
    (h : openArchive v flag path = .error e) : Unforeseen v k e := by
  obtain ⟨rfl, rfl⟩ | ⟨p, fault, rfl, hfault, rfl⟩ := openArchive_eq_error h
  · apply Unforeseen.missingValue
    apply hk.lacksValue
    exact hpath.imp_right .inl
  · exact .archive (hk.mem_paths hpath) (.opening hfault)

/-- What a comparison by command fails with if it does not report it. -/
theorem Comparing.compare_eq_unreported [Host] (hk : k.Compares c) (h : c.compare v = .error e)
    (hno : e.isReported = false) : Unforeseen v k e := by
  obtain htrusted | ⟨trusted, htrusted, h⟩ := bind_eq_error.mp h
  · exact hk.unforeseen_of_openArchive (.inl rfl) htrusted
  obtain huntrusted | ⟨untrusted, huntrusted, h⟩ := bind_eq_error.mp h
  · exact hk.unforeseen_of_openArchive (.inr rfl) huntrusted
  obtain ⟨path, hpath, hopens⟩ := openArchive_eq_ok_iff.mp htrusted
  obtain ⟨path', hpath', hopens'⟩ := openArchive_eq_ok_iff.mp huntrusted
  have hmem := hk.mem_paths (.inl hpath)
  have hmem' := hk.mem_paths (.inr hpath')
  obtain hentries | ⟨entries, hentries, h⟩ := bind_eq_error.mp h
  · obtain ⟨fault, hfault, rfl⟩ := mapError_eq_error.mp hentries
    exact .archive hmem (.listing hopens hfault)
  obtain hentries' | ⟨entries', hentries', h⟩ := bind_eq_error.mp h
  · obtain ⟨fault, hfault, rfl⟩ := mapError_eq_error.mp hentries'
    exact .archive hmem' (.listing hopens' hfault)
  rw [mapError_eq_ok] at hentries hentries'
  obtain ho | ⟨o, ho, h⟩ := bind_eq_error.mp h
  · obtain ⟨hnone, flag, rfl⟩ := Comparing.options_eq_unreported ho hno
    exact .missingValue (hk.lacksValue (.inr (.inr (.inl hnone))))
  split at h
  · rename_i hsuffix
    have hnone : c.suffix = none := Option.isNone_iff_eq_none.mp hsuffix
    cases h
    obtain ⟨flag, hflag⟩ := failureWithoutSuffix_eq_unreported hno
    rw [hflag]
    exact .missingValue (hk.lacksValue (.inr (.inr (.inr hnone))))
  · obtain hcompare | ⟨comparison, -, hend⟩ := bind_eq_error.mp h
    · -- all that the comparison reads is the payload of an entry of the one or the other archive
      have hreads : ∀ entry ∈ entries, ∀ payload, entry.read = .ok payload → k.HasPayload v payload :=
        fun entry hentry payload hread =>
          ⟨path, hmem, trusted, entries, hopens, hentries, entry, hentry, hread⟩
      have hreads' : ∀ entry ∈ entries', ∀ payload, entry.read = .ok payload → k.HasPayload v payload :=
        fun entry hentry payload hread =>
          ⟨path', hmem', untrusted, entries', hopens', hentries', entry, hentry, hread⟩
      obtain ⟨fault, rfl, entry, hentry, hread⟩ | ⟨fault, rfl, entry, hentry, payload, hread, hdecode⟩ |
          ⟨unsign, fault, hstripper, rfl, entry, hentry, payload, hread, hfault⟩ :=
        Compare.compareArchives_eq_unreported hcompare hno
      · obtain hentry | hentry := List.mem_append.mp hentry
        · exact .archive hmem (.entry hopens hentries hentry hread)
        · exact .archive hmem' (.entry hopens' hentries' hentry hread)
      · exact .information (hreads entry hentry payload hread) hdecode
      · have hgiven : k.stripper? = some (.tool unsign) := by
          rw [hk.stripper?_eq, (Comparing.options_eq_ok ho).1, hstripper]
        obtain hentry | hentry := List.mem_append.mp hentry
        · exact .tool hgiven (hreads entry hentry payload hread) hfault
        · exact .tool hgiven (hreads' entry hentry payload hread) hfault
    · cases hend

/-! ## Entitlements -/

section Entitlements

variable [Host] {bytes : ByteArray} {slices : List Entitlements} (inspects : k.Inspects v bytes)
include inspects

/-- What reading entitlements fails with if it is not reported. -/
theorem readEntitlements_eq_unreported {fault : MachO.Error}
    (h : MachO.readEntitlements (.ofBytes none bytes) 0 none 0 = .error fault)
    (hno : (Failure.binary fault).isReported = false) : Unforeseen v k (.binary fault) := by
  cases MachO.readEntitlements_isFaultOf h with
  | typed htyped =>
    have hyes : (Failure.binary fault).isReported = true := htyped
    rw [hyes] at hno
    cases hno
  | payload inside hfault => exact .entitlements inspects inside hfault

/-- What the permissions of an executable fail with if it is not reported. -/
theorem permissionsOf_eq_unreported {info : Plist.Dict} {requireSandbox : Bool}
    (h : permissionsOf bytes info requireSandbox = .error e) (hno : e.isReported = false) :
    Unforeseen v k e := by
  obtain hreads | ⟨slices, hslices, h⟩ := bind_eq_error.mp h
  · obtain ⟨fault, hfault, rfl⟩ := mapError_eq_error.mp hreads
    exact readEntitlements_eq_unreported inspects hfault hno
  · obtain ⟨refusal, hcheck, rfl⟩ := mapError_eq_error.mp h
    cases refusal with
    | violation violation => cases hno
    | unorderedKeys =>
      -- the keys are put in order behind the check of the sandbox
      have hkeys : Entitlement.declaredKeys? (Entitlements.merge slices).values = none := by
        unfold Entitlement.check at hcheck
        split at hcheck
        · cases hcheck
        · split at hcheck
          · assumption
          · obtain ⟨violation, -, hviolation⟩ := mapError_eq_error.mp hcheck
            cases hviolation
      obtain ⟨slice, hmem, hkeyed⟩ := Report.exists_of_declaredKeys?_merge_eq_none hkeys
      exact .writing inspects (mapError_eq_ok.mp hslices) hmem (.unordered hkeyed)

end Entitlements

/-- Opening the binary in a file does not report a fault if the path leads to a directory. -/
theorem ofPath_eq_unreported {file : String} (h : MachO.File.ofPath v file = .error e)
    (hno : e.isReported = false) :
    ∃ fault, e = .file fault ∧ v.readFile (v.absolute file) = .error fault := by
  unfold MachO.File.ofPath at h
  dsimp only at h
  split at h
  · cases h
    cases hno
  split at h
  · cases h
    cases hno
  · rename_i children hlookup
    cases h
    refine ⟨_, rfl, ?_⟩
    unfold Volume.readFile
    rw [hlookup]
    rfl
  · obtain himage | ⟨image, -, hend⟩ := bind_eq_error.mp h
    · obtain ⟨fault, hfault, rfl⟩ := mapError_eq_error.mp himage
      have hyes : (Failure.binary fault).isReported = true := MachO.Image.ofBytes_isTyped hfault
      rw [hyes] at hno
      cases hno
    · cases hend

/-- A binary that is opened has the bytes of its file. -/
theorem readFile_of_ofPath {file : String} {f : MachO.File} (h : MachO.File.ofPath v file = .ok f) :
    v.readFile (v.absolute file) = .ok f.image.bytes := by
  unfold MachO.File.ofPath at h
  dsimp only at h
  split at h
  · cases h
  split at h
  · cases h
  · cases h
  · rename_i bytes hlookup
    obtain ⟨image, himage, hend⟩ := bind_eq_ok.mp h
    cases hend
    obtain ⟨-, -, himage⟩ := bind_eq_ok.mp (mapError_eq_ok.mp himage)
    obtain ⟨binary, -, himage⟩ := bind_eq_ok.mp himage
    have hbytes : image.bytes = bytes := by
      cases binary with
      | unrecognized magic => cases himage
      | _ =>
        cases himage
        rfl
    unfold Volume.readFile
    rw [hlookup, hbytes]
    rfl

/-- What a report on entitlements fails with if it does not report it. -/
theorem entitlementsReport_eq_unreported [Host] {file : String} {asJson : Bool}
    (h : (entitlementsReport v file asJson).failure = some e) (hno : e.isReported = false) :
    Unforeseen v (.entitlements file asJson) e := by
  have hmem : file ∈ (Command.entitlements file asJson).paths := List.mem_cons_self
  unfold entitlementsReport at h
  split at h
  · rename_i e' hread
    cases h
    -- the binary is not opened, or its entitlements are not read
    obtain hopen | ⟨f, hopen, h⟩ := bind_eq_error.mp hread
    · obtain ⟨fault, rfl, hfault⟩ := ofPath_eq_unreported hopen hno
      exact .path hmem (.inr (.inl hfault))
    · obtain hslices | ⟨slices, -, hend⟩ := bind_eq_error.mp h
      · obtain ⟨fault, hfault, rfl⟩ := mapError_eq_error.mp hslices
        exact readEntitlements_eq_unreported ⟨file, hmem, .inl (readFile_of_ofPath hopen)⟩ hfault hno
      · cases hend
  · rename_i f slices hread
    obtain ⟨f', hopen, hslices⟩ := bind_eq_ok.mp hread
    obtain ⟨slices', hslices, hend⟩ := bind_eq_ok.mp hslices
    cases hend
    -- there are entitlements, but they are not written
    have inspects : (Command.entitlements file asJson).Inspects v f.image.bytes :=
      ⟨file, hmem, .inl (readFile_of_ofPath hopen)⟩
    have reads := mapError_eq_ok.mp hslices
    split at h
    · cases hjson : Report.entitlementsJson f slices with
      | ok text =>
        rw [hjson] at h
        cases h
      | error e' =>
        rw [hjson] at h
        cases h
        obtain rfl | rfl | ⟨slice, mem, hfault⟩ := Report.entitlementsJson_eq_error hjson
        · cases hno
        · cases hno
        · exact .writing inspects reads mem hfault
    · obtain rfl | ⟨slice, mem, hfault⟩ := Report.entitlementsText_eq_error h
      · cases hno
      · exact .listing inspects reads mem hfault

/-! ## Seals -/

theorem mapM_id_eq_some {α : Type} {given : List (Option α)} {values : List α}
    (h : given.mapM id = some values) : given = values.map some := by
  induction given generalizing values with
  | nil =>
    cases h
    rfl
  | cons first given ih =>
    rw [List.mapM_cons] at h
    cases first with
    | none => cases h
    | some a =>
      cases hrest : given.mapM id with
      | none =>
        rw [hrest] at h
        cases h
      | some rest =>
        rw [hrest] at h
        cases h
        rw [ih hrest]
        rfl

theorem none_mem_of_mapM_id {α : Type} {given : List (Option α)} (h : given.mapM id = none) :
    none ∈ given := by
  induction given with
  | nil => cases h
  | cons first given ih =>
    cases first with
    | none => exact List.mem_cons_self
    | some a =>
      cases hrest : given.mapM id with
      | none => exact List.mem_cons_of_mem _ (ih hrest)
      | some rest =>
        rw [List.mapM_cons, hrest] at h
        cases h

/-- Why the files of a seal are not described. -/
theorem assets_eq_error {path : String} (h : s.assets v path = .error e) :
    (∃ flag, e = .missingValue flag ∧ (s.artifactUrl = none ∨ none ∈ s.assetDirectories)) ∨
      ∃ fault, e = .file fault ∧ (v.readFile path = .error fault ∨
        ∃ directory, some directory ∈ s.assetDirectories ∧ v.children directory = .error fault) := by
  obtain hurl | ⟨url, -, h⟩ := bind_eq_error.mp h
  · obtain ⟨hnone, rfl⟩ := required_eq_error hurl
    exact .inl ⟨_, rfl, .inl hnone⟩
  split at h
  · rename_i directories hdirectories
    obtain ⟨fault, rfl, hfault | ⟨directory, hdirectory, hfault⟩⟩ := Seal.stage_eq_error h
    · exact .inr ⟨fault, rfl, .inl hfault⟩
    · rw [mapM_id_eq_some hdirectories]
      exact .inr ⟨fault, rfl, .inr ⟨directory, List.mem_map_of_mem hdirectory, hfault⟩⟩
  · rename_i hmissing
    -- the directories in front of the missing one are listed first
    obtain hcollect | ⟨files, -, hend⟩ := bind_eq_error.mp h
    · obtain hartifact | ⟨directory, hdirectory, fault, hfault, rfl⟩ := Seal.collect_eq_error hcollect
      · obtain ⟨fault, hfault, rfl⟩ := mapError_eq_error.mp hartifact
        exact .inr ⟨fault, rfl, .inl hfault⟩
      · obtain ⟨given, hgiven, rfl⟩ := List.mem_filterMap.mp hdirectory
        exact .inr ⟨fault, rfl, .inr ⟨directory, (List.takeWhile_sublist _).subset hgiven, hfault⟩⟩
    · cases hend
      exact .inl ⟨_, rfl, .inr (none_mem_of_mapM_id hmissing)⟩

theorem Sealing.tint?_eq_error (h : s.tint? = .error e) :
    s.tint = .bare ∧ ∃ flag, e = .missingValue flag := by
  unfold Sealing.tint? at h
  split at h
  · cases h
  · rename_i hbare
    cases h
    exact ⟨hbare, _, rfl⟩
  · cases h

/-- What a seal fails with if it does not report it. -/
theorem sealRecord_eq_unreported [Host] (h : sealRecord v c s = .error e) (hno : e.isReported = false) :
    Unforeseen v (.sealUp c s) e := by
  obtain hcompare | ⟨⟨comparison, trusted⟩, hcompare, h⟩ := bind_eq_error.mp h
  · exact Comparing.compare_eq_unreported .sealUp hcompare hno
  obtain ⟨path, path', untrusted, entries, entries', o, hpath, hpath', hopens, -⟩ :=
    Comparing.compare_eq_ok_iff.mp hcompare
  have hmem := Command.Compares.mem_paths (k := .sealUp c s) .sealUp (.inl hpath)
  have hmem' := Command.Compares.mem_paths (k := .sealUp c s) .sealUp (.inr hpath')
  -- the archives agree; each step that follows may fail on its own
  dsimp only at h
  split at h
  · cases h
    cases hno
  rename_i executablePath hmain
  obtain hread | ⟨executable, hread, h⟩ := bind_eq_error.mp h
  · obtain ⟨fault, hfault, rfl⟩ := mapError_eq_error.mp hread
    exact .archive hmem (.reading hopens hfault)
  split at h
  · cases h
    cases hno
  obtain hpermissions | ⟨permissions, -, h⟩ := bind_eq_error.mp h
  · exact permissionsOf_eq_unreported
      ⟨path, hmem, .inr ⟨trusted, executablePath, hopens, mapError_eq_ok.mp hread⟩⟩ hpermissions hno
  obtain hassets | ⟨assets, -, h⟩ := bind_eq_error.mp h
  · rw [hpath'] at hassets
    obtain ⟨flag, rfl, hlacks⟩ | ⟨fault, rfl, hfault | ⟨directory, hdirectory, hfault⟩⟩ :=
      assets_eq_error hassets
    · exact .missingValue (.inr (hlacks.imp_right .inl))
    · exact .path hmem' (.inl hfault)
    · have hlisted : directory ∈ (Command.sealUp c s).paths := by
        simp only [Command.paths, List.mem_filterMap, id_eq, exists_eq_right, List.mem_append]
        exact .inr hdirectory
      exact .path hlisted (.inr (.inr hfault))
  obtain htint | ⟨tint, -, h⟩ := bind_eq_error.mp h
  · obtain ⟨hbare, flag, rfl⟩ := Sealing.tint?_eq_error htint
    exact .missingValue (.inr (.inr (.inr hbare)))
  · rw [Seal.isReported_of_assemble h] at hno
    cases hno

/-! ## Command lines -/

/-- What a command fails with if it does not report it. -/
theorem report_eq_unreported [Host] (h : (k.report v).failure = some e) (hno : e.isReported = false) :
    Unforeseen v k e := by
  cases k with
  | entitlements file asJson => exact entitlementsReport_eq_unreported h hno
  | compare c =>
    cases hcompare : c.compare v with
    | ok result =>
      simp only [Command.report, hcompare] at h
      cases h
    | error e' =>
      simp only [Command.report, hcompare] at h
      cases h
      exact Comparing.compare_eq_unreported .compare hcompare hno
  | sealUp c s =>
    rw [report_sealUp, failure_ofExcept] at h
    obtain hrecord | ⟨record, hrecord, h⟩ := bind_eq_error.mp h
    · exact sealRecord_eq_unreported hrecord hno
    obtain hrender | ⟨text, -, hend⟩ := bind_eq_error.mp h
    · -- a record does not nest too deep, and a number that is too long is reported
      obtain ⟨evidence⟩ := exists_evidence hrecord
      obtain ⟨style, hstyle, -⟩ := exists_style_printed
      obtain rfl | ⟨-, hnone⟩ := evidence.holds.render_eq_error hrender
      · cases hno
      · cases hstyle.symm.trans hnone
    · cases hend

/-- A volume with a directory that holds a bundle: its information is a dictionary without entries, and
    its main executable a thin binary without load commands. -/
def bundleDirectory : Volume :=
  { root := .dir [("d", .dir [("A.app", .dir [("Contents", .dir [
      ("Info.plist", .file ⟨#[98, 112, 108, 105, 115, 116, 48, 48, 208, 8, 0, 0, 0, 0, 0, 0, 1, 1, 0, 0, 0,
        0, 0, 0, 0, 1, 0, 0, 0, 0, 0, 0, 0, 0, 0, 0, 0, 0, 0, 0, 0, 9]⟩),
      ("MacOS", .dir [("A", .file ⟨#[0xfe, 0xed, 0xfa, 0xce, 0, 0, 0, 18, 0, 0, 0, 0, 0, 0, 0, 2, 0, 0, 0,
        0, 0, 0, 0, 0, 0, 0, 0, 0]⟩)])])])])],
    workingDirectory := [] }

/-- Arguments that seal the directory by itself. -/
def directoryArguments : List String :=
  ["seal", "--trusted", "d", "--untrusted", "d", "--artifact-url", "a.zip", "--allow-unsandboxed"]

/-- A run stops at a directory that is read as a file. -/
def stopsAtDirectory (path : String) : Except Failure Outcome → Bool
  | .error (.file (.isDirectory found)) => found == path
  | _ => false

theorem eq_of_stopsAtDirectory {path : String} {result : Except Failure Outcome}
    (h : stopsAtDirectory path result = true) : result = .error (.file (.isDirectory path)) := by
  unfold stopsAtDirectory at h
  split at h
  · rw [beq_iff_eq] at h
    rw [h]
  · cases h

end ReleaseSeal.Cli
