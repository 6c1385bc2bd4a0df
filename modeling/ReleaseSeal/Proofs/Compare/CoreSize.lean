import ReleaseSeal.Proofs.Compare.MainExecutable

/-!
# The size that is reported for the main executable

The main executable that a comparison reports is below the root of the bundle, and an entry of both
archives. If it is a file in one of them, there is one verdict on it, and the size is the one that the
trusted archive records. But it is looked for among all entries: a name that is empty or ends with a
slash leads to a directory, on which there is no verdict, and the size that is reported is zero, as it
is where there is no main executable at all.

## Key results

- `Reports.count_path`: how many verdicts there are on a path
- `coreSize_of_compareArchives`: what is reported for the main executable
- `coreSize_of_empty_name`: a directory that is reported as the main executable
-/

namespace ReleaseSeal.Compare

open Archive (Entry)

/-- The directories are the entries whose paths end with a slash, as archives list them. -/
def MarksDirs (entries : List Entry) : Prop :=
  ∀ e ∈ entries, e.isDir = Text.endsWith e.path "/"

instance (entries : List Entry) : Decidable (MarksDirs entries) :=
  inferInstanceAs (Decidable (∀ _ ∈ entries, _))

/-- The entries of a zip file tell by their paths which are directories. -/
theorem marksDirs_of_zip [Host] {z : Archive.Zip} {entries : List Entry} (h : z.entries = .ok entries) :
    MarksDirs entries := by
  have hrecords : List.Forall₂ (fun e r => e.isDir = Text.endsWith e.path "/" ∧
      z.entryOf r = .ok e) entries z.records := by
    refine ((mapM_eq_ok.mp h).imp fun r e hr => ⟨?_, hr⟩).flip
    unfold Archive.Zip.entryOf at hr
    split at hr
    · exact nomatch hr
    · obtain rfl := Except.ok.inj hr
      simp only [Archive.Record.isDir]
  exact ((List.forall₂_and_left _ _).mp hrecords).1

section

variable {trusted untrusted : List Entry} {o : Options} {c : Comparison}

namespace Reports

variable {pairs : List (Entry × Entry)}

/-- Only one pair has the path of a trusted entry. -/
theorem eq_of_mem_judged [Host] (h : Reports o trusted untrusted pairs c) {t u : Entry} (ht : t ∈ trusted)
    (hu : u ∈ untrusted) (hpath : t.path = u.path) {pair : Entry × Entry}
    (hpair : pair ∈ judged pairs) (hsame : pair.1.path = t.path) : pair = (t, u) := by
  have hmem := (h.pairing.mem_iff h.untrusted_distinct).mpr ⟨ht, hu, hpath⟩
  exact List.inj_on_of_nodup_map h.pairs_distinct (List.mem_of_mem_filter hpair) hmem hsame

/-- There is one verdict on the path of two entries unless both are directories. -/
theorem count_path [Host] (h : Reports o trusted untrusted pairs c) {t u : Entry} (ht : t ∈ trusted)
    (hu : u ∈ untrusted) (hpath : t.path = u.path) :
    (c.verdicts.map Verdict.path).count t.path = if AreDirs (t, u) then 0 else 1 := by
  have hmem : t.path ∈ (judged pairs).map (fun pair => pair.1.path) ↔ ¬AreDirs (t, u) := by
    rw [← h.mem_judged_iff ht hu hpath, List.mem_map]
    constructor
    · rintro ⟨pair, hpair, hsame⟩
      exact h.eq_of_mem_judged ht hu hpath hpair hsame ▸ hpair
    · exact fun hpair => ⟨_, hpair, rfl⟩
  rw [h.map_path, h.judged_distinct.count]
  simp only [hmem, ite_not]

/-- The size is the one that the trusted entry of the main executable records, unless it is a directory
    in both archives. -/
theorem coreSize_eq [Host] (h : Reports o trusted untrusted pairs c) {t u : Entry} (ht : t ∈ trusted)
    (hu : u ∈ untrusted) (hpath : t.path = u.path) (hmain : c.mainExecutable = some t.path) :
    c.coreSize = if AreDirs (t, u) then 0 else t.size := by
  have hjudged := h.mem_judged_iff ht hu hpath
  obtain ⟨hnone, hsize⟩ | ⟨pair, hpair, hpath', hsize⟩ := h.coreSize
  · by_cases hdirs : AreDirs (t, u)
    · rw [if_pos hdirs, hsize]
    · exact absurd hmain (hnone _ (hjudged.mpr hdirs))
  · -- the pair that set the size is this one, so that it was judged
    have hsame : pair.1.path = t.path := Option.some.inj (hpath'.symm.trans hmain)
    obtain rfl := h.eq_of_mem_judged ht hu hpath hpair hsame
    rw [if_neg (hjudged.mp hpair), hsize]

end Reports

/-- What is reported for the main executable. Without one, the size is zero. Otherwise the main
    executable is below the root and an entry of both archives. If both entries are directories, there
    is no verdict on it, and the size is zero; otherwise there is one verdict on it, and the size is the
    one that the trusted entry records. If archives mark their directories, these are directories
    exactly if the name that led to the main executable is empty or ends with a slash. -/
theorem coreSize_of_compareArchives [Host] (h : compareArchives trusted untrusted o = .ok c) :
    (c.mainExecutable = none → c.coreSize = 0) ∧
    ∀ path, c.mainExecutable = some path →
      Bundle.rootOf? path = some c.root ∧
      (∃ t ∈ trusted, ∃ u ∈ untrusted, t.path = path ∧ u.path = path) ∧
      (∀ t ∈ trusted, ∀ u ∈ untrusted, t.path = path → u.path = path →
        (AreDirs (t, u) → c.coreSize = 0 ∧ (c.verdicts.map Verdict.path).count path = 0) ∧
        (¬AreDirs (t, u) → c.coreSize = t.size ∧ (c.verdicts.map Verdict.path).count path = 1)) ∧
      ∃ name ∈ Bundle.executableNames c.info c.root o.suffix,
        path ∈ Bundle.executablePaths c.root name ∧
          (MarksDirs (trusted ++ untrusted) → ∀ e ∈ trusted ++ untrusted, e.path = path →
            (e.isDir = true ↔ name = "" ∨ Text.endsWith name "/" = true)) := by
  obtain ⟨pairs, hreports⟩ := exists_reports h
  constructor
  · intro hmain
    obtain ⟨-, hsize⟩ | ⟨pair, -, hno, -⟩ := hreports.coreSize
    · exact hsize
    · exact nomatch hmain.symm.trans hno
  · intro path hmain
    have hentries := exists_entries_of_mainExecutable h hmain
    obtain ⟨name, hname, hpath⟩ := Bundle.Layout.exists_name_of_executable hreports.layout hmain
    refine ⟨?_, hentries, ?_, name, hname, hpath, fun hmarks e he hsame => ?_⟩
    · obtain ⟨-, hroot, -⟩ := commonRoot_eq_ok_iff.mp hreports.root
      obtain ⟨-, honly⟩ := Bundle.root?_eq_some_iff.mp hroot
      obtain ⟨t, ht, -, -, rfl, -⟩ := hentries
      exact Bundle.rootOf?_of_mem_executablePaths honly (List.mem_map_of_mem ht) hpath
    · -- the one pair with this path is counted and measured unless it is of directories
      rintro t ht u hu rfl hsame
      have hsize := hreports.coreSize_eq ht hu hsame.symm hmain
      have hcount := hreports.count_path ht hu hsame.symm
      exact ⟨fun hdirs => ⟨hsize.trans (if_pos hdirs), hcount.trans (if_pos hdirs)⟩,
        fun hdirs => ⟨hsize.trans (if_neg hdirs), hcount.trans (if_neg hdirs)⟩⟩
    · rw [hmarks e he, hsame]
      exact Bundle.endsWith_slash_of_mem_executablePaths hpath

end

/-- A main executable that is a file, of which the untrusted archive has one byte less. -/
theorem coreSize_of_file :
    let t := fileWith "Payload/B.app/B" 1 ⟨#[1, 2]⟩
    let u := fileWith "Payload/B.app/B" 2 ⟨#[1]⟩
    let o : Options := { Options.standard with permitted := 1, permitted_le := by decide }
    let c : Comparison :=
      { root := "B.app", mainExecutable := some "Payload/B.app/B", coreSize := 2, info := none,
        verdicts := [.tolerated "Payload/B.app/B" (some 1) none] }
    compareArchives [t] [u] o = .ok c ∧ MarksDirs [t, u] ∧
      Bundle.rootOf? "Payload/B.app/B" = some "B.app" ∧ c.coreSize = t.size ∧
      (c.verdicts.map Verdict.path).count t.path = 1 := by
  intro t u o c
  have hroot : Bundle.root? o.suffix [t.path] = some "B.app" :=
    Bundle.root?_singleton (by decide) (by decide)
  have hlayout : Bundle.Layout.find [t] "B.app" ".app" =
      .ok { executable := some "Payload/B.app/B", info := none } := rfl
  have hjudge : judge t u true o = .ok (.tolerated t.path (some 1) none) :=
    judge_eq_tolerated (fun hno => absurd hno.1 (by decide)) (by decide) (x := ⟨#[1, 2]⟩)
      (y := ⟨#[1]⟩) rfl rfl rfl (by decide)
  have hdirs : ¬AreDirs (t, u) := by decide
  have hcompare : compareArchives [t] [u] o = .ok c :=
    compareArchives_singleton (t := t) (u := u) rfl hroot hlayout hdirs
      ⟨hjudge, fun ⟨_, _, hno⟩ => nomatch hno⟩
  obtain ⟨hbelow, -, hsize, -⟩ := (coreSize_of_compareArchives hcompare).2 t.path rfl
  obtain ⟨-, hreported⟩ := hsize t List.mem_cons_self u List.mem_cons_self rfl rfl
  exact ⟨hcompare, by decide, hbelow, hreported hdirs⟩

/-- The information of a bundle in which the name of the main executable is empty. -/
def unnamed : ByteArray :=
  ⟨#[0x62, 0x70, 0x6c, 0x69, 0x73, 0x74, 0x30, 0x30, 0xd1, 0x01, 0x02, 0x5f, 0x10, 0x12, 0x43, 0x46,
    0x42, 0x75, 0x6e, 0x64, 0x6c, 0x65, 0x45, 0x78, 0x65, 0x63, 0x75, 0x74, 0x61, 0x62, 0x6c, 0x65,
    0x50, 0x08, 0x0b, 0x20, 0x00, 0x00, 0x00, 0x00, 0x00, 0x00, 0x01, 0x01, 0x00, 0x00, 0x00, 0x00,
    0x00, 0x00, 0x00, 0x03, 0x00, 0x00, 0x00, 0x00, 0x00, 0x00, 0x00, 0x00, 0x00, 0x00, 0x00, 0x00,
    0x00, 0x00, 0x00, 0x21]⟩

/-- The information of a bundle gives an empty name to the main executable, and the directory where
    main executables are is listed. It is reported as the main executable, with the size zero and
    without a verdict, though the bundle has a file with its own name in that directory. -/
theorem coreSize_of_empty_name :
    let info := fileWith "A.app/Contents/Info.plist" 0 unnamed
    let dir := Entry.ofDir "A.app/Contents/MacOS/"
    let e := fileWith "A.app/Contents/MacOS/A" 0 ⟨#[1, 2, 3, 4, 5]⟩
    let entries := [info, dir, e]
    MarksDirs entries ∧ ∃ c, compareArchives entries entries .standard = .ok c ∧
      c.mainExecutable = some dir.path ∧ c.coreSize = 0 ∧ dir.path ∉ c.verdicts.map Verdict.path ∧
      ¬∃ e ∈ entries, c.mainExecutable = some e.path ∧ e.isDir = false := by
  intro info dir e entries
  have hroot : Bundle.root? ".app" (entries.map Entry.path) = some "A.app" :=
    Bundle.root?_of_forall (by simp [entries]) (by decide) (by decide)
  have hfound : ∃ found, Bundle.findInfo entries "A.app" = .ok found ∧
      Bundle.executableNames found "A.app" ".app" = ["", "A"] := by
    have hnames : (Bundle.findInfo entries "A.app").toOption.map
        (fun found => Bundle.executableNames found "A.app" ".app") = some ["", "A"] := by
      decide +kernel
    cases hfound : Bundle.findInfo entries "A.app" with
    | error failure =>
      rw [hfound] at hnames
      exact nomatch hnames
    | ok found =>
      rw [hfound] at hnames
      exact ⟨found, rfl, Option.some.inj hnames⟩
  obtain ⟨found, hfound, hnames⟩ := hfound
  have hlayout : Bundle.Layout.find entries "A.app" ".app" =
      .ok { executable := some dir.path, info := found } := by
    refine Bundle.Layout.find_eq_ok_iff.mpr ⟨found, hfound, ?_⟩
    rw [hnames]
    rfl
  have hsame (e : Entry) : Accepts .standard (some dir.path) (e, e) (.identical e.path) :=
    ⟨judge_eq_ok_iff.mpr (.inl ⟨⟨rfl, rfl⟩, rfl⟩), fun ⟨_, _, hno⟩ => nomatch hno⟩
  -- the pair of directories is not judged
  have hnone : ∀ pair ∈ judged [(info, info), (dir, dir), (e, e)],
      some dir.path ≠ some pair.1.path := by
    decide
  have hreports : Reports .standard entries entries [(info, info), (dir, dir), (e, e)]
      { root := "A.app", mainExecutable := some dir.path, coreSize := 0, info := found,
        verdicts := [.identical info.path, .identical e.path] } :=
    { root := commonRoot_eq_ok_iff.mpr ⟨rfl, hroot, hroot⟩
      layout := hlayout
      trusted_distinct := by decide
      untrusted_distinct := by decide
      pairing := ⟨rfl, by simp [entries], by simp⟩
      verdicts := .cons (hsame info) (.cons (hsame e) .nil)
      coreSize := .inl ⟨hnone, rfl⟩ }
  have hverdicts : dir.path ∉ [info.path, e.path] := by decide
  have hmarks : MarksDirs entries := by decide
  refine ⟨hmarks, _, (compareArchives_path_eq_ok_iff rfl).mpr ⟨_, hreports⟩, rfl, rfl, hverdicts, ?_⟩
  rintro ⟨e', he', hmain, hfile⟩
  have hslash := hmarks e' he'
  rw [hfile, ← Option.some.inj hmain] at hslash
  exact absurd hslash (by decide)

end ReleaseSeal.Compare
