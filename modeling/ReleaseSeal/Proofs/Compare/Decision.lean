import ReleaseSeal.Proofs.Compare.Result

/-!
# What a comparison by path decides

Where payloads can be read, the information of the trusted bundle raises no fault and signatures can
be taken off, a comparison by path ends without a mismatch exactly if both archives hold the same
paths of one bundle, each once, and no pair of entries is judged a mismatch. Then there is one verdict
for each pair that is not one of directories, in the order of the trusted archive.

## Key results

- `samePaths_iff`: when entries are paired by path below a common root
- `exists_compareArchives_iff`: when a comparison by path has a result
- `compareArchives_decides`: the same for readable archives, and what the result lists
-/

namespace ReleaseSeal.Compare

open Archive (Entry)

/-- The archives hold the same paths of one bundle, each once. -/
structure SamePaths (suffix root : String) (trusted untrusted : List Entry) : Prop where
  length_eq : trusted.length = untrusted.length
  root_suffix : Text.endsWith root suffix = true
  trusted_root : Bundle.IsOnlyRoot (trusted.map Entry.path) root
  untrusted_root : Bundle.IsOnlyRoot (untrusted.map Entry.path) root
  trusted_distinct : (trusted.map Entry.path).Nodup
  untrusted_distinct : (untrusted.map Entry.path).Nodup
  path_iff : ∀ path, path ∈ trusted.map Entry.path ↔ path ∈ untrusted.map Entry.path

/-- Nothing but a mismatch can keep two archives from having a result: the payloads can be read, the
    information of the trusted bundle can be had, and signatures can be taken off any two payloads of one
    path that are looked at, where that applies. -/
structure Readable [Host] (o : Options) (trusted untrusted : List Entry) : Prop where
  read : ∀ e ∈ trusted ++ untrusted, ∃ payload, e.read = .ok payload
  info : ∀ root, Bundle.root? o.suffix (trusted.map Entry.path) = some root →
    ∃ info, Bundle.findInfo trusted root = .ok info
  strip : ∀ t ∈ trusted, ∀ u ∈ untrusted, t.path = u.path → ¬AreDirs (t, u) → ¬RecordedSame t u →
    Bundle.Category.ofPath? t.path = none → ∀ x y, t.read = .ok x → u.read = .ok y → o.stripper.applies x y = true →
      ∃ x' y', o.stripper.strip x = .ok x' ∧ o.stripper.strip y = .ok y'

/-- Entries of one path in readable archives have a verdict, unless both are directories. -/
theorem Readable.exists_judge [Host] {o : Options} {trusted untrusted : List Entry}
    (h : Readable o trusted untrusted) {t u : Entry} (ht : t ∈ trusted) (hu : u ∈ untrusted)
    (hpath : t.path = u.path) (hdirs : ¬AreDirs (t, u)) (isMain : Bool) :
    ∃ v, judge t u isMain o = .ok v := by
  obtain ⟨x, hx⟩ := h.read t (List.mem_append_left _ ht)
  obtain ⟨y, hy⟩ := h.read u (List.mem_append_right _ hu)
  exact Compare.exists_judge hx hy fun hsame hcategory =>
    h.strip t ht u hu hpath hdirs hsame hcategory x y hx hy

/-- Archives are paired by path below a common root exactly if they hold the same paths of one
    bundle. -/
theorem samePaths_iff {suffix root : String} {trusted untrusted : List Entry} :
    SamePaths suffix root trusted untrusted ↔
      commonRoot suffix trusted untrusted = .ok root ∧
        (Pairing.of trusted untrusted .path).stop = none := by
  rw [commonRoot_eq_ok_iff, Pairing.of_path_stop_eq_none_iff, Bundle.root?_eq_some_iff,
    Bundle.root?_eq_some_iff]
  constructor
  · intro h
    exact ⟨⟨h.length_eq, ⟨h.root_suffix, h.trusted_root⟩, h.root_suffix, h.untrusted_root⟩,
      h.trusted_distinct, h.untrusted_distinct, h.path_iff⟩
  · rintro ⟨⟨hlength, ⟨hsuffix, htrusted⟩, -, huntrusted⟩, hdistinct, hdistinct', hpaths⟩
    exact ⟨hlength, hsuffix, htrusted, huntrusted, hdistinct, hdistinct', hpaths⟩

/-- The information of a readable bundle is found, and its main executable with it. -/
theorem Readable.exists_layout [Host] {o : Options} {trusted untrusted : List Entry} {root : String}
    (h : Readable o trusted untrusted) (hpaths : SamePaths o.suffix root trusted untrusted) :
    ∃ layout, Bundle.Layout.find trusted root o.suffix = .ok layout := by
  apply Bundle.Layout.exists_find_of_info
  exact h.info root (Bundle.root?_eq_some_iff.mpr ⟨hpaths.root_suffix, hpaths.trusted_root⟩)

/-- A comparison by path has a result exactly if both archives hold the same paths of one bundle, its
    layout is found and all entries of one path that are not both directories are accepted. -/
theorem exists_compareArchives_iff [Host] {o : Options} {trusted untrusted : List Entry}
    (hby : o.pairBy = .path) :
    (∃ c, compareArchives trusted untrusted o = .ok c) ↔
      ∃ root layout, SamePaths o.suffix root trusted untrusted ∧
        Bundle.Layout.find trusted root o.suffix = .ok layout ∧
        ∀ t ∈ trusted, ∀ u ∈ untrusted, t.path = u.path → ¬AreDirs (t, u) →
          ∃ v, Accepts o layout.executable (t, u) v := by
  simp only [compareArchives_eq_ok_iff, hby]
  constructor
  · rintro ⟨c, root, layout, hroot, hlayout, hrun, hstop⟩
    have hpaths := samePaths_iff.mpr ⟨hroot, hstop⟩
    obtain ⟨-, hdistinct, hpairing⟩ := Pairing.of_stop_eq_none hpaths.length_eq hstop
    refine ⟨root, layout, hpaths, hlayout, fun t ht u hu hpath hdirs => ?_⟩
    have hmem := (hpairing.mem_iff hdistinct).mpr ⟨ht, hu, hpath⟩
    exact exists_foldlM_addPair_iff.mp ⟨c, hrun⟩ (t, u) hmem hdirs
  · rintro ⟨root, layout, hpaths, hlayout, haccepted⟩
    obtain ⟨hroot, hstop⟩ := samePaths_iff.mp hpaths
    obtain ⟨-, hdistinct, hpairing⟩ := Pairing.of_stop_eq_none hpaths.length_eq hstop
    -- every pair that is judged is one of entries with one path
    have hrun : ∃ c, (Pairing.of trusted untrusted .path).pairs.foldlM (Comparison.addPair o)
        (.start root layout) = .ok c := by
      refine exists_foldlM_addPair_iff.mpr fun ⟨t, u⟩ hmem hdirs => ?_
      obtain ⟨ht, hu, hpath⟩ := (hpairing.mem_iff hdistinct).mp hmem
      exact haccepted t ht u hu hpath hdirs
    obtain ⟨c, hrun⟩ := hrun
    exact ⟨c, root, layout, hroot, hlayout, hrun, hstop⟩

/-- No verdict of a comparison's result is a mismatch. -/
theorem accepted_of_compareArchives [Host] {o : Options} {trusted untrusted : List Entry} {c : Comparison}
    (h : compareArchives trusted untrusted o = .ok c) : ∀ v ∈ c.verdicts, ¬v.IsFatal := by
  obtain ⟨pairs, -, -, hverdicts⟩ := exists_pairing h
  have hflip : List.Forall₂ (fun v pair => ¬v.IsFatal ∧ Accepts o c.mainExecutable pair v)
      c.verdicts (judged pairs) := (hverdicts.imp fun _ _ hv => ⟨hv.2, hv⟩).flip
  exact ((List.forall₂_and_left _ _).mp hflip).1

/-- A comparison by path of readable archives has a result exactly if both hold the same paths of one
    bundle, each once, and no pair of entries that are not both directories is judged a mismatch. The
    result has one verdict for each such pair, on its path, in the order of the trusted entries; none
    is a mismatch, and those of equal entries and of tolerated differences are all of them. -/
theorem compareArchives_decides [Host] {o : Options} {trusted untrusted : List Entry}
    (hby : o.pairBy = .path) (h : Readable o trusted untrusted) :
    ((∃ c, compareArchives trusted untrusted o = .ok c) ↔
      ∃ root, SamePaths o.suffix root trusted untrusted ∧
        ∀ layout, Bundle.Layout.find trusted root o.suffix = .ok layout →
          ∀ t ∈ trusted, ∀ u ∈ untrusted, t.path = u.path → ¬AreDirs (t, u) →
            ∀ v, judge t u (layout.executable == some t.path) o = .ok v → ¬v.IsFatal) ∧
    ∀ c, compareArchives trusted untrusted o = .ok c →
      ∃ pairs, IsPairing trusted untrusted pairs ∧
        (∀ t u, (t, u) ∈ pairs ↔ t ∈ trusted ∧ u ∈ untrusted ∧ t.path = u.path) ∧
        List.Forall₂ (fun pair v =>
          judge pair.1 pair.2 (c.mainExecutable == some pair.1.path) o = .ok v ∧
            v.path = pair.1.path ∧ ¬v.IsFatal) (judged pairs) c.verdicts ∧
        c.identicalCount + c.tolerated.length = c.verdicts.length := by
  constructor
  · rw [exists_compareArchives_iff hby]
    constructor
    · rintro ⟨root, layout, hpaths, hlayout, haccepted⟩
      refine ⟨root, hpaths, fun found hfound t ht u hu hpath hdirs v hv => ?_⟩
      obtain rfl : layout = found := Except.ok.inj (hlayout.symm.trans hfound)
      -- an accepted pair has no other verdict
      obtain ⟨w, hw, hfine⟩ := haccepted t ht u hu hpath hdirs
      rwa [Except.ok.inj (hv.symm.trans hw)]
    · rintro ⟨root, hpaths, hverdicts⟩
      -- nothing but a mismatch can keep a pair from being accepted
      obtain ⟨layout, hlayout⟩ := h.exists_layout hpaths
      refine ⟨root, layout, hpaths, hlayout, fun t ht u hu hpath hdirs => ?_⟩
      obtain ⟨v, hv⟩ := h.exists_judge ht hu hpath hdirs (layout.executable == some t.path)
      exact ⟨v, hv, hverdicts layout hlayout t ht u hu hpath hdirs v hv⟩
  · intro c hc
    obtain ⟨pairs, hpairing, hdistinct, hverdicts⟩ := exists_pairing hc
    refine ⟨pairs, hpairing, fun t u => hpairing.mem_iff hdistinct, ?_,
      identicalCount_add_length_tolerated (accepted_of_compareArchives hc)⟩
    exact hverdicts.imp fun pair v hv => ⟨hv.1, judge_path hv.1, hv.2⟩

/-- A directory and a main executable, in another order in the other archive, where one byte is added:
    the comparison has a result where one edit is permitted. -/
theorem compareArchives_decides_reordered :
    let directory : Entry :=
      { path := "A.app/", size := 0, checksum := 0, isDir := true, payload := none }
    let t := fileWith "A.app/Contents/MacOS/A" 1 ⟨#[1]⟩
    let u := fileWith "A.app/Contents/MacOS/A" 2 ⟨#[1, 2]⟩
    let o : Options := { Options.standard with permitted := 1, permitted_le := by decide }
    o.pairBy = .path ∧ Readable o [directory, t] [u, directory] ∧
      ∃ c, compareArchives [directory, t] [u, directory] o = .ok c ∧
        c.identicalCount + c.tolerated.length = c.verdicts.length := by
  intro directory t u o
  have hdirectory : Bundle.rootOf? directory.path = some "A.app" := by decide
  have hfile : Bundle.rootOf? t.path = some "A.app" := by decide
  have htrusted : Bundle.IsOnlyRoot ([directory, t].map Entry.path) "A.app" := by
    intro name
    simp [hdirectory, hfile, eq_comm]
  have huntrusted : Bundle.IsOnlyRoot ([u, directory].map Entry.path) "A.app" := by
    intro name
    simp [hdirectory, show Bundle.rootOf? u.path = some "A.app" from hfile, eq_comm]
  -- no entry fails to be read, there is no information, and nothing is stripped
  have hreadable : Readable o [directory, t] [u, directory] := by
    refine ⟨?_, fun root hroot => ?_, fun _ _ _ _ _ _ _ _ x y _ _ hno => (nomatch hno)⟩
    · intro e he
      simp only [List.cons_append, List.nil_append, List.mem_cons, List.not_mem_nil, or_false] at he
      obtain rfl | rfl | rfl | rfl := he <;> exact ⟨_, rfl⟩
    · -- the only root is the one that the paths have
      have honly := (Bundle.root?_eq_some_iff.mp hroot).2
      obtain rfl : "A.app" = root := (honly "A.app").mp ((htrusted "A.app").mpr rfl)
      exact ⟨none, rfl⟩
  have hpaths : SamePaths o.suffix "A.app" [directory, t] [u, directory] :=
    { length_eq := rfl, root_suffix := by decide, trusted_root := htrusted,
      untrusted_root := huntrusted, trusted_distinct := by decide,
      untrusted_distinct := by decide,
      path_iff := fun path => by simp [show u.path = t.path from rfl, or_comm] }
  obtain ⟨hresult, hcounts⟩ := compareArchives_decides rfl hreadable
  -- the main executables are one edit apart, and one is permitted
  have hjudge : judge t u true o = .ok (.tolerated t.path (some 1) none) :=
    judge_eq_tolerated (fun hno => absurd hno.1 (by decide)) (by decide) (x := ⟨#[1]⟩)
      (y := ⟨#[1, 2]⟩) rfl rfl rfl (by decide)
  have hexists : ∃ c, compareArchives [directory, t] [u, directory] o = .ok c := by
    refine hresult.mpr ⟨"A.app", hpaths, fun layout hlayout e he e' he' hpath hdirs v hv => ?_⟩
    have hfound : Bundle.Layout.find [directory, t] "A.app" ".app" =
        .ok { executable := some "A.app/Contents/MacOS/A", info := none } := rfl
    obtain rfl := Except.ok.inj (hfound.symm.trans hlayout)
    simp only [List.mem_cons, List.not_mem_nil, or_false] at he he'
    -- of the four pairs, two have one path, and one of these is a pair of directories
    obtain rfl | rfl := he <;> obtain rfl | rfl := he'
    · exact absurd hpath (by decide)
    · exact absurd ⟨rfl, rfl⟩ hdirs
    · obtain rfl := Except.ok.inj (hjudge.symm.trans hv)
      exact fun ⟨_, _, hno⟩ => nomatch hno
    · exact absurd hpath (by decide)
  obtain ⟨c, hc⟩ := hexists
  obtain ⟨pairs, -, -, -, hcount⟩ := hcounts c hc
  exact ⟨rfl, hreadable, c, hc, hcount⟩

end ReleaseSeal.Compare
