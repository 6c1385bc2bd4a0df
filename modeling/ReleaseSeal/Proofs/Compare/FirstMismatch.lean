import ReleaseSeal.Proofs.Compare.Decision
import ReleaseSeal.Proofs.Compare.Failures

/-!
# Which mismatch is reported

Two archives may differ in many ways at once; a comparison reports the first that it comes to. The lists
of paths are checked first: their lengths, their roots, and that no path occurs twice. By path, that no
path is missing comes next, and then the contents, in the order of the trusted archive; by position, the
paths are checked together with the contents, pair by pair.

## Key results

- `commonRoot_eq_error_iff`: what the checks of the roots report
- `Pairing.fault?_eq_some_iff`: what the checks behind them report, before anything is paired
- `firstFind_byPosition_iff`: what is reported while entries are paired by position
- `compareArchives_reports_first`: the mismatch that a comparison reports
-/

namespace ReleaseSeal.Compare

open Archive (Entry)

/-! ## The first of several -/

section FirstFind

variable {α β γ : Type} {Finds : α → β → Prop} {found : β}

/-- What is found at the first item at which something is found. -/
def FirstFind (Finds : α → β → Prop) (items : List α) (found : β) : Prop :=
  ∃ before item after, items = before ++ item :: after ∧
    (∀ other ∈ before, ∀ b, ¬Finds other b) ∧ Finds item found

@[simp]
theorem firstFind_nil : ¬FirstFind Finds [] found := by
  intro h
  obtain ⟨before, item, after, hitems, -⟩ := h
  simp at hitems

@[simp]
theorem firstFind_cons {item : α} {items : List α} :
    FirstFind Finds (item :: items) found ↔
      Finds item found ∨ (∀ b, ¬Finds item b) ∧ FirstFind Finds items found := by
  constructor
  · intro h
    obtain ⟨before, other, after, hitems, hbefore, hother⟩ := h
    cases before with
    | nil =>
      obtain ⟨rfl, -⟩ := List.cons.inj hitems
      exact .inl hother
    | cons first before =>
      obtain ⟨rfl, rfl⟩ := List.cons.inj hitems
      obtain ⟨hfirst, hbefore⟩ := List.forall_mem_cons.mp hbefore
      exact .inr ⟨hfirst, before, other, after, rfl, hbefore, hother⟩
  · intro h
    obtain hitem | ⟨hitem, before, other, after, rfl, hbefore, hother⟩ := h
    · exact ⟨[], item, items, rfl, by simp, hitem⟩
    · exact ⟨item :: before, other, after, rfl, List.forall_mem_cons.mpr ⟨hitem, hbefore⟩, hother⟩

theorem firstFind_append {items others : List α} :
    FirstFind Finds (items ++ others) found ↔
      FirstFind Finds items found ∨
        (∀ b, ¬FirstFind Finds items b) ∧ FirstFind Finds others found := by
  induction items with
  | nil => simp
  | cons item items ih =>
    simp only [List.cons_append, firstFind_cons, ih, not_or, not_and, forall_and]
    grind

/-- What is found at what is made of the items is found at the items. -/
theorem firstFind_filterMap {make : γ → Option α} {items : List γ} :
    FirstFind Finds (items.filterMap make) found ↔
      FirstFind (fun item b => ∃ a, make item = some a ∧ Finds a b) items found := by
  induction items with
  | nil => simp
  | cons item items ih =>
    cases hmake : make item with
    | none => simp [hmake, ih]
    | some a => simp [hmake, ih]

/-- The same is found first if the same is found at each item. -/
theorem firstFind_congr {Finds' : α → β → Prop} {items : List α}
    (h : ∀ item ∈ items, ∀ b, Finds item b ↔ Finds' item b) :
    FirstFind Finds items found ↔ FirstFind Finds' items found := by
  induction items with
  | nil => simp
  | cons item items ih =>
    obtain ⟨hitem, hitems⟩ := List.forall_mem_cons.mp h
    simp only [firstFind_cons, hitem, ih hitems]

end FirstFind

/-- The mismatch that the first check reports that reports any. -/
def FirstReport (checks : List (Mismatch → Prop)) (m : Mismatch) : Prop :=
  FirstFind (fun check m => check m) checks m

/-! ## What the checks report -/

section Checks

variable (suffix : String) (ts us : List String)

/-- The numbers of paths differ. -/
def CountsDiffer (m : Mismatch) : Prop :=
  ts.length ≠ us.length ∧ m = .entryCount ts.length us.length

/-- No root with the suffix is the only one of the paths; all roots are listed. -/
def LacksRoot (paths : List String) (m : Mismatch) : Prop :=
  (∀ root, Text.endsWith root suffix = true → ¬Bundle.IsOnlyRoot paths root) ∧
    ∃ names, Text.IsListing names (fun name => ∃ path ∈ paths, Bundle.rootOf? path = some name) ∧
      m = .rootPath names suffix

/-- The paths have different roots; both are listed. -/
def RootsDiffer (m : Mismatch) : Prop :=
  ∃ root other, Bundle.IsOnlyRoot ts root ∧ Bundle.IsOnlyRoot us other ∧ root ≠ other ∧
    ∃ names, Text.IsListing names (fun name => name = root ∨ name = other) ∧
      m = .rootPath names suffix

/-- A path occurs twice; it is the first that repeats an earlier one. -/
def Repeats (side : Side) (paths : List String) (m : Mismatch) : Prop :=
  ∃ before path after, paths = before ++ path :: after ∧ before.Nodup ∧ path ∈ before ∧
    m = .duplicate path side

/-- A path is not among others; it is the first such path. -/
def Misses (report : String → Mismatch) (paths others : List String) (m : Mismatch) : Prop :=
  FirstFind (fun path m => path ∉ others ∧ m = report path) paths m

/-- The checks of the roots, and of the numbers of paths in front of them. -/
def rootChecks : List (Mismatch → Prop) :=
  [CountsDiffer ts us, LacksRoot suffix ts, LacksRoot suffix us, RootsDiffer suffix ts us]

/-- The checks of the paths behind the roots. By path, no trusted path may be missing, and then no untrusted
    one. -/
def pairingChecks (by' : PairBy) : List (Mismatch → Prop) :=
  [Repeats .trusted ts, Repeats .untrusted us] ++
    match by' with
    | .path => [Misses (fun path => .paths (some path) none) ts us,
        Misses (fun path => .paths none (some path)) us ts]
    | .position => []

/-- The checks for which the paths are all that is needed. -/
def pathChecks (o : Options) : List (Mismatch → Prop) :=
  rootChecks o.suffix ts us ++ pairingChecks ts us o.pairBy

end Checks

/-- A pair that is not one of directories is judged a mismatch of its content. -/
def ContentDiffers (o : Options) (main? : Option String) (pair : Entry × Entry) (m : Mismatch) : Prop :=
  ¬AreDirs pair ∧ judge pair.1 pair.2 (main? == some pair.1.path) o = .ok (.fatal pair.1.path m) ∧
    ∃ summary, m = .content pair.1.path summary (o.permittedIn (main? == some pair.1.path))

/-- The entries at one position differ, by their paths or else by their contents. -/
def PositionDiffers (o : Options) (main? : Option String) (pair : Entry × Entry) (m : Mismatch) : Prop :=
  (pair.1.path ≠ pair.2.path ∧ m = .paths (some pair.1.path) (some pair.2.path)) ∨
    (pair.1.path = pair.2.path ∧ ContentDiffers o main? pair m)

/-- Entries differ: by path, the first trusted entry that does so from its partner is reported; by position,
    the first two entries. -/
def EntriesDiffer (o : Options) (main? : Option String) (trusted untrusted : List Entry) (m : Mismatch) :
    Prop :=
  match o.pairBy with
  | .path => FirstFind (fun t m => ∃ u ∈ untrusted, u.path = t.path ∧ ContentDiffers o main? (t, u) m)
      trusted m
  | .position => FirstFind (PositionDiffers o main?) (trusted.zip untrusted) m

/-- The check behind those of the paths, for which the layout of the trusted bundle tells which entry is the
    main executable. -/
def entryCheck [Host] (o : Options) (trusted untrusted : List Entry) (m : Mismatch) : Prop :=
  ∃ root layout, Bundle.root? o.suffix (trusted.map Entry.path) = some root ∧
    Bundle.Layout.find trusted root o.suffix = .ok layout ∧
    EntriesDiffer o layout.executable trusted untrusted m

/-! ## The roots -/

theorem findRoot_eq_error_iff {suffix : String} {entries : List Entry} {m : Mismatch} :
    findRoot suffix entries = .error m ↔ LacksRoot suffix (entries.map Entry.path) m := by
  have hlisting := Bundle.isListing_roots (entries.map Entry.path)
  have hnone : Bundle.root? suffix (entries.map Entry.path) = none ↔
      ∀ root, Text.endsWith root suffix = true → ¬Bundle.IsOnlyRoot (entries.map Entry.path) root := by
    simp only [Option.eq_none_iff_forall_ne_some, ne_eq, Bundle.root?_eq_some_iff, not_and]
  unfold findRoot LacksRoot
  rw [← hnone]
  dsimp only
  split
  · rename_i root hroot
    simp [hroot]
  · rename_i hroot
    simp only [hroot, true_and, Except.error.injEq]
    constructor
    · intro h
      exact ⟨_, hlisting, h.symm⟩
    · intro h
      obtain ⟨names, hnames, rfl⟩ := h
      rw [hnames.unique hlisting]

/-- Nothing is reported of the roots of paths exactly if they have one with the suffix. -/
theorem forall_not_lacksRoot {suffix : String} {paths : List String} :
    (∀ m, ¬LacksRoot suffix paths m) ↔ ∃ root, Bundle.root? suffix paths = some root := by
  simp only [Bundle.root?_eq_some_iff]
  constructor
  · intro h
    by_contra hno
    push Not at hno
    exact h _ ⟨hno, _, Bundle.isListing_roots paths, rfl⟩
  · intro h m hlacks
    obtain ⟨root, hsuffix, honly⟩ := h
    exact hlacks.1 root hsuffix honly

/-- Two roots with the suffix are reported if they are not the same. -/
theorem rootsDiffer_iff {suffix root other : String} {ts us : List String} {m : Mismatch}
    (hroot : Bundle.root? suffix ts = some root) (hother : Bundle.root? suffix us = some other) :
    RootsDiffer suffix ts us m ↔
      root ≠ other ∧ m = .rootPath (Bundle.inOrder [root, other]) suffix := by
  have htrusted := (Bundle.root?_eq_some_iff.mp hroot).2
  have huntrusted := (Bundle.root?_eq_some_iff.mp hother).2
  have hlisting : Text.IsListing (Bundle.inOrder [root, other]) (fun name => name = root ∨ name = other) := by
    simpa using Bundle.isListing_inOrder [root, other]
  constructor
  · intro h
    obtain ⟨root', other', htrusted', huntrusted', hne, names, hnames, rfl⟩ := h
    -- paths do not have two only roots
    obtain rfl := (htrusted' root).mp ((htrusted root).mpr rfl)
    obtain rfl := (huntrusted' other).mp ((huntrusted other).mpr rfl)
    rw [hnames.unique hlisting]
    exact ⟨hne, rfl⟩
  · intro h
    exact ⟨root, other, htrusted, huntrusted, h.1, _, hlisting, h.2⟩

/-- Archives have no common root exactly if a check of the roots reports a mismatch. -/
theorem commonRoot_eq_error_iff {suffix : String} {trusted untrusted : List Entry} {m : Mismatch} :
    commonRoot suffix trusted untrusted = .error m ↔
      FirstReport (rootChecks suffix (trusted.map Entry.path) (untrusted.map Entry.path)) m := by
  unfold commonRoot FirstReport rootChecks
  by_cases hlength : trusted.length = untrusted.length
  · -- the roots are looked for, one after the other
    have hcounts (m : Mismatch) :
        ¬CountsDiffer (trusted.map Entry.path) (untrusted.map Entry.path) m := by
      simp [CountsDiffer, hlength]
    simp only [hlength, ne_eq, not_true, if_false, bind_eq_error, findRoot_eq_error_iff,
      findRoot_eq_ok_iff, firstFind_cons, firstFind_nil, and_false, or_false, hcounts, false_or,
      not_false_eq_true, implies_true, true_and, forall_not_lacksRoot]
    cases hroot : Bundle.root? suffix (trusted.map Entry.path) with
    | none => simp
    | some root =>
      cases hother : Bundle.root? suffix (untrusted.map Entry.path) with
      | none => simp
      | some other =>
        rw [rootsDiffer_iff hroot hother]
        by_cases hsame : other = root
        · simp [hsame, pure, Except.pure]
        · have hne : root ≠ other := fun h => hsame h.symm
          simp [hsame, hne, throw_eq_error, @eq_comm _ m]
  · -- nothing is looked for
    simp [CountsDiffer, hlength, throw_eq_error, @eq_comm _ m]

/-! ## The paths behind the roots -/

/-- Checks that report at most one mismatch each report the first of these. -/
theorem firstReport_cons {check : Mismatch → Prop} {checks : List (Mismatch → Prop)}
    {first rest : Option Mismatch} (hcheck : ∀ m, check m ↔ first = some m)
    (hchecks : ∀ m, FirstReport checks m ↔ rest = some m) (m : Mismatch) :
    FirstReport (check :: checks) m ↔ first.or rest = some m := by
  have hnone : (∀ m, ¬check m) ↔ first = none := by
    simp only [hcheck, Option.eq_none_iff_forall_ne_some, ne_eq]
  rw [FirstReport, firstFind_cons, hcheck, hnone, Option.or_eq_some_iff, ← hchecks]
  rfl

theorem firstReport_singleton {check : Mismatch → Prop} {m : Mismatch} :
    FirstReport [check] m ↔ check m := by
  simp [FirstReport]

theorem repeats_iff {side : Side} {entries : List Entry} {m : Mismatch} :
    Repeats side (entries.map Entry.path) m ↔
      (Pairing.duplicate? entries).map (Mismatch.duplicate · side) = some m := by
  simp only [Repeats, Option.map_eq_some_iff, Pairing.duplicate?_eq_some_iff]
  grind

theorem misses_iff {report : String → Mismatch} {entries others : List Entry} {m : Mismatch} :
    Misses report (entries.map Entry.path) (others.map Entry.path) m ↔
      (Pairing.missing? entries others).map report = some m := by
  have hmissing {path : String} : (others.all fun e => e.path != path) = true ↔
      path ∉ others.map Entry.path := by
    simp
  simp only [Misses, FirstFind, Option.map_eq_some_iff, Pairing.missing?,
    List.find?_eq_some_iff_append, Bool.not_eq_true', ← Bool.not_eq_true, hmissing, not_and, not_not]
  constructor
  · intro h
    obtain ⟨before, path, after, hpaths, hbefore, hpath, rfl⟩ := h
    refine ⟨path, ⟨hpath, before, after, hpaths, ?_⟩, rfl⟩
    intro other hother
    by_contra hno
    exact hbefore other hother _ hno rfl
  · intro h
    obtain ⟨path, ⟨hpath, before, after, hpaths, hbefore⟩, rfl⟩ := h
    refine ⟨before, path, after, hpaths, ?_, hpath, rfl⟩
    intro other hother b hno
    exact absurd (hbefore other hother) hno

namespace Pairing

/-- What keeps entries from being paired, before any two are. -/
def fault? (trusted untrusted : List Entry) (by' : PairBy) : Option Mismatch :=
  ((duplicate? trusted).map (.duplicate · .trusted)).or <|
    ((duplicate? untrusted).map (.duplicate · .untrusted)).or <|
      match by' with
      | .path => ((missing? trusted untrusted).map fun path => .paths (some path) none).or
          ((missing? untrusted trusted).map fun path => .paths none (some path))
      | .position => none

theorem fault?_eq_some_iff {trusted untrusted : List Entry} {by' : PairBy} {m : Mismatch} :
    fault? trusted untrusted by' = some m ↔
      FirstReport (pairingChecks (trusted.map Entry.path) (untrusted.map Entry.path) by') m := by
  symm
  cases by' with
  | path =>
    apply firstReport_cons (fun _ => repeats_iff)
    apply firstReport_cons (fun _ => repeats_iff)
    apply firstReport_cons (fun _ => misses_iff)
    exact fun _ => firstReport_singleton.trans misses_iff
  | position =>
    apply firstReport_cons (fun _ => repeats_iff)
    apply firstReport_cons (fun _ => repeats_iff)
    simp [FirstReport]

/-- Entries are paired if nothing keeps them from it. -/
theorem of_eq (trusted untrusted : List Entry) (by' : PairBy) :
    of trusted untrusted by' =
      match fault? trusted untrusted by', by' with
      | some m, _ => failed m
      | none, .path =>
        { pairs := trusted.filterMap fun t => (untrusted.find? fun u => u.path == t.path).map (t, ·),
          stop := none }
      | none, .position => byPosition trusted untrusted := by
  unfold of fault?
  cases duplicate? trusted with
  | some path => rfl
  | none =>
    cases duplicate? untrusted with
    | some path => rfl
    | none =>
      cases by' with
      | position => rfl
      | path =>
        simp only [byPath]
        cases missing? trusted untrusted with
        | some path => rfl
        | none => cases missing? untrusted trusted <;> rfl

end Pairing

/-! ## The contents -/

section Contents

variable {o : Options} {main? : Option String} {trusted untrusted : List Entry} {pair : Entry × Entry}

/-- The first entries that differ at one position are the first pair whose contents differ, or they end
    the pairing, which has no such pair in front of them. -/
theorem firstFind_byPosition_iff {m : Mismatch} :
    FirstFind (PositionDiffers o main?) (trusted.zip untrusted) m ↔
      FirstFind (ContentDiffers o main?) (Pairing.byPosition trusted untrusted).pairs m ∨
        (∀ m', ¬FirstFind (ContentDiffers o main?) (Pairing.byPosition trusted untrusted).pairs m') ∧
          (Pairing.byPosition trusted untrusted).stop = some m := by
  induction trusted generalizing untrusted with
  | nil => simp [Pairing.byPosition]
  | cons t trusted ih =>
    cases untrusted with
    | nil => simp [Pairing.byPosition]
    | cons u untrusted =>
      rw [List.zip_cons_cons, firstFind_cons, ih, Pairing.byPosition]
      by_cases hpath : t.path = u.path
      · -- the contents are looked at before the entries behind them
        have hpair (m : Mismatch) :
            PositionDiffers o main? (t, u) m ↔ ContentDiffers o main? (t, u) m := by
          simp [PositionDiffers, hpath]
        simp only [hpair, if_pos hpath, firstFind_cons, not_or, not_and, forall_and]
        grind
      · simp [PositionDiffers, hpath, Pairing.failed, @eq_comm _ m]

/-- If no path occurs twice, the partner of an entry is the one of its path. -/
theorem find?_path_eq_some_iff (hdistinct : (untrusted.map Entry.path).Nodup) {path : String} {u : Entry} :
    (untrusted.find? fun u => u.path == path) = some u ↔ u ∈ untrusted ∧ u.path = path := by
  constructor
  · intro h
    have hpath := List.find?_some h
    exact ⟨List.mem_of_find?_eq_some h, beq_iff_eq.mp hpath⟩
  · intro h
    obtain ⟨hu, rfl⟩ := h
    cases hfind : untrusted.find? fun other => other.path == u.path with
    | none =>
      rw [List.find?_eq_none] at hfind
      exact absurd (beq_iff_eq.mpr rfl) (hfind u hu)
    | some other =>
      have hpath := List.find?_some hfind
      rw [List.inj_on_of_nodup_map hdistinct (List.mem_of_find?_eq_some hfind) hu
        (beq_iff_eq.mp hpath)]

/-- The first pair whose contents differ is one of the first trusted entry that differs from its
    partner. -/
theorem firstFind_byPath_iff (hdistinct : (untrusted.map Entry.path).Nodup) {m : Mismatch} :
    FirstFind (ContentDiffers o main?)
        (trusted.filterMap fun t => (untrusted.find? fun u => u.path == t.path).map (t, ·)) m ↔
      FirstFind (fun t m => ∃ u ∈ untrusted, u.path = t.path ∧ ContentDiffers o main? (t, u) m)
        trusted m := by
  rw [firstFind_filterMap]
  apply firstFind_congr
  intro t _ m
  simp only [Option.map_eq_some_iff, find?_path_eq_some_iff hdistinct]
  grind

/-- Entries of readable archives end a comparison exactly if their contents differ. -/
theorem Readable.ends_iff [Host] (h : Readable o trusted untrusted) (ht : pair.1 ∈ trusted)
    (hu : pair.2 ∈ untrusted) (hpath : pair.1.path = pair.2.path) {failure : Failure} :
    Ends o main? pair failure ↔ ∃ m, failure = .mismatch m ∧ ContentDiffers o main? pair m := by
  constructor
  · intro hends
    obtain ⟨hdirs, hno | ⟨path, m, hm, rfl⟩⟩ := hends
    · obtain ⟨v, hv⟩ := h.exists_judge ht hu hpath hdirs (main? == some pair.1.path)
      rw [hv] at hno
      cases hno
    · obtain ⟨rfl, hcontent⟩ := eq_content_of_judge_eq_fatal hm
      exact ⟨m, rfl, hdirs, hm, hcontent⟩
  · intro hdiffers
    obtain ⟨m, rfl, hdirs, hm, -⟩ := hdiffers
    exact ⟨hdirs, .inr ⟨_, m, hm, rfl⟩⟩

/-- They are accepted exactly if their contents do not differ. -/
theorem Readable.accepts_iff [Host] (h : Readable o trusted untrusted) (ht : pair.1 ∈ trusted)
    (hu : pair.2 ∈ untrusted) (hpath : pair.1.path = pair.2.path) :
    (¬AreDirs pair → ∃ v, Accepts o main? pair v) ↔ ∀ m, ¬ContentDiffers o main? pair m := by
  constructor
  · intro haccepted m hdiffers
    obtain ⟨w, hw, hfine⟩ := haccepted hdiffers.1
    exact hfine ⟨_, _, Except.ok.inj (hw.symm.trans hdiffers.2.1)⟩
  · intro hno hdirs
    obtain ⟨v, hv⟩ := h.exists_judge ht hu hpath hdirs (main? == some pair.1.path)
    refine ⟨v, hv, ?_⟩
    intro hfatal
    obtain ⟨path, m, rfl⟩ := hfatal
    obtain ⟨rfl, hcontent⟩ := eq_content_of_judge_eq_fatal hv
    exact hno m ⟨hdirs, hv, hcontent⟩

/-- A run through pairs of readable archives ends at the first pair whose contents differ. -/
theorem Readable.run_eq_error_iff [Host] (h : Readable o trusted untrusted) {pairs : List (Entry × Entry)}
    (hpairs : ∀ pair ∈ pairs, pair.1 ∈ trusted ∧ pair.2 ∈ untrusted ∧ pair.1.path = pair.2.path)
    {c : Comparison} {failure : Failure} :
    pairs.foldlM (Comparison.addPair o) c = .error failure ↔
      ∃ m, failure = .mismatch m ∧ FirstFind (ContentDiffers o c.mainExecutable) pairs m := by
  rw [foldlM_addPair_eq_error_iff]
  constructor
  · intro hrun
    obtain ⟨before, pair, after, rfl, hbefore, hends⟩ := hrun
    obtain ⟨ht, hu, hpath⟩ := hpairs pair (by simp)
    obtain ⟨m, rfl, hdiffers⟩ := (h.ends_iff ht hu hpath).mp hends
    refine ⟨m, rfl, before, pair, after, rfl, ?_, hdiffers⟩
    intro p hp
    obtain ⟨ht, hu, hpath⟩ := hpairs p (by simp [hp])
    exact (h.accepts_iff ht hu hpath).mp (hbefore p hp)
  · intro hfirst
    obtain ⟨m, rfl, before, pair, after, rfl, hbefore, hdiffers⟩ := hfirst
    refine ⟨before, pair, after, rfl, ?_, ?_⟩
    · intro p hp
      obtain ⟨ht, hu, hpath⟩ := hpairs p (by simp [hp])
      exact (h.accepts_iff ht hu hpath).mpr (hbefore p hp)
    · obtain ⟨ht, hu, hpath⟩ := hpairs pair (by simp)
      exact (h.ends_iff ht hu hpath).mpr ⟨m, rfl, hdiffers⟩

/-- What a pairing ends with: the first pair whose contents differ, or what it stops at. -/
def Pairing.Reports (o : Options) (main? : Option String) (pairing : Pairing) (m : Mismatch) : Prop :=
  FirstFind (ContentDiffers o main?) pairing.pairs m ∨
    (∀ m', ¬FirstFind (ContentDiffers o main?) pairing.pairs m') ∧ pairing.stop = some m

/-- A pairing ends with what the checks of the paths report, or else with the first entries that differ. -/
theorem Pairing.reports_of_iff {m : Mismatch} :
    (of trusted untrusted o.pairBy).Reports o main? m ↔
      FirstReport (pairingChecks (trusted.map Entry.path) (untrusted.map Entry.path) o.pairBy) m ∨
        (∀ m', ¬FirstReport (pairingChecks (trusted.map Entry.path) (untrusted.map Entry.path)
          o.pairBy) m') ∧ EntriesDiffer o main? trusted untrusted m := by
  simp only [← fault?_eq_some_iff, of_eq, Pairing.Reports, EntriesDiffer]
  cases hfault : fault? trusted untrusted o.pairBy with
  | some m' => simp [failed]
  | none =>
    cases hby : o.pairBy with
    | position => simp [firstFind_byPosition_iff]
    | path =>
      have hdistinct : (untrusted.map Entry.path).Nodup := by
        simp only [fault?, Option.or_eq_none_iff, Option.map_eq_none_iff] at hfault
        exact duplicate?_eq_none_iff.mp hfault.2.1
      simp [firstFind_byPath_iff hdistinct]

end Contents

/-! ## The whole comparison -/

variable {o : Options} {trusted untrusted : List Entry}

theorem exists_commonRoot_iff {suffix : String} :
    (∃ root, commonRoot suffix trusted untrusted = .ok root) ↔
      ∀ m, ¬FirstReport (rootChecks suffix (trusted.map Entry.path) (untrusted.map Entry.path)) m := by
  simp only [← commonRoot_eq_error_iff]
  cases commonRoot suffix trusted untrusted <;> simp

/-- What a check of the paths reports ends a comparison before a payload is judged. -/
theorem compareArchives_of_pathChecks [Host]
    (hinfo : ∀ root, Bundle.root? o.suffix (trusted.map Entry.path) = some root →
      ∃ info, Bundle.findInfo trusted root = .ok info)
    {m : Mismatch}
    (h : FirstReport (pathChecks (trusted.map Entry.path) (untrusted.map Entry.path) o) m) :
    compareArchives trusted untrusted o = .error (.mismatch m) := by
  rw [compareArchives_eq_error_iff]
  obtain hroots | ⟨hroots, hpairing⟩ := firstFind_append.mp h
  · exact .inl ⟨m, commonRoot_eq_error_iff.mpr hroots, rfl⟩
  · obtain ⟨root, hroot⟩ := exists_commonRoot_iff.mpr hroots
    obtain ⟨layout, hlayout⟩ : ∃ layout, Bundle.Layout.find trusted root o.suffix = .ok layout :=
      Bundle.Layout.exists_find_of_info (hinfo root (commonRoot_eq_ok_iff.mp hroot).2.1)
    -- nothing is paired
    have hfailed : Pairing.of trusted untrusted o.pairBy = .failed m := by
      rw [Pairing.of_eq, Pairing.fault?_eq_some_iff.mpr hpairing]
    rw [hfailed]
    exact .inr ⟨root, hroot, .inr ⟨layout, hlayout, .inr ⟨.start root layout, m, rfl, rfl, rfl⟩⟩⟩

/-- A comparison of readable archives fails with what is wrong with their roots, or else with what their
    pairing ends with. -/
theorem Readable.compareArchives_eq_error_iff [Host] (h : Readable o trusted untrusted) {failure : Failure} :
    compareArchives trusted untrusted o = .error failure ↔
      ∃ m, failure = .mismatch m ∧
        (commonRoot o.suffix trusted untrusted = .error m ∨
          ∃ root layout, commonRoot o.suffix trusted untrusted = .ok root ∧
            Bundle.Layout.find trusted root o.suffix = .ok layout ∧
            (Pairing.of trusted untrusted o.pairBy).Reports o layout.executable m) := by
  have hrun_iff (root : String) (layout : Bundle.Layout) (failure : Failure) :
      (Pairing.of trusted untrusted o.pairBy).pairs.foldlM (Comparison.addPair o) (.start root layout) =
          .error failure ↔
        ∃ m, failure = .mismatch m ∧ FirstFind (ContentDiffers o layout.executable)
          (Pairing.of trusted untrusted o.pairBy).pairs m :=
    h.run_eq_error_iff fun _ hpair => Pairing.mem_of_mem_pairs hpair
  rw [Compare.compareArchives_eq_error_iff]
  constructor
  · intro hfails
    obtain ⟨m, hm, rfl⟩ | ⟨root, hroot, hfault | ⟨layout, hlayout, hrun | ⟨c, m, hrun, hstop, rfl⟩⟩⟩ :=
      hfails
    · exact ⟨m, rfl, .inl hm⟩
    · -- the information can be read, so that a layout is found
      obtain ⟨layout, hlayout⟩ : ∃ layout, Bundle.Layout.find trusted root o.suffix = .ok layout :=
        Bundle.Layout.exists_find_of_info (h.info root (commonRoot_eq_ok_iff.mp hroot).2.1)
      rw [hlayout] at hfault
      cases hfault
    · obtain ⟨m, rfl, hfirst⟩ := (hrun_iff root layout failure).mp hrun
      exact ⟨m, rfl, .inr ⟨root, layout, hroot, hlayout, .inl hfirst⟩⟩
    · refine ⟨m, rfl, .inr ⟨root, layout, hroot, hlayout, .inr ⟨?_, hstop⟩⟩⟩
      -- a run that ends well comes to no pair whose contents differ
      intro m' hfirst
      have hno := (hrun_iff root layout _).mpr ⟨m', rfl, hfirst⟩
      rw [hrun] at hno
      cases hno
  · intro hreports
    obtain ⟨m, rfl, hm | ⟨root, layout, hroot, hlayout, hfirst | ⟨hfine, hstop⟩⟩⟩ := hreports
    · exact .inl ⟨m, hm, rfl⟩
    · exact .inr ⟨root, hroot, .inr ⟨layout, hlayout, .inl ((hrun_iff root layout _).mpr ⟨m, rfl, hfirst⟩)⟩⟩
    · refine .inr ⟨root, hroot, .inr ⟨layout, hlayout, .inr ?_⟩⟩
      cases hrun : (Pairing.of trusted untrusted o.pairBy).pairs.foldlM (Comparison.addPair o)
          (.start root layout) with
      | ok c => exact ⟨c, m, rfl, hstop, rfl⟩
      | error failure =>
        obtain ⟨m', -, hfirst⟩ := (hrun_iff root layout failure).mp hrun
        exact absurd hfirst (hfine m')

/-- A comparison reports the first mismatch. If the information of the trusted bundle can be read, a mismatch
    of the paths is reported whatever the payloads are. If moreover the payloads can be read and signatures can
    be taken off, a comparison fails exactly with the mismatch that the first of the checks reports that
    reports any: of the numbers of paths, the roots and the paths that occur twice; by path, of those that
    are missing, and then of the contents; by position, of paths and contents together. -/
theorem compareArchives_reports_first [Host]
    (hinfo : ∀ root, Bundle.root? o.suffix (trusted.map Entry.path) = some root →
      ∃ info, Bundle.findInfo trusted root = .ok info) :
    (∀ m, FirstReport (pathChecks (trusted.map Entry.path) (untrusted.map Entry.path) o) m →
      compareArchives trusted untrusted o = .error (.mismatch m)) ∧
    (Readable o trusted untrusted → ∀ failure,
      compareArchives trusted untrusted o = .error failure ↔
        ∃ m, failure = .mismatch m ∧
          FirstReport (pathChecks (trusted.map Entry.path) (untrusted.map Entry.path) o ++
            [entryCheck o trusted untrusted]) m) := by
  constructor
  · intro m hm
    exact compareArchives_of_pathChecks hinfo hm
  · intro h failure
    rw [h.compareArchives_eq_error_iff]
    apply exists_congr
    intro m
    apply and_congr_right
    intro _
    rw [pathChecks, List.append_assoc, FirstReport, firstFind_append]
    apply or_congr commonRoot_eq_error_iff
    rw [firstFind_append]
    constructor
    · intro hreports
      obtain ⟨root, layout, hroot, hlayout, hreports⟩ := hreports
      refine ⟨exists_commonRoot_iff.mp ⟨root, hroot⟩, ?_⟩
      obtain hpaths | ⟨hpaths, hentries⟩ := Pairing.reports_of_iff.mp hreports
      · exact .inl hpaths
      · have hroot := (commonRoot_eq_ok_iff.mp hroot).2.1
        exact .inr ⟨hpaths, firstReport_singleton.mpr ⟨root, layout, hroot, hlayout, hentries⟩⟩
    · intro hchecks
      obtain ⟨hroots, hchecks⟩ := hchecks
      -- behind the checks of the roots there is a root, and a layout at it
      obtain ⟨root, hroot⟩ := exists_commonRoot_iff.mpr hroots
      have hfound := (commonRoot_eq_ok_iff.mp hroot).2.1
      obtain ⟨layout, hlayout⟩ : ∃ layout, Bundle.Layout.find trusted root o.suffix = .ok layout :=
        Bundle.Layout.exists_find_of_info (hinfo root hfound)
      refine ⟨root, layout, hroot, hlayout, Pairing.reports_of_iff.mpr ?_⟩
      obtain hpaths | ⟨hpaths, hentries⟩ := hchecks
      · exact .inl hpaths
      · obtain ⟨root', layout', hfound', hlayout', hentries⟩ := firstReport_singleton.mp hentries
        obtain rfl := Option.some.inj (hfound.symm.trans hfound')
        obtain rfl := Except.ok.inj (hlayout.symm.trans hlayout')
        exact .inr ⟨hpaths, hentries⟩

/-- A file that differs in front of two others with different paths: by position the content is what is
    reported, and by path the path that is missing. -/
theorem compareArchives_content_before_path :
    let trusted := [fileWith "A.app/a" 1 ⟨#[1]⟩, fileWith "A.app/b" 1 ⟨#[1]⟩]
    let untrusted := [fileWith "A.app/a" 2 ⟨#[2]⟩, fileWith "A.app/c" 1 ⟨#[1]⟩]
    let o := { Options.standard with pairBy := .position }
    (∀ root, Bundle.root? ".app" (trusted.map Entry.path) = some root →
      ∃ info, Bundle.findInfo trusted root = .ok info) ∧
      Readable o trusted untrusted ∧
      (∃ summary, compareArchives trusted untrusted o =
        .error (.mismatch (.content "A.app/a" summary 0))) ∧
      compareArchives trusted untrusted .standard =
        .error (.mismatch (.paths (some "A.app/b") none)) := by
  intro trusted untrusted o
  have hroot : Bundle.root? ".app" (trusted.map Entry.path) = some "A.app" := by decide +kernel
  have hroots : commonRoot ".app" trusted untrusted = .ok "A.app" :=
    commonRoot_eq_ok_iff.mpr ⟨rfl, hroot, by decide +kernel⟩
  have hinfo (root : String) (hfound : Bundle.root? ".app" (trusted.map Entry.path) = some root) :
      ∃ info, Bundle.findInfo trusted root = .ok info := by
    obtain rfl := Option.some.inj (hroot.symm.trans hfound)
    exact ⟨none, rfl⟩
  have hreadable : Readable o trusted untrusted := by
    refine ⟨?_, hinfo, fun _ _ _ _ _ _ _ _ x y _ _ hno => (nomatch hno)⟩
    intro e he
    simp only [trusted, untrusted, List.cons_append, List.nil_append, List.mem_cons,
      List.not_mem_nil, or_false] at he
    obtain rfl | rfl | rfl | rfl := he <;> exact ⟨_, rfl⟩
  -- the payloads of the first pair differ, and no edit is permitted
  obtain ⟨summary, -, hcontent⟩ : ∃ summary : Edit.Summary, o.permittedIn false < summary.total ∧
      judgeContent "A.app/a" false o ⟨#[1]⟩ ⟨#[2]⟩ =
        .fatal "A.app/a" (.content "A.app/a" summary (o.permittedIn false)) :=
    exists_judgeContent_of_lt (by decide)
  refine ⟨hinfo, hreadable, ⟨summary, ?_⟩, ?_⟩
  · apply ((compareArchives_reports_first (o := o) hinfo).2 hreadable _).mpr
    refine ⟨_, rfl, firstFind_append.mpr (.inr ⟨?_, firstReport_singleton.mpr ?_⟩)⟩
    · -- no check of the paths reports a mismatch
      intro m hm
      obtain hno | ⟨-, hno⟩ := firstFind_append.mp hm
      · exact exists_commonRoot_iff.mp ⟨_, hroots⟩ m hno
      · have hfault := Pairing.fault?_eq_some_iff.mpr hno
        rw [show Pairing.fault? trusted untrusted .position = none by decide +kernel] at hfault
        cases hfault
    · refine ⟨"A.app", { executable := none, info := none }, hroot, rfl, firstFind_cons.mpr (.inl ?_)⟩
      exact .inr ⟨rfl, by decide, congrArg Except.ok hcontent, _, rfl⟩
  · apply (compareArchives_reports_first (o := .standard) hinfo).1
    apply firstFind_append.mpr
    refine .inr ⟨exists_commonRoot_iff.mp ⟨_, hroots⟩, ?_⟩
    exact Pairing.fault?_eq_some_iff.mp (by decide +kernel)

end ReleaseSeal.Compare
