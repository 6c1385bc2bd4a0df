import Mathlib.Data.List.Perm.Basic
import ReleaseSeal.Proofs.Bundle.Layout
import ReleaseSeal.Proofs.Compare.Archives

/-!
# What a comparison reports

The result of a comparison told by the pairs of entries, without the run that goes through them: the
root and the layout come from the entries, the verdicts are those of the pairs that are judged, in
order, and the size is the one that the trusted entry of the main executable records. Nothing else
enters the result, so that it is the only one with these properties; and entries that have such a
result and are paired to the end are compared without a mismatch.

## Key results

- `foldlM_addPair_coreSize`: which size the run through the pairs leaves
- `exists_reports`: what a comparison without a mismatch has as its result
- `exists_pairing` / `exists_accepts`: what it has judged
- `Reports.unique`: the result is the only one
- `compareArchives_eq_ok_iff_reports`: a comparison gives its result exactly if there is one and the
  pairing ends well
- `compareArchives_path_eq_ok_iff`: by path, the pairing of entries that have a result ends well
- `Reports.map_path`: on which paths there are verdicts
-/

namespace ReleaseSeal.Compare

open Archive (Entry)

/-! ## The size of the main executable -/

/-- The size that is left behind some pairs: the one that a trusted entry with the path of the main
    executable records, or the size before if no pair has that path. -/
def IsCoreSize (main? : Option String) (before : Int) (pairs : List (Entry × Entry)) (size : Int) :
    Prop :=
  ((∀ pair ∈ pairs, main? ≠ some pair.1.path) ∧ size = before) ∨
    ∃ pair ∈ pairs, main? = some pair.1.path ∧ size = pair.1.size

/-- The order of the pairs does not matter to the size. -/
theorem IsCoreSize.perm {main? : Option String} {before size : Int}
    {pairs pairs' : List (Entry × Entry)} (h : IsCoreSize main? before pairs size)
    (hperm : pairs.Perm pairs') : IsCoreSize main? before pairs' size := by
  simpa only [IsCoreSize, hperm.mem_iff] using h

/-- There is one size if no path occurs twice. -/
theorem IsCoreSize.unique {main? : Option String} {before size size' : Int}
    {pairs : List (Entry × Entry)} (h : IsCoreSize main? before pairs size)
    (h' : IsCoreSize main? before pairs size')
    (hdistinct : (pairs.map fun pair => pair.1.path).Nodup) : size = size' := by
  -- either both sizes come from a pair, which is the same one then, or neither does
  obtain ⟨hnone, rfl⟩ | ⟨pair, hpair, hmain, rfl⟩ := h <;>
    obtain ⟨hnone', rfl⟩ | ⟨pair', hpair', hmain', rfl⟩ := h'
  · rfl
  · exact absurd hmain' (hnone pair' hpair')
  · exact absurd hmain (hnone' pair hpair)
  · have hpath : pair.1.path = pair'.1.path := Option.some.inj (hmain.symm.trans hmain')
    rw [List.inj_on_of_nodup_map hdistinct hpair hpair' hpath]

/-- Sizes are left behind one list of pairs after another. -/
theorem IsCoreSize.append {main? : Option String} {before size size' : Int}
    {pairs pairs' : List (Entry × Entry)} (h : IsCoreSize main? before pairs size)
    (h' : IsCoreSize main? size pairs' size') :
    IsCoreSize main? before (pairs ++ pairs') size' := by
  obtain ⟨hnone', rfl⟩ | ⟨pair, hpair, hmain⟩ := h'
  · -- the pairs behind are not the main executable's
    obtain ⟨hnone, rfl⟩ | ⟨pair, hpair, hmain⟩ := h
    · exact .inl ⟨List.forall_mem_append.mpr ⟨hnone, hnone'⟩, rfl⟩
    · exact .inr ⟨pair, List.mem_append_left _ hpair, hmain⟩
  · exact .inr ⟨pair, List.mem_append_right _ hpair, hmain⟩

/-- Judging a pair keeps what was found out before, and sets the size if the pair is the main
    executable's. -/
theorem addPair_frame {o : Options} {c c' : Comparison} {pair : Entry × Entry}
    (h : c.addPair o pair = .ok c') :
    c'.root = c.root ∧ c'.info = c.info ∧
      IsCoreSize c.mainExecutable c.coreSize (judged [pair]) c'.coreSize := by
  obtain ⟨hdirs, rfl⟩ | ⟨hdirs, v, -, rfl⟩ := addPair_eq_ok_iff.mp h
  · have hjudged : judged [pair] = [] := List.filter_cons_of_neg (by simpa using hdirs)
    exact ⟨rfl, rfl, .inl ⟨by simp [hjudged], rfl⟩⟩
  · have hjudged : judged [pair] = [pair] := List.filter_cons_of_pos (by simpa using hdirs)
    refine ⟨rfl, rfl, ?_⟩
    rw [hjudged]
    by_cases hmain : c.mainExecutable = some pair.1.path
    · exact .inr ⟨pair, List.mem_cons_self, hmain, if_pos (beq_iff_eq.mpr hmain)⟩
    · exact .inl ⟨by simpa using hmain, if_neg fun hno => hmain (beq_iff_eq.mp hno)⟩

/-- Judging pairs keeps what was found out before, and leaves the size of the main executable. -/
theorem foldlM_addPair_coreSize {o : Options} {pairs : List (Entry × Entry)} {c c' : Comparison}
    (h : pairs.foldlM (Comparison.addPair o) c = .ok c') :
    c'.root = c.root ∧ c'.info = c.info ∧
      IsCoreSize c.mainExecutable c.coreSize (judged pairs) c'.coreSize := by
  induction pairs generalizing c with
  | nil =>
    obtain rfl := pure_eq_ok.mp h
    exact ⟨rfl, rfl, .inl ⟨fun _ hno => (nomatch hno), rfl⟩⟩
  | cons pair pairs ih =>
    rw [List.foldlM_cons, bind_eq_ok] at h
    obtain ⟨next, hnext, hrest⟩ := h
    obtain ⟨hroot, hinfo, hsize⟩ := addPair_frame hnext
    obtain ⟨hroot', hinfo', hsize'⟩ := ih hrest
    -- the rest of the run looks for the same main executable
    rw [addPair_mainExecutable hnext] at hsize'
    refine ⟨hroot'.trans hroot, hinfo'.trans hinfo, ?_⟩
    rw [show pair :: pairs = [pair] ++ pairs from rfl, judged, List.filter_append]
    exact hsize.append hsize'

/-! ## The result -/

/-- A result of a comparison, told by the pairs of entries that have one path. -/
structure Reports [Host] (o : Options) (trusted untrusted : List Entry) (pairs : List (Entry × Entry))
    (c : Comparison) : Prop where
  root : commonRoot o.suffix trusted untrusted = .ok c.root
  layout : Bundle.Layout.find trusted c.root o.suffix =
    .ok { executable := c.mainExecutable, info := c.info }
  trusted_distinct : (trusted.map Entry.path).Nodup
  untrusted_distinct : (untrusted.map Entry.path).Nodup
  pairing : IsPairing trusted untrusted pairs
  verdicts : List.Forall₂ (Accepts o c.mainExecutable) (judged pairs) c.verdicts
  coreSize : IsCoreSize c.mainExecutable 0 (judged pairs) c.coreSize

section

variable {o : Options} {trusted untrusted : List Entry} {pairs : List (Entry × Entry)}
  {c : Comparison}

/-- What a comparison without a mismatch gives is a result of its pairs. -/
theorem exists_reports [Host] (h : compareArchives trusted untrusted o = .ok c) :
    ∃ pairs, Reports o trusted untrusted pairs c := by
  obtain ⟨root, layout, hroot, hlayout, hrun, hstop⟩ := compareArchives_eq_ok_iff.mp h
  obtain ⟨hlength, -⟩ := commonRoot_eq_ok_iff.mp hroot
  obtain ⟨hdistinct, hdistinct', hpairing⟩ := Pairing.of_stop_eq_none hlength hstop
  obtain ⟨hmain, vs, hverdicts, hvs⟩ := foldlM_addPair_eq_ok hrun
  obtain ⟨hroot', hinfo, hsize⟩ := foldlM_addPair_coreSize hrun
  -- the run has changed neither the root nor the layout
  obtain rfl : c.root = root := hroot'
  obtain rfl : layout = { executable := c.mainExecutable, info := c.info } := by rw [hmain, hinfo]; rfl
  obtain rfl : c.verdicts = vs := hverdicts
  exact ⟨_, hroot, hlayout, hdistinct, hdistinct', hpairing, hvs, hsize⟩

namespace Reports

/-- No path occurs twice among the trusted entries of pairs. -/
theorem pairs_distinct [Host] (h : Reports o trusted untrusted pairs c) :
    (pairs.map fun pair => pair.1.path).Nodup := by
  have hdistinct := h.trusted_distinct
  rwa [← h.pairing.fst, List.map_map] at hdistinct

/-- Nor does one among those of the pairs that are judged. -/
theorem judged_distinct [Host] (h : Reports o trusted untrusted pairs c) :
    ((judged pairs).map fun pair => pair.1.path).Nodup :=
  h.pairs_distinct.sublist (List.filter_sublist.map _)

/-- Entries have one result. -/
theorem unique [Host] {pairs' : List (Entry × Entry)} {c' : Comparison}
    (h : Reports o trusted untrusted pairs c) (h' : Reports o trusted untrusted pairs' c') :
    c = c' := by
  -- the pairs are the same, and so are the root and the layout
  obtain rfl := h.pairing.unique h'.pairing h.untrusted_distinct
  have hroot : c.root = c'.root := Except.ok.inj (h.root.symm.trans h'.root)
  have hlayout := h.layout
  rw [hroot, h'.layout] at hlayout
  obtain ⟨hmain, hinfo⟩ := Bundle.Layout.mk.inj (Except.ok.inj hlayout)
  -- with one main executable there is one verdict on each pair, and one size
  have hunique : Relator.RightUnique (Accepts o c.mainExecutable) :=
    fun _ _ _ hv hw => Except.ok.inj (hv.1.symm.trans hw.1)
  have hverdicts : c.verdicts = c'.verdicts :=
    List.right_unique_forall₂' hunique h.verdicts (hmain ▸ h'.verdicts)
  have hsize : c.coreSize = c'.coreSize :=
    h.coreSize.unique (hmain ▸ h'.coreSize) h.judged_distinct
  cases c
  cases c'
  simp only [Comparison.mk.injEq]
  exact ⟨hroot, hmain.symm, hsize, hinfo.symm, hverdicts⟩

/-- The verdicts are on the paths of the pairs that are judged. -/
theorem map_path [Host] (h : Reports o trusted untrusted pairs c) :
    c.verdicts.map Verdict.path = (judged pairs).map fun pair => pair.1.path := by
  have hpaths : List.Forall₂ (fun v pair => v.path = pair.1.path) c.verdicts (judged pairs) :=
    (h.verdicts.imp fun _ _ hv => judge_path hv.1).flip
  rwa [← List.forall₂_eq_eq_eq, List.forall₂_map_left_iff, List.forall₂_map_right_iff]

/-- Entries of one path are judged unless both are directories. -/
theorem mem_judged_iff [Host] (h : Reports o trusted untrusted pairs c) {t u : Entry} (ht : t ∈ trusted)
    (hu : u ∈ untrusted) (hpath : t.path = u.path) :
    (t, u) ∈ judged pairs ↔ ¬AreDirs (t, u) := by
  have hmem := (h.pairing.mem_iff h.untrusted_distinct).mpr ⟨ht, hu, hpath⟩
  simp [judged, hmem]

/-- Every pair that is judged is accepted. -/
theorem exists_accepts [Host] (h : Reports o trusted untrusted pairs c) :
    ∀ pair ∈ judged pairs, ∃ v, Accepts o c.mainExecutable pair v := by
  have hboth : List.Forall₂ (fun pair v => (∃ w, Accepts o c.mainExecutable pair w) ∧
      Accepts o c.mainExecutable pair v) (judged pairs) c.verdicts :=
    h.verdicts.imp fun _ v hv => ⟨⟨v, hv⟩, hv⟩
  exact ((List.forall₂_and_left _ _).mp hboth).1

end Reports

/-- What a comparison without a mismatch has judged: all pairs of entries with one path, but for pairs
    of directories. -/
theorem exists_pairing [Host] (h : compareArchives trusted untrusted o = .ok c) :
    ∃ pairs, IsPairing trusted untrusted pairs ∧ (untrusted.map Entry.path).Nodup ∧
      List.Forall₂ (Accepts o c.mainExecutable) (judged pairs) c.verdicts := by
  obtain ⟨pairs, hreports⟩ := exists_reports h
  exact ⟨pairs, hreports.pairing, hreports.untrusted_distinct, hreports.verdicts⟩

/-- A comparison without a mismatch has accepted any two entries of one path that are not both
    directories. -/
theorem exists_accepts [Host] (h : compareArchives trusted untrusted o = .ok c) {t u : Entry}
    (ht : t ∈ trusted) (hu : u ∈ untrusted) (hpath : t.path = u.path) (hdirs : ¬AreDirs (t, u)) :
    ∃ v, Accepts o c.mainExecutable (t, u) v := by
  obtain ⟨pairs, hreports⟩ := exists_reports h
  exact hreports.exists_accepts (t, u) ((hreports.mem_judged_iff ht hu hpath).mpr hdirs)

/-- A comparison gives its result exactly if its entries have one and the pairing ends well. -/
theorem compareArchives_eq_ok_iff_reports [Host] :
    compareArchives trusted untrusted o = .ok c ↔
      (Pairing.of trusted untrusted o.pairBy).stop = none ∧
        ∃ pairs, Reports o trusted untrusted pairs c := by
  constructor
  · intro h
    obtain ⟨-, -, -, -, -, hstop⟩ := compareArchives_eq_ok_iff.mp h
    exact ⟨hstop, exists_reports h⟩
  · rintro ⟨hstop, pairs, h⟩
    obtain ⟨hlength, -⟩ := commonRoot_eq_ok_iff.mp h.root
    obtain ⟨-, -, hpairing⟩ := Pairing.of_stop_eq_none hlength hstop
    obtain rfl := h.pairing.unique hpairing h.untrusted_distinct
    have hrun : ∃ c', (Pairing.of trusted untrusted o.pairBy).pairs.foldlM (Comparison.addPair o)
        (.start c.root { executable := c.mainExecutable, info := c.info }) = .ok c' :=
      exists_foldlM_addPair_iff.mpr fun pair hpair hdirs =>
        h.exists_accepts pair (List.mem_filter.mpr ⟨hpair, by simpa using hdirs⟩)
    obtain ⟨c', hrun⟩ := hrun
    have hresult := compareArchives_eq_ok_iff.mpr ⟨_, _, h.root, h.layout, hrun, hstop⟩
    -- there is no other result than the one that the comparison has
    obtain ⟨pairs', h'⟩ := exists_reports hresult
    rw [hresult, h'.unique h]

/-- By path, a comparison gives its result exactly if its entries have one. -/
theorem compareArchives_path_eq_ok_iff [Host] (hby : o.pairBy = .path) :
    compareArchives trusted untrusted o = .ok c ↔ ∃ pairs, Reports o trusted untrusted pairs c := by
  rw [compareArchives_eq_ok_iff_reports, hby, Pairing.of_path_stop_eq_none_iff]
  refine ⟨And.right, fun ⟨pairs, h⟩ => ⟨?_, pairs, h⟩⟩
  obtain ⟨hlength, -⟩ := commonRoot_eq_ok_iff.mp h.root
  exact ⟨h.trusted_distinct, h.untrusted_distinct,
    h.pairing.path_iff hlength h.trusted_distinct⟩

end

end ReleaseSeal.Compare
