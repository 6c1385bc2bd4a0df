import ReleaseSeal.Proofs.Compare.Result

/-!
# The order of entries

By path, the order in which archives list their entries makes no difference but to the order of the
verdicts, which is that of the trusted entries. By position, entries that are compared without a
mismatch have the same result as by path; what is asked in addition is that both archives list their
paths in the same order.

## Key results

- `Reports.reorder`: the result of the same entries in another order
- `compareArchives_reordered`: what another order changes by path
- `compareArchives_position_eq_ok_iff`: by position there is the result by path, or none
-/

namespace ReleaseSeal.Compare

open Archive (Entry)

variable {o : Options} {trusted trusted' untrusted untrusted' : List Entry}
  {pairs : List (Entry × Entry)} {c : Comparison}

/-! ## By path -/

/-- Archives have the same common root in any order of their entries. -/
theorem commonRoot_perm {suffix root : String} (ht : trusted.Perm trusted')
    (hu : untrusted.Perm untrusted') :
    commonRoot suffix trusted untrusted = .ok root ↔
      commonRoot suffix trusted' untrusted' = .ok root := by
  simp only [commonRoot_eq_ok_iff, ht.length_eq, hu.length_eq, Bundle.root?_perm (ht.map Entry.path),
    Bundle.root?_perm (hu.map Entry.path)]

namespace Reports

/-- The verdicts on reordered pairs make a result of the reordered entries. -/
theorem of_perm [Host] {pairs' : List (Entry × Entry)} {verdicts : List Verdict}
    (h : Reports o trusted untrusted pairs c) (ht : trusted.Perm trusted')
    (hu : untrusted.Perm untrusted') (hpairs : pairs.Perm pairs')
    (hpairing : IsPairing trusted' untrusted' pairs')
    (hverdicts : List.Forall₂ (Accepts o c.mainExecutable) (judged pairs') verdicts) :
    Reports o trusted' untrusted' pairs' { c with verdicts } where
  root := (commonRoot_perm ht hu).mp h.root
  layout := Bundle.Layout.find_perm h.trusted_distinct ht ▸ h.layout
  trusted_distinct := (ht.map _).nodup_iff.mp h.trusted_distinct
  untrusted_distinct := (hu.map _).nodup_iff.mp h.untrusted_distinct
  pairing := hpairing
  verdicts := hverdicts
  coreSize := h.coreSize.perm (hpairs.filter _)

/-- Reordered entries have a result that differs in the order of the verdicts only. -/
theorem reorder [Host] (h : Reports o trusted untrusted pairs c) (ht : trusted.Perm trusted')
    (hu : untrusted.Perm untrusted') :
    ∃ pairs' verdicts, verdicts.Perm c.verdicts ∧
      Reports o trusted' untrusted' pairs' { c with verdicts } := by
  obtain ⟨pairs', hpairs, hpairing⟩ := h.pairing.reorder ht hu
  -- the verdicts go along with the pairs that they are on
  have hjudged : (judged pairs').Perm (judged pairs) := hpairs.symm.filter _
  obtain ⟨verdicts, hverdicts, hperm⟩ := List.perm_comp_forall₂ hjudged h.verdicts
  exact ⟨pairs', verdicts, hperm, h.of_perm ht hu hpairs hpairing hverdicts⟩

/-- Only the trusted entries give an order to the result. -/
theorem reorder_untrusted [Host] (h : Reports o trusted untrusted pairs c)
    (hu : untrusted.Perm untrusted') : Reports o trusted untrusted' pairs c :=
  have hpairing : IsPairing trusted untrusted' pairs :=
    { h.pairing with snd_mem := fun pair hpair => hu.mem_iff.mp (h.pairing.snd_mem pair hpair) }
  h.of_perm (.refl _) hu (.refl _) hpairing h.verdicts

/-- The verdicts are in the order of the trusted entries. -/
theorem verdicts_sublist [Host] (h : Reports o trusted untrusted pairs c) :
    (c.verdicts.map Verdict.path).Sublist (trusted.map Entry.path) := by
  rw [h.map_path, ← h.pairing.fst, List.map_map]
  exact List.filter_sublist.map _

end Reports

/-- By path, reordered archives are compared without a mismatch if the archives are. -/
theorem exists_compareArchives_of_perm [Host] (hby : o.pairBy = .path) (ht : trusted.Perm trusted')
    (hu : untrusted.Perm untrusted') (h : compareArchives trusted untrusted o = .ok c) :
    ∃ verdicts, verdicts.Perm c.verdicts ∧
      compareArchives trusted' untrusted' o = .ok { c with verdicts } := by
  obtain ⟨pairs, hreports⟩ := exists_reports h
  obtain ⟨pairs', verdicts, hperm, hreports'⟩ := hreports.reorder ht hu
  exact ⟨verdicts, hperm, (compareArchives_path_eq_ok_iff hby).mpr ⟨pairs', hreports'⟩⟩

/-- By path, the order of the entries does not matter. Archives have a result exactly if they have one
    with their entries in another order. The results differ in the order of the verdicts only, and
    these are in the order of the trusted entries, among which no path occurs twice; another order of
    the untrusted entries alone changes nothing. -/
theorem compareArchives_reordered [Host] (hby : o.pairBy = .path) (ht : trusted.Perm trusted')
    (hu : untrusted.Perm untrusted') :
    ((∃ c, compareArchives trusted untrusted o = .ok c) ↔
      ∃ c', compareArchives trusted' untrusted' o = .ok c') ∧
    (∀ c c', compareArchives trusted untrusted o = .ok c →
      compareArchives trusted' untrusted' o = .ok c' →
        c'.root = c.root ∧ c'.mainExecutable = c.mainExecutable ∧ c'.coreSize = c.coreSize ∧
          c'.info = c.info ∧ c'.verdicts.Perm c.verdicts ∧ (trusted'.map Entry.path).Nodup ∧
          (c'.verdicts.map Verdict.path).Sublist (trusted'.map Entry.path)) ∧
    ∀ c, compareArchives trusted untrusted' o = .ok c ↔
      compareArchives trusted untrusted o = .ok c := by
  refine ⟨⟨?_, ?_⟩, fun c c' hc hc' => ?_, fun c => ?_⟩
  · rintro ⟨c, hc⟩
    obtain ⟨verdicts, -, hc'⟩ := exists_compareArchives_of_perm hby ht hu hc
    exact ⟨_, hc'⟩
  · rintro ⟨c', hc'⟩
    obtain ⟨verdicts, -, hc⟩ := exists_compareArchives_of_perm hby ht.symm hu.symm hc'
    exact ⟨_, hc⟩
  · obtain ⟨verdicts, hperm, hsame⟩ := exists_compareArchives_of_perm hby ht hu hc
    obtain ⟨pairs', hreports'⟩ := exists_reports hc'
    have hdistinct := hreports'.trusted_distinct
    have hsublist := hreports'.verdicts_sublist
    obtain rfl := Except.ok.inj (hsame.symm.trans hc')
    exact ⟨rfl, rfl, rfl, rfl, hperm, hdistinct, hsublist⟩
  · simp only [compareArchives_path_eq_ok_iff hby]
    exact ⟨fun ⟨pairs, h⟩ => ⟨pairs, h.reorder_untrusted hu.symm⟩,
      fun ⟨pairs, h⟩ => ⟨pairs, h.reorder_untrusted hu⟩⟩

/-- A file and a main executable from which a byte is removed, in another order. -/
theorem compareArchives_reordered_main_executable :
    let e := fileWith "A.app/a" 0 ⟨#[7]⟩
    let t := fileWith "A.app/Contents/MacOS/A" 1 ⟨#[1, 2]⟩
    let u := fileWith "A.app/Contents/MacOS/A" 2 ⟨#[1]⟩
    let o : Options := { Options.standard with permitted := 1, permitted_le := by decide }
    let c : Comparison :=
      { root := "A.app", mainExecutable := some t.path, coreSize := 2, info := none,
        verdicts := [.identical e.path, .tolerated t.path (some 1) none] }
    o.pairBy = .path ∧ [e, t].Perm [t, e] ∧ [e, u].Perm [u, e] ∧
      compareArchives [e, t] [e, u] o = .ok c ∧ compareArchives [e, t] [u, e] o = .ok c ∧
      ∃ c', compareArchives [t, e] [u, e] o = .ok c' ∧ c'.coreSize = 2 ∧
        c'.verdicts.Perm c.verdicts ∧ (c'.verdicts.map Verdict.path).Sublist [t.path, e.path] := by
  intro e t u o c
  have hroot : Bundle.root? o.suffix ([e, t].map Entry.path) = some "A.app" :=
    Bundle.root?_of_forall (by simp) (by decide) (by decide)
  have hlayout : Bundle.Layout.find [e, t] "A.app" ".app" =
      .ok { executable := some "A.app/Contents/MacOS/A", info := none } := rfl
  have hsame : Accepts o c.mainExecutable (e, e) (.identical e.path) :=
    ⟨judge_eq_ok_iff.mpr (.inl ⟨⟨rfl, rfl⟩, rfl⟩), fun ⟨_, _, hno⟩ => nomatch hno⟩
  have hmain : Accepts o c.mainExecutable (t, u) (.tolerated t.path (some 1) none) :=
    ⟨judge_eq_tolerated (fun hno => absurd hno.1 (by decide)) (by decide) (x := ⟨#[1, 2]⟩)
      (y := ⟨#[1]⟩) rfl rfl rfl (by decide), fun ⟨_, _, hno⟩ => nomatch hno⟩
  have hreports : Reports o [e, t] [e, u] [(e, e), (t, u)] c :=
    { root := commonRoot_eq_ok_iff.mpr ⟨rfl, hroot, hroot⟩
      layout := hlayout
      trusted_distinct := by decide
      untrusted_distinct := by decide
      pairing := ⟨rfl, by simp, by simp [show t.path = u.path from rfl]⟩
      verdicts := .cons hsame (.cons hmain .nil)
      coreSize := .inr ⟨(t, u), List.mem_cons_of_mem _ List.mem_cons_self, rfl, rfl⟩ }
  have hc : compareArchives [e, t] [e, u] o = .ok c :=
    (compareArchives_path_eq_ok_iff rfl).mpr ⟨_, hreports⟩
  have ht : [e, t].Perm [t, e] := .swap t e []
  have hu : [e, u].Perm [u, e] := .swap u e []
  obtain ⟨hexists, hsame, huntrusted⟩ := compareArchives_reordered (o := o) rfl ht hu
  obtain ⟨c', hc'⟩ := hexists.mp ⟨c, hc⟩
  obtain ⟨-, -, hsize, -, hperm, -, hsublist⟩ := hsame c c' hc hc'
  exact ⟨rfl, ht, hu, hc, (huntrusted c).mpr hc, c', hc', hsize, hperm, hsublist⟩

/-! ## By position -/

/-- The way of pairing makes no difference to whether something is a result of some pairs. -/
theorem Reports.with_pairBy [Host] (h : Reports o trusted untrusted pairs c) (by' : PairBy) :
    Reports { o with pairBy := by' } trusted untrusted pairs c :=
  ⟨h.root, h.layout, h.trusted_distinct, h.untrusted_distinct, h.pairing, h.verdicts, h.coreSize⟩

/-- By position, a comparison gives a result exactly if both archives list the same paths in the same
    order and the comparison by path gives that result. -/
theorem compareArchives_position_eq_ok_iff [Host] :
    compareArchives trusted untrusted { o with pairBy := .position } = .ok c ↔
      trusted.map Entry.path = untrusted.map Entry.path ∧
        compareArchives trusted untrusted { o with pairBy := .path } = .ok c := by
  rw [compareArchives_path_eq_ok_iff (o := { o with pairBy := .path }) rfl,
    compareArchives_eq_ok_iff_reports]
  constructor
  · rintro ⟨hstop, pairs, h⟩
    obtain ⟨hlength, -⟩ := commonRoot_eq_ok_iff.mp h.root
    obtain ⟨-, -, hpaths⟩ := (Pairing.of_position_stop_eq_none_iff hlength).mp hstop
    exact ⟨hpaths, pairs, h.with_pairBy .path⟩
  · rintro ⟨hpaths, pairs, h⟩
    obtain ⟨hlength, -⟩ := commonRoot_eq_ok_iff.mp h.root
    exact ⟨(Pairing.of_position_stop_eq_none_iff hlength).mpr
      ⟨h.trusted_distinct, h.untrusted_distinct, hpaths⟩, pairs, h.with_pairBy .position⟩

end ReleaseSeal.Compare
