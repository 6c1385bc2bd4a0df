import ReleaseSeal.Compare.Archives
import ReleaseSeal.Proofs.Bundle.Root
import ReleaseSeal.Proofs.Compare.Pairing
import ReleaseSeal.Proofs.Compare.Verdict

/-!
# The run of a comparison

A comparison goes through the pairs in order and keeps one verdict of each that is not a pair of
directories; it ends well exactly if none of these verdicts is a mismatch. What it has found out
before, the root and the main executable, stays as it is.

## Key results

- `addPair_eq_ok_iff`: what judging one pair does
- `foldlM_addPair_eq_ok` / `exists_foldlM_addPair_iff`: what judging all pairs gives, and when it does
- `foldlM_addPair_eq_error`: a mismatch ends the run
- `compareArchives_eq_ok_iff`: the parts of a comparison
-/

namespace ReleaseSeal.Compare

open Archive (Entry)

/-- Both entries of a pair are directories, so that it is not judged. -/
def AreDirs (pair : Entry × Entry) : Prop :=
  pair.1.isDir = true ∧ pair.2.isDir = true

instance (pair : Entry × Entry) : Decidable (AreDirs pair) :=
  inferInstanceAs (Decidable (_ ∧ _))

/-- The pairs that are judged. -/
def judged (pairs : List (Entry × Entry)) : List (Entry × Entry) :=
  pairs.filter fun pair => ¬AreDirs pair

/-- The verdict on a pair, if it is not a mismatch; the path tells which is the main executable. -/
def Accepts (o : Options) (main? : Option String) (pair : Entry × Entry) (v : Verdict) : Prop :=
  judge pair.1 pair.2 (main? == some pair.1.path) o = .ok v ∧ ¬v.IsFatal

/-- A comparison before the first pair is judged. -/
def Comparison.start (root : String) (layout : Bundle.Layout) : Comparison :=
  { root, mainExecutable := layout.executable, coreSize := 0, info := layout.info, verdicts := [] }

/-! ## One pair -/

/-- A pair of directories changes nothing; any other pair adds its verdict, if that is not a
    mismatch. -/
theorem addPair_eq_ok_iff {o : Options} {c c' : Comparison} {pair : Entry × Entry} :
    c.addPair o pair = .ok c' ↔
      (AreDirs pair ∧ c' = c) ∨
      (¬AreDirs pair ∧ ∃ v, Accepts o c.mainExecutable pair v ∧
        c' = { c with
          coreSize := if c.mainExecutable == some pair.1.path then pair.1.size else c.coreSize,
          verdicts := c.verdicts ++ [v] }) := by
  obtain ⟨t, u⟩ := pair
  simp only [Comparison.addPair, AreDirs, Bool.and_eq_true, Accepts]
  by_cases hdirs : t.isDir = true ∧ u.isDir = true
  · simp only [hdirs, and_self, if_true, true_and, not_true, false_and, or_false, pure_eq_ok]
    exact eq_comm
  · simp only [hdirs, if_false, false_and, false_or, not_false_eq_true, true_and, bind_eq_ok]
    -- only a mismatch ends the step; any other verdict is added
    constructor
    · rintro ⟨v, hv, h⟩
      refine ⟨v, ⟨hv, ?_⟩, ?_⟩
      · rintro ⟨path, reason, rfl⟩
        exact nomatch h
      · cases v with
        | fatal path reason => exact nomatch h
        | identical path => exact (pure_eq_ok.mp h).symm
        | tolerated path count category => exact (pure_eq_ok.mp h).symm
    · rintro ⟨v, ⟨hv, haccepted⟩, rfl⟩
      refine ⟨v, hv, ?_⟩
      cases v with
      | fatal path reason => exact absurd ⟨path, reason, rfl⟩ haccepted
      | identical path => rfl
      | tolerated path count category => rfl

theorem addPair_mainExecutable {o : Options} {c c' : Comparison} {pair : Entry × Entry}
    (h : c.addPair o pair = .ok c') : c'.mainExecutable = c.mainExecutable := by
  obtain ⟨-, rfl⟩ | ⟨-, v, -, rfl⟩ := addPair_eq_ok_iff.mp h <;> rfl

/-! ## All pairs -/

/-- Judging pairs keeps the main executable and adds one verdict for each pair that is judged, in
    order, and no mismatch. -/
theorem foldlM_addPair_eq_ok {o : Options} {pairs : List (Entry × Entry)} {c c' : Comparison}
    (h : pairs.foldlM (Comparison.addPair o) c = .ok c') :
    c'.mainExecutable = c.mainExecutable ∧
      ∃ vs, c'.verdicts = c.verdicts ++ vs ∧
        List.Forall₂ (Accepts o c.mainExecutable) (judged pairs) vs := by
  induction pairs generalizing c with
  | nil =>
    obtain rfl := pure_eq_ok.mp h
    exact ⟨rfl, [], by simp, .nil⟩
  | cons pair pairs ih =>
    rw [List.foldlM_cons, bind_eq_ok] at h
    obtain ⟨next, hnext, hrest⟩ := h
    -- the verdicts on the rest follow the one on this pair, if it has one
    obtain ⟨hmain, vs, hverdicts, hvs⟩ := ih hrest
    rw [addPair_mainExecutable hnext] at hmain hvs
    refine ⟨hmain, ?_⟩
    obtain ⟨hdirs, rfl⟩ | ⟨hdirs, v, hv, rfl⟩ := addPair_eq_ok_iff.mp hnext
    · refine ⟨vs, hverdicts, ?_⟩
      rwa [judged, List.filter_cons_of_neg (by simpa using hdirs)]
    · refine ⟨v :: vs, by simp [hverdicts], ?_⟩
      rw [judged, List.filter_cons_of_pos (by simpa using hdirs)]
      exact .cons hv hvs

/-- Pairs can all be judged exactly if every one that is judged is accepted. -/
theorem exists_foldlM_addPair_iff {o : Options} {pairs : List (Entry × Entry)} {c : Comparison} :
    (∃ c', pairs.foldlM (Comparison.addPair o) c = .ok c') ↔
      ∀ pair ∈ pairs, ¬AreDirs pair → ∃ v, Accepts o c.mainExecutable pair v := by
  induction pairs generalizing c with
  | nil => exact ⟨fun _ pair hpair => (nomatch hpair), fun _ => ⟨c, rfl⟩⟩
  | cons pair pairs ih =>
    simp only [List.foldlM_cons, bind_eq_ok, List.forall_mem_cons]
    constructor
    · rintro ⟨c', next, hnext, hrest⟩
      have hpairs := ih.mp ⟨c', hrest⟩
      rw [addPair_mainExecutable hnext] at hpairs
      refine ⟨fun hdirs => ?_, hpairs⟩
      obtain ⟨hyes, -⟩ | ⟨-, v, hv, -⟩ := addPair_eq_ok_iff.mp hnext
      · exact absurd hyes hdirs
      · exact ⟨v, hv⟩
    · rintro ⟨hpair, hpairs⟩
      -- the run goes on behind a pair of directories or an accepted pair
      have hstep : ∃ next, c.addPair o pair = .ok next := by
        by_cases hdirs : AreDirs pair
        · exact ⟨c, addPair_eq_ok_iff.mpr (.inl ⟨hdirs, rfl⟩)⟩
        · obtain ⟨v, hv⟩ := hpair hdirs
          exact ⟨_, addPair_eq_ok_iff.mpr (.inr ⟨hdirs, v, hv, rfl⟩)⟩
      obtain ⟨next, hnext⟩ := hstep
      rw [← addPair_mainExecutable hnext] at hpairs
      obtain ⟨c', hrest⟩ := ih.mpr hpairs
      exact ⟨c', next, hnext, hrest⟩

/-- A pair that is judged a mismatch ends the run, if every pair in front of it is accepted. -/
theorem foldlM_addPair_eq_error {o : Options} {before after : List (Entry × Entry)}
    {pair : Entry × Entry} {c : Comparison} {path : String} {reason : Mismatch}
    (hbefore : ∀ p ∈ before, ¬AreDirs p → ∃ v, Accepts o c.mainExecutable p v)
    (hdirs : ¬AreDirs pair)
    (hjudge : judge pair.1 pair.2 (c.mainExecutable == some pair.1.path) o =
      .ok (.fatal path reason)) :
    (before ++ pair :: after).foldlM (Comparison.addPair o) c = .error (.mismatch reason) := by
  obtain ⟨c', hrun⟩ := exists_foldlM_addPair_iff.mpr hbefore
  obtain ⟨t, u⟩ := pair
  -- the run has not changed which entry is the main executable
  rw [← (foldlM_addPair_eq_ok hrun).1] at hjudge
  have hstep : c'.addPair o (t, u) = .error (.mismatch reason) := by
    have hnot : ¬(t.isDir && u.isDir) = true := fun h => hdirs (Bool.and_eq_true_iff.mp h)
    simp only [Comparison.addPair, if_neg hnot, hjudge]
    rfl
  rw [List.foldlM_append]
  refine bind_eq_error.mpr (.inr ⟨c', hrun, ?_⟩)
  rw [List.foldlM_cons]
  exact bind_eq_error.mpr (.inl hstep)

/-- Without a mismatch every verdict is one of equal entries or of a tolerated difference. -/
theorem identicalCount_add_length_tolerated {c : Comparison} (h : ∀ v ∈ c.verdicts, ¬v.IsFatal) :
    c.identicalCount + c.tolerated.length = c.verdicts.length := by
  unfold Comparison.identicalCount Comparison.tolerated
  generalize c.verdicts = verdicts at h
  induction verdicts with
  | nil => rfl
  | cons v verdicts ih =>
    rw [List.forall_mem_cons] at h
    have hrest := ih h.2
    cases v with
    | fatal path reason => exact absurd ⟨path, reason, rfl⟩ h.1
    | identical path =>
      rw [List.countP_cons_of_pos rfl, List.filter_cons_of_neg Bool.false_ne_true,
        List.length_cons]
      omega
    | tolerated path count category =>
      rw [List.countP_cons_of_neg Bool.false_ne_true, List.filter_cons_of_pos rfl, List.length_cons,
        List.length_cons]
      omega

/-! ## The whole comparison -/

theorem findRoot_eq_ok_iff {suffix root : String} {entries : List Entry} :
    findRoot suffix entries = .ok root ↔
      Bundle.root? suffix (entries.map Entry.path) = some root := by
  simp only [findRoot]
  split
  · rename_i found hfound
    simp [hfound]
  · rename_i hfound
    simp [hfound]

/-- Archives have a common root exactly if they have equally many entries and each has that root. -/
theorem commonRoot_eq_ok_iff {suffix root : String} {trusted untrusted : List Entry} :
    commonRoot suffix trusted untrusted = .ok root ↔
      trusted.length = untrusted.length ∧
        Bundle.root? suffix (trusted.map Entry.path) = some root ∧
        Bundle.root? suffix (untrusted.map Entry.path) = some root := by
  -- the numbers of entries are compared before the roots are looked for
  unfold commonRoot
  by_cases hlength : trusted.length = untrusted.length
  · simp only [hlength, ne_eq, not_true, if_false, bind_eq_ok, findRoot_eq_ok_iff, true_and]
    constructor
    · rintro ⟨name, hname, other, hother, h⟩
      split at h
      · rename_i hsame
        obtain rfl := pure_eq_ok.mp h
        exact ⟨hname, hsame ▸ hother⟩
      · exact nomatch h
    · rintro ⟨hname, hother⟩
      exact ⟨root, hname, root, hother, by rw [if_pos rfl]; rfl⟩
  · simp [hlength]

/-- The parts of a comparison: the common root, the layout of the trusted bundle, the run through the
    pairs, and that the pairing ends well. -/
theorem compareArchives_eq_ok_iff [Host] {trusted untrusted : List Entry} {o : Options} {c : Comparison} :
    compareArchives trusted untrusted o = .ok c ↔
      ∃ root layout, commonRoot o.suffix trusted untrusted = .ok root ∧
        Bundle.Layout.find trusted root o.suffix = .ok layout ∧
        (Pairing.of trusted untrusted o.pairBy).pairs.foldlM (Comparison.addPair o)
          (.start root layout) = .ok c ∧
        (Pairing.of trusted untrusted o.pairBy).stop = none := by
  simp only [compareArchives, bind_eq_ok, mapError_eq_ok]
  constructor
  · rintro ⟨root, hroot, layout, hlayout, c', hrun, h⟩
    split at h
    · exact nomatch h
    · rename_i hstop
      obtain rfl := pure_eq_ok.mp h
      exact ⟨root, layout, hroot, hlayout, hrun, hstop⟩
  · rintro ⟨root, layout, hroot, hlayout, hrun, hstop⟩
    exact ⟨root, hroot, layout, hlayout, c, hrun, by rw [hstop]; rfl⟩

/-- A comparison fails as the run through the pairs does. -/
theorem compareArchives_eq_error [Host] {trusted untrusted : List Entry} {o : Options} {root : String}
    {layout : Bundle.Layout} {failure : Failure}
    (hroot : commonRoot o.suffix trusted untrusted = .ok root)
    (hlayout : Bundle.Layout.find trusted root o.suffix = .ok layout)
    (hrun : (Pairing.of trusted untrusted o.pairBy).pairs.foldlM (Comparison.addPair o)
      (.start root layout) = .error failure) :
    compareArchives trusted untrusted o = .error failure := by
  unfold compareArchives
  refine bind_eq_error.mpr (.inr ⟨root, mapError_eq_ok.mpr hroot, ?_⟩)
  refine bind_eq_error.mpr (.inr ⟨layout, hlayout, ?_⟩)
  exact bind_eq_error.mpr (.inl hrun)

/-- A comparison of two archives that have one entry each, of the same path. -/
theorem compareArchives_singleton [Host] {t u : Entry} {o : Options} {root : String}
    {layout : Bundle.Layout} {v : Verdict} (hpath : t.path = u.path)
    (hroot : Bundle.root? o.suffix [t.path] = some root)
    (hlayout : Bundle.Layout.find [t] root o.suffix = .ok layout) (hdirs : ¬AreDirs (t, u))
    (hv : Accepts o layout.executable (t, u) v) :
    compareArchives [t] [u] o = .ok {
      root, mainExecutable := layout.executable,
      coreSize := if layout.executable == some t.path then t.size else 0,
      info := layout.info, verdicts := [v] } := by
  have hpairing := Pairing.of_singleton hpath o.pairBy
  refine compareArchives_eq_ok_iff.mpr ⟨root, layout, ?_, hlayout, ?_, by rw [hpairing]⟩
  · exact commonRoot_eq_ok_iff.mpr ⟨rfl, hroot, by rwa [hpath] at hroot⟩
  · rw [hpairing, List.foldlM_cons, bind_eq_ok]
    exact ⟨_, addPair_eq_ok_iff.mpr (.inr ⟨hdirs, v, hv, rfl⟩), rfl⟩

/-- A file, with a checksum that may be wrong. -/
def fileWith (path : String) (checksum : Int) (bytes : ByteArray) : Entry :=
  { path, size := bytes.size, checksum, isDir := false, payload := some (.pure (.ok bytes)) }

end ReleaseSeal.Compare
