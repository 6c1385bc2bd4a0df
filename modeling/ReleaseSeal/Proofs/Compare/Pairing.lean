import Mathlib.Data.List.Nodup
import Mathlib.Data.List.Perm.Subperm
import ReleaseSeal.Compare.Pairing

/-!
# Which entries are paired

A pairing that ends well has every trusted entry once, in order, each with the untrusted entry of the
same path; if no path occurs twice, these are all pairs of entries with one path. By path, a pairing
ends well exactly if no path occurs twice and both archives have the same paths.

## Key results

- `IsPairing.mem_iff` / `IsPairing.unique`: the pairs are all pairs of entries with one path, and no
  other pairs are
- `IsPairing.path_iff`: both archives have the same paths
- `IsPairing.reorder`: pairs of entries in another order
- `of_stop_eq_none`: what a pairing that ends well gives, by path or by position
- `of_path_stop_eq_none_iff` / `of_position_stop_eq_none_iff`: when pairing by path, or by position,
  ends well
-/

namespace ReleaseSeal.Compare

open Archive (Entry)

/-- Pairs that go through the trusted entries in order, each with an untrusted entry of its path. -/
structure IsPairing (trusted untrusted : List Entry) (pairs : List (Entry × Entry)) : Prop where
  fst : pairs.map (·.1) = trusted
  snd_mem : ∀ pair ∈ pairs, pair.2 ∈ untrusted
  path_eq : ∀ pair ∈ pairs, pair.1.path = pair.2.path

/-- If no path occurs twice, the pairs are all pairs of entries with one path. -/
theorem IsPairing.mem_iff {trusted untrusted : List Entry} {pairs : List (Entry × Entry)}
    (h : IsPairing trusted untrusted pairs) (hdistinct : (untrusted.map Entry.path).Nodup)
    {t u : Entry} : (t, u) ∈ pairs ↔ t ∈ trusted ∧ u ∈ untrusted ∧ t.path = u.path := by
  constructor
  · intro hmem
    refine ⟨?_, h.snd_mem _ hmem, h.path_eq _ hmem⟩
    rw [← h.fst]
    exact List.mem_map_of_mem hmem
  · rintro ⟨ht, hu, hpath⟩
    rw [← h.fst] at ht
    obtain ⟨⟨t, other⟩, hmem, rfl⟩ := List.mem_map.mp ht
    -- the partner is the only untrusted entry of the path
    have hother : other = u := List.inj_on_of_nodup_map hdistinct (h.snd_mem _ hmem) hu
      ((h.path_eq _ hmem).symm.trans hpath)
    rwa [hother] at hmem

/-- If no path occurs twice, only these pairs go through the trusted entries. -/
theorem IsPairing.unique {trusted untrusted : List Entry} {pairs pairs' : List (Entry × Entry)}
    (h : IsPairing trusted untrusted pairs) (h' : IsPairing trusted untrusted pairs')
    (hdistinct : (untrusted.map Entry.path).Nodup) : pairs = pairs' := by
  have hfst : pairs.map (·.1) = pairs'.map (·.1) := h.fst.trans h'.fst.symm
  refine List.ext_getElem (by simpa using congrArg List.length hfst) fun i hi hi' => ?_
  have hsame : pairs[i].1 = pairs'[i].1 := by
    simpa [hi, hi'] using congrArg (·[i]?) hfst
  -- both partners have the path of the trusted entry
  have hpath := h.path_eq _ (List.getElem_mem hi)
  have hpath' := h'.path_eq _ (List.getElem_mem hi')
  rw [hsame] at hpath
  exact Prod.ext hsame (List.inj_on_of_nodup_map hdistinct (h.snd_mem _ (List.getElem_mem hi))
    (h'.snd_mem _ (List.getElem_mem hi')) (hpath.symm.trans hpath'))

/-- Archives of one length have the same paths, if no path occurs twice in the trusted one. -/
theorem IsPairing.path_iff {trusted untrusted : List Entry} {pairs : List (Entry × Entry)}
    (h : IsPairing trusted untrusted pairs) (hlength : trusted.length = untrusted.length)
    (hdistinct : (trusted.map Entry.path).Nodup) (path : String) :
    path ∈ trusted.map Entry.path ↔ path ∈ untrusted.map Entry.path := by
  have hsubset : trusted.map Entry.path ⊆ untrusted.map Entry.path := by
    intro path hpath
    rw [← h.fst, List.map_map] at hpath
    obtain ⟨pair, hpair, rfl⟩ := List.mem_map.mp hpath
    exact List.mem_map.mpr ⟨pair.2, h.snd_mem _ hpair, (h.path_eq _ hpair).symm⟩
  -- as many different paths as there are entries leave no other path
  have hperm : (trusted.map Entry.path).Perm (untrusted.map Entry.path) :=
    (List.subperm_of_subset hdistinct hsubset).perm_of_length_le (by simp [hlength])
  exact hperm.mem_iff

/-- Entries in another order have the same pairs, in the order of the trusted ones. -/
theorem IsPairing.reorder {trusted trusted' untrusted untrusted' : List Entry}
    {pairs : List (Entry × Entry)} (h : IsPairing trusted untrusted pairs)
    (ht : trusted.Perm trusted') (hu : untrusted.Perm untrusted') :
    ∃ pairs', pairs.Perm pairs' ∧ IsPairing trusted' untrusted' pairs' := by
  have hfst : List.Forall₂ (fun t pair => pair.1 = t) trusted pairs := by
    rw [← h.fst, List.forall₂_map_left_iff, List.forall₂_same]
    exact fun _ _ => rfl
  obtain ⟨pairs', hfst', hperm⟩ := List.perm_comp_forall₂ ht.symm hfst
  refine ⟨pairs', hperm.symm, ?_, fun pair hpair => ?_, fun pair hpair => ?_⟩
  · rw [← List.forall₂_eq_eq_eq, List.forall₂_map_left_iff]
    exact hfst'.flip
  · exact hu.mem_iff.mp (h.snd_mem _ (hperm.mem_iff.mp hpair))
  · exact h.path_eq _ (hperm.mem_iff.mp hpair)

namespace Pairing

/-! ## Paths that occur twice, and missing ones -/

/-- No path repeats an earlier one if none occurs twice and none is among the earlier ones. -/
private theorem repeated?_eq_none_iff {earlier paths : List String} :
    repeated? earlier paths = none ↔ paths.Nodup ∧ ∀ path ∈ paths, path ∉ earlier := by
  induction paths generalizing earlier with
  | nil => simp [repeated?]
  | cons path rest ih =>
    rw [repeated?]
    by_cases hseen : path ∈ earlier
    · simp [hseen]
    · rw [if_neg (by simpa using hseen), ih, List.nodup_cons, List.forall_mem_cons]
      simp only [List.mem_cons, not_or]
      -- the path itself is one of the earlier ones for the rest
      constructor
      · rintro ⟨hnodup, hrest⟩
        exact ⟨⟨fun hmem => (hrest path hmem).1 rfl, hnodup⟩, hseen,
          fun other hother => (hrest other hother).2⟩
      · rintro ⟨⟨hnew, hnodup⟩, -, hrest⟩
        refine ⟨hnodup, fun other hother => ⟨?_, hrest other hother⟩⟩
        rintro rfl
        exact hnew hother

theorem duplicate?_eq_none_iff {entries : List Entry} :
    duplicate? entries = none ↔ (entries.map Entry.path).Nodup := by
  simp [duplicate?, repeated?_eq_none_iff]

/-- The first path that repeats an earlier one has different paths in front of it, and is one of them if it
    is none of the earlier ones. -/
private theorem repeated?_eq_some_iff {earlier paths : List String} {path : String} :
    repeated? earlier paths = some path ↔ ∃ before after, paths = before ++ path :: after ∧
      before.Nodup ∧ (∀ other ∈ before, other ∉ earlier) ∧ (path ∈ before ∨ path ∈ earlier) := by
  induction paths generalizing earlier with
  | nil => simp [repeated?]
  | cons first rest ih =>
    rw [repeated?]
    by_cases hseen : first ∈ earlier
    · rw [if_pos (by simpa using hseen), Option.some.injEq]
      constructor
      · rintro rfl
        exact ⟨[], rest, rfl, .nil, by simp, .inr hseen⟩
      · rintro ⟨before, after, hpaths, -, hnew, -⟩
        -- nothing can be in front of it
        cases before with
        | nil => exact (List.cons.inj hpaths).1
        | cons other before =>
          obtain ⟨rfl, -⟩ := List.cons.inj hpaths
          exact absurd hseen (hnew first List.mem_cons_self)
    · rw [if_neg (by simpa using hseen), ih]
      constructor
      · rintro ⟨before, after, rfl, hnodup, hnew, hpath⟩
        refine ⟨first :: before, after, rfl, ?_, ?_, ?_⟩
        · exact List.nodup_cons.mpr ⟨fun hmem => hnew first hmem List.mem_cons_self, hnodup⟩
        · exact List.forall_mem_cons.mpr
            ⟨hseen, fun other hother h => hnew other hother (List.mem_cons_of_mem _ h)⟩
        · simpa [or_assoc, or_left_comm] using hpath
      · rintro ⟨before, after, hpaths, hnodup, hnew, hpath⟩
        cases before with
        | nil =>
          obtain ⟨rfl, -⟩ := List.cons.inj hpaths
          simp [hseen] at hpath
        | cons other before =>
          obtain ⟨rfl, rfl⟩ := List.cons.inj hpaths
          obtain ⟨hother, hnodup⟩ := List.nodup_cons.mp hnodup
          refine ⟨before, after, rfl, hnodup, ?_, ?_⟩
          · intro path' hpath' hmem
            obtain rfl | hmem := List.mem_cons.mp hmem
            · exact hother hpath'
            · exact hnew path' (List.mem_cons_of_mem _ hpath') hmem
          · simpa [or_assoc, or_left_comm] using hpath

/-- The path that occurs twice is the first that is among those in front of it. -/
theorem duplicate?_eq_some_iff {entries : List Entry} {path : String} :
    duplicate? entries = some path ↔ ∃ before after,
      entries.map Entry.path = before ++ path :: after ∧ before.Nodup ∧ path ∈ before := by
  simp [duplicate?, repeated?_eq_some_iff]

theorem missing?_eq_none_iff {entries others : List Entry} :
    missing? entries others = none ↔
      ∀ path, path ∈ entries.map Entry.path → path ∈ others.map Entry.path := by
  simp [missing?]

/-! ## By position -/

/-- Archives of one length are paired by position to the end if their paths agree in order. -/
private theorem byPosition_stop_eq_none_iff {trusted untrusted : List Entry}
    (hlength : trusted.length = untrusted.length) :
    (byPosition trusted untrusted).stop = none ↔
      trusted.map Entry.path = untrusted.map Entry.path := by
  induction trusted generalizing untrusted with
  | nil =>
    obtain rfl := List.length_eq_zero_iff.mp hlength.symm
    exact ⟨fun _ => rfl, fun _ => rfl⟩
  | cons t trusted ih =>
    cases untrusted with
    | nil => exact nomatch hlength
    | cons u untrusted =>
      rw [byPosition, List.map_cons, List.map_cons, List.cons.injEq]
      split
      · rename_i hpath
        simp only [hpath, true_and]
        exact ih (Nat.succ.inj hlength)
      · rename_i hpath
        simp [failed, hpath]

/-- Entries that are paired by position to the end are all of them. -/
private theorem byPosition_isPairing {trusted untrusted : List Entry}
    (hlength : trusted.length = untrusted.length)
    (hstop : (byPosition trusted untrusted).stop = none) :
    IsPairing trusted untrusted (byPosition trusted untrusted).pairs := by
  -- the lengths are equal, so that neither list ends before the other
  induction trusted generalizing untrusted with
  | nil => exact ⟨rfl, fun _ hno => (nomatch hno), fun _ hno => (nomatch hno)⟩
  | cons t trusted ih =>
    cases untrusted with
    | nil => exact nomatch hlength
    | cons u untrusted =>
      rw [byPosition] at hstop ⊢
      split at hstop
      · rename_i hpath
        rw [if_pos hpath]
        obtain ⟨hfst, hsnd, hpaths⟩ := ih (Nat.succ.inj hlength) hstop
        constructor
        · rw [List.map_cons, hfst]
        · simp only [List.forall_mem_cons, List.mem_cons_self, true_and]
          exact fun pair hpair => List.mem_cons_of_mem _ (hsnd pair hpair)
        · simp only [List.forall_mem_cons]
          exact ⟨hpath, hpaths⟩
      · exact nomatch hstop

/-! ## By path -/

/-- Pairing by path ends well if both archives have the same paths. -/
private theorem byPath_stop_eq_none_iff {trusted untrusted : List Entry} :
    (byPath trusted untrusted).stop = none ↔
      ∀ path, path ∈ trusted.map Entry.path ↔ path ∈ untrusted.map Entry.path := by
  unfold byPath
  simp only [iff_iff_implies_and_implies, forall_and, ← missing?_eq_none_iff]
  split
  · rename_i hmissing
    simp [failed, hmissing]
  · rename_i hmissing
    simp [failed, hmissing]
  · rename_i htrusted huntrusted
    simp [htrusted, huntrusted]

private theorem byPath_isPairing {trusted untrusted : List Entry}
    (hstop : (byPath trusted untrusted).stop = none) :
    IsPairing trusted untrusted (byPath trusted untrusted).pairs := by
  have hpaths := byPath_stop_eq_none_iff.mp hstop
  have htrusted : missing? trusted untrusted = none :=
    missing?_eq_none_iff.mpr fun path => (hpaths path).mp
  have huntrusted : missing? untrusted trusted = none :=
    missing?_eq_none_iff.mpr fun path => (hpaths path).mpr
  -- a partner is an untrusted entry of the same path
  have hfound {t u : Entry} (h : untrusted.find? (fun u => u.path == t.path) = some u) :
      u ∈ untrusted ∧ t.path = u.path := by
    have hsame := List.find?_some h
    exact ⟨List.mem_of_find?_eq_some h, (beq_iff_eq.mp hsame).symm⟩
  simp only [byPath, htrusted, huntrusted]
  constructor
  · -- no trusted entry is lost, since each has a partner
    have hkept : ∀ t ∈ trusted,
        (((untrusted.find? fun u => u.path == t.path).map (t, ·)).map (·.1)) = some t := by
      intro t ht
      obtain ⟨u, hu, hpath⟩ := List.mem_map.mp ((hpaths t.path).mp (List.mem_map_of_mem ht))
      cases hpartner : untrusted.find? fun u => u.path == t.path with
      | some _ => rfl
      | none =>
        rw [List.find?_eq_none] at hpartner
        exact absurd (beq_iff_eq.mpr hpath) (hpartner u hu)
    rw [List.map_filterMap, List.filterMap_congr hkept, List.filterMap_some]
  · intro pair hpair
    obtain ⟨t, -, hpair⟩ := List.mem_filterMap.mp hpair
    obtain ⟨u, hu, rfl⟩ := Option.map_eq_some_iff.mp hpair
    exact (hfound hu).1
  · intro pair hpair
    obtain ⟨t, -, hpair⟩ := List.mem_filterMap.mp hpair
    obtain ⟨u, hu, rfl⟩ := Option.map_eq_some_iff.mp hpair
    exact (hfound hu).2

/-! ## Both ways -/

/-- A pairing ends well if no path occurs twice and the entries are paired to the end. -/
private theorem of_stop_eq_none_iff {trusted untrusted : List Entry} {by' : PairBy} :
    (of trusted untrusted by').stop = none ↔
      (trusted.map Entry.path).Nodup ∧ (untrusted.map Entry.path).Nodup ∧
        (match by' with
          | .path => byPath trusted untrusted
          | .position => byPosition trusted untrusted).stop = none := by
  rw [← duplicate?_eq_none_iff, ← duplicate?_eq_none_iff]
  unfold of
  split
  · rename_i hduplicate
    simp [failed, hduplicate]
  · rename_i hduplicate
    simp [failed, hduplicate]
  · rename_i htrusted huntrusted
    cases by' <;> simp [htrusted, huntrusted]

/-- A pairing that ends well is one of all entries, and no path occurs twice. -/
theorem of_stop_eq_none {trusted untrusted : List Entry} {by' : PairBy}
    (hlength : trusted.length = untrusted.length)
    (hstop : (of trusted untrusted by').stop = none) :
    (trusted.map Entry.path).Nodup ∧ (untrusted.map Entry.path).Nodup ∧
      IsPairing trusted untrusted (of trusted untrusted by').pairs := by
  unfold of at hstop ⊢
  split at hstop
  · exact nomatch hstop
  · exact nomatch hstop
  · rename_i htrusted huntrusted
    refine ⟨duplicate?_eq_none_iff.mp htrusted, duplicate?_eq_none_iff.mp huntrusted, ?_⟩
    cases by' with
    | path => exact byPath_isPairing hstop
    | position => exact byPosition_isPairing hlength hstop

/-- Pairing by path ends well exactly if no path occurs twice and both archives have the same
    paths. -/
theorem of_path_stop_eq_none_iff {trusted untrusted : List Entry} :
    (of trusted untrusted .path).stop = none ↔
      (trusted.map Entry.path).Nodup ∧ (untrusted.map Entry.path).Nodup ∧
        ∀ path, path ∈ trusted.map Entry.path ↔ path ∈ untrusted.map Entry.path := by
  rw [of_stop_eq_none_iff, byPath_stop_eq_none_iff]

/-- Pairing archives of one length by position ends well exactly if no path occurs twice and both
    have the same paths in the same order. -/
theorem of_position_stop_eq_none_iff {trusted untrusted : List Entry}
    (hlength : trusted.length = untrusted.length) :
    (of trusted untrusted .position).stop = none ↔
      (trusted.map Entry.path).Nodup ∧ (untrusted.map Entry.path).Nodup ∧
        trusted.map Entry.path = untrusted.map Entry.path := by
  rw [of_stop_eq_none_iff, byPosition_stop_eq_none_iff hlength]

private theorem mem_of_mem_byPosition {trusted untrusted : List Entry} {pair : Entry × Entry}
    (h : pair ∈ (byPosition trusted untrusted).pairs) :
    pair.1 ∈ trusted ∧ pair.2 ∈ untrusted ∧ pair.1.path = pair.2.path := by
  induction trusted generalizing untrusted with
  | nil => cases h
  | cons t trusted ih =>
    cases untrusted with
    | nil => cases h
    | cons u untrusted =>
      rw [byPosition] at h
      split at h
      · rename_i hpath
        obtain rfl | hrest := List.mem_cons.mp h
        · exact ⟨List.mem_cons_self, List.mem_cons_self, hpath⟩
        · obtain ⟨ht, hu, hpath⟩ := ih hrest
          exact ⟨List.mem_cons_of_mem _ ht, List.mem_cons_of_mem _ hu, hpath⟩
      · cases h

private theorem mem_of_mem_byPath {trusted untrusted : List Entry} {pair : Entry × Entry}
    (h : pair ∈ (byPath trusted untrusted).pairs) :
    pair.1 ∈ trusted ∧ pair.2 ∈ untrusted ∧ pair.1.path = pair.2.path := by
  unfold byPath at h
  split at h
  · cases h
  · cases h
  · obtain ⟨t, ht, hpair⟩ := List.mem_filterMap.mp h
    obtain ⟨u, hu, rfl⟩ := Option.map_eq_some_iff.mp hpair
    have hpath := List.find?_some hu
    exact ⟨ht, List.mem_of_find?_eq_some hu, (beq_iff_eq.mp hpath).symm⟩

/-- Whether or not a pairing ends well, its pairs are of a trusted and an untrusted entry of one path. -/
theorem mem_of_mem_pairs {trusted untrusted : List Entry} {by' : PairBy} {pair : Entry × Entry}
    (h : pair ∈ (of trusted untrusted by').pairs) :
    pair.1 ∈ trusted ∧ pair.2 ∈ untrusted ∧ pair.1.path = pair.2.path := by
  unfold of at h
  split at h
  · cases h
  · cases h
  · cases by' with
    | path => exact mem_of_mem_byPath h
    | position => exact mem_of_mem_byPosition h

/-- Two archives that have one entry each, of the same path. -/
theorem of_singleton {t u : Entry} (hpath : t.path = u.path) (by' : PairBy) :
    of [t] [u] by' = { pairs := [(t, u)], stop := none } := by
  cases by' <;> simp [of, duplicate?, repeated?, byPath, missing?, byPosition, hpath]

end Pairing

end ReleaseSeal.Compare
