import ReleaseSeal.Bundle.Root
import ReleaseSeal.Proofs.Text.Listing
import ReleaseSeal.Proofs.Text.Segments

/-!
# The one root of a bundle

Paths have a root exactly if there is one first segment that is the first segment of some path and of
no path another one, and it has the suffix. Paths without a first segment do not count.

## Key results

- `inOrder_eq_singleton_iff`: when there is just one name
- `isListing_roots`: all roots of paths
- `root?_eq_some_iff`: when paths have a root
- `root?_perm`: the order of the paths does not matter
-/

namespace ReleaseSeal.Bundle

/-- A name is the first segment of some of the paths, and no other name is one of any of them. -/
def IsOnlyRoot (paths : List String) (root : String) : Prop :=
  ∀ name, (∃ path ∈ paths, rootOf? path = some name) ↔ name = root

/-- A root is a single segment. -/
theorem segments_of_rootOf? {path root : String} (h : rootOf? path = some root) :
    Text.segments root = [root] := by
  have hmem : root ∈ Text.segments path := by
    unfold rootOf? at h
    split at h
    · exact nomatch h
    · rename_i first rest hsegments
      rw [hsegments]
      split at h
      · exact List.mem_cons_of_mem _ (List.mem_of_head? h)
      · exact Option.some.inj h ▸ List.mem_cons_self
  exact Text.segments_of_mem hmem

/-- One name is left without repetitions if there are names and all of them are the same. -/
private theorem eraseDups_eq_singleton_iff {names : List String} {root : String} :
    names.eraseDups = [root] ↔ ∀ name, name ∈ names ↔ name = root := by
  constructor
  · intro h name
    rw [← List.mem_eraseDups, h, List.mem_singleton]
  · intro h
    cases names with
    | nil => exact absurd ((h root).mpr rfl) List.not_mem_nil
    | cons first names =>
      have hfirst : first = root := (h first).mp List.mem_cons_self
      -- nothing is left behind the first name
      have hrest : names.filter (fun name => !name == first) = [] := by
        rw [List.filter_eq_nil_iff]
        intro name hname
        rw [(h name).mp (List.mem_cons_of_mem _ hname), hfirst]
        simp
      rw [List.eraseDups_cons, hrest, List.eraseDups_nil, hfirst]

/-- There is just one name in order if there are names and all of them are the same. -/
theorem inOrder_eq_singleton_iff {names : List String} {root : String} :
    inOrder names = [root] ↔ ∀ name, name ∈ names ↔ name = root := by
  rw [← eraseDups_eq_singleton_iff]
  constructor
  · intro h
    have hperm := List.mergeSort_perm names.eraseDups fun a b => !decide (b < a)
    rw [show names.eraseDups.mergeSort (fun a b => !decide (b < a)) = [root] from h] at hperm
    exact List.perm_singleton.mp hperm.symm
  · intro h
    rw [inOrder, h, List.mergeSort_singleton]

theorem isListing_inOrder (names : List String) : Text.IsListing (inOrder names) (· ∈ names) := by
  have hsort : inOrder names = names.eraseDups.mergeSort fun s t => decide (s ≤ t) := by
    simp only [inOrder, ← decide_not, not_lt]
  rw [hsort]
  constructor
  · exact Text.pairwise_lt_mergeSort (Text.nodup_eraseDups names)
  · intro name
    simp

/-- The roots of paths are their first segments. -/
theorem isListing_roots (paths : List String) :
    Text.IsListing (roots paths) fun name => ∃ path ∈ paths, rootOf? path = some name := by
  have hlisting := isListing_inOrder (paths.filterMap rootOf?)
  simp only [List.mem_filterMap] at hlisting
  exact hlisting

/-- Paths have a root exactly if it is the only one and has the suffix. -/
theorem root?_eq_some_iff {suffix root : String} {paths : List String} :
    root? suffix paths = some root ↔
      Text.endsWith root suffix = true ∧ IsOnlyRoot paths root := by
  have honly (name : String) : roots paths = [name] ↔ IsOnlyRoot paths name := by
    simp only [roots, inOrder_eq_singleton_iff, List.mem_filterMap, IsOnlyRoot]
  rw [root?, ← honly]
  split
  · rename_i name hname
    rw [hname]
    split
    · rename_i hsuffix
      simp only [Option.some.injEq, List.cons.injEq, and_true]
      exact ⟨fun h => ⟨h ▸ hsuffix, h⟩, And.right⟩
    · rename_i hsuffix
      simp only [reduceCtorEq, List.cons.injEq, and_true, false_iff, not_and]
      exact fun h hname => hsuffix (hname ▸ h)
  · rename_i hseveral
    exact ⟨fun h => (nomatch h), fun h => absurd h.2 (hseveral root)⟩

/-- Paths have the same root in any order. -/
theorem root?_perm {suffix : String} {paths paths' : List String} (h : paths.Perm paths') :
    root? suffix paths = root? suffix paths' := by
  refine Option.ext fun root => ?_
  simp only [root?_eq_some_iff, IsOnlyRoot, h.mem_iff]

/-- Paths that have the same first segment have it as root. -/
theorem root?_of_forall {suffix root : String} {paths : List String} (hpaths : paths ≠ [])
    (hroot : ∀ path ∈ paths, rootOf? path = some root) (hsuffix : Text.endsWith root suffix = true) :
    root? suffix paths = some root := by
  refine root?_eq_some_iff.mpr ⟨hsuffix, fun name => ?_⟩
  constructor
  · rintro ⟨path, hpath, hname⟩
    exact Option.some.inj (hname.symm.trans (hroot path hpath))
  · rintro rfl
    obtain ⟨path, hpath⟩ := List.exists_mem_of_ne_nil paths hpaths
    exact ⟨path, hpath, hroot path hpath⟩

/-- A single path has its first segment as root. -/
theorem root?_singleton {suffix root path : String} (hroot : rootOf? path = some root)
    (hsuffix : Text.endsWith root suffix = true) : root? suffix [path] = some root :=
  root?_of_forall (List.cons_ne_nil _ _) (by simpa using hroot) hsuffix

end ReleaseSeal.Bundle
