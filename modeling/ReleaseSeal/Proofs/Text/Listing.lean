import Mathlib.Data.List.Sort
import Mathlib.Data.String.Basic

/-!
# Texts in order

Texts with a property that are listed in ascending order, each once. There is only one such list, and a
sort of texts without repetitions gives it.

## Key results

- `IsListing.unique`: texts can be listed in one way
- `pairwise_lt_mergeSort`: a sort of different texts ascends
- `pairwise_name_lt_mergeSort`: so does a sort of things by their names
- `lookup_eq_some_iff_mem`: things with distinct names are found by their names
- `nodup_eraseDups`: what is left without repetitions is different
-/

namespace ReleaseSeal.Text

/-- The texts with a property, in ascending order and each once. -/
structure IsListing (names : List String) (P : String → Prop) : Prop where
  ascending : names.Pairwise (· < ·)
  mem_iff : ∀ name, name ∈ names ↔ P name

theorem IsListing.unique {names names' : List String} {P : String → Prop} (h : IsListing names P)
    (h' : IsListing names' P) : names = names' := by
  apply h.ascending.eq_of_mem_iff h'.ascending
  intro name
  rw [h.mem_iff, h'.mem_iff]

/-- Texts that are each there once are in ascending order when they are sorted. -/
theorem pairwise_lt_mergeSort {names : List String} (h : names.Nodup) :
    (names.mergeSort fun s t => decide (s ≤ t)).Pairwise (· < ·) := by
  have hle : (names.mergeSort fun s t => decide (s ≤ t)).Pairwise (· ≤ ·) := by
    have hsorted := @List.pairwise_mergeSort _ fun s t : String => decide (s ≤ t)
    simp only [Bool.or_eq_true, decide_eq_true_eq] at hsorted
    exact hsorted (fun _ _ _ => le_trans) le_total names
  have hnodup := (List.mergeSort_perm names fun s t => decide (s ≤ t)).nodup_iff.mpr h
  exact (hle.and hnodup).imp fun h => lt_of_le_of_ne h.1 h.2

/-- Things are in order when they are sorted by their names. -/
theorem pairwise_name_le_mergeSort {α : Type} (items : List (String × α)) :
    (items.mergeSort fun a b => !decide (b.1 < a.1)).Pairwise fun a b => a.1 ≤ b.1 := by
  have hsorted := @List.pairwise_mergeSort _ fun a b : String × α => !decide (b.1 < a.1)
  simp only [Bool.or_eq_true, Bool.not_eq_true', decide_eq_false_iff_not, not_lt] at hsorted
  exact hsorted (fun _ _ _ => le_trans) (fun _ _ => le_total _ _) items

/-- Things that are in the order of their names stay as they are. -/
theorem mergeSort_name_eq_self {α : Type} {items : List (String × α)}
    (h : items.Pairwise fun a b => a.1 ≤ b.1) :
    (items.mergeSort fun a b => !decide (b.1 < a.1)) = items := by
  apply List.mergeSort_of_pairwise
  refine h.imp fun hle => ?_
  simpa only [Bool.not_eq_true', decide_eq_false_iff_not, not_lt] using hle

/-- Things with distinct names are in ascending order when they are sorted by their names. -/
theorem pairwise_name_lt_mergeSort {α : Type} {items : List (String × α)}
    (h : (items.map (·.1)).Nodup) :
    (items.mergeSort fun a b => !decide (b.1 < a.1)).Pairwise fun a b => a.1 < b.1 := by
  have hperm := (List.mergeSort_perm items fun a b => !decide (b.1 < a.1)).map (·.1)
  have hne := List.pairwise_map.mp (hperm.nodup_iff.mpr h)
  exact ((pairwise_name_le_mergeSort items).and hne).imp fun h => lt_of_le_of_ne h.1 h.2

/-- Things with distinct names have distinct names still when some of them are picked. -/
theorem nodup_names_filterMap {α β : Type} {items : List (String × α)}
    {pick : String × α → Option (String × β)} (hpick : ∀ a b, pick a = some b → b.1 = a.1)
    (h : (items.map (·.1)).Nodup) : ((items.filterMap pick).map (·.1)).Nodup := by
  rw [List.Nodup, List.pairwise_map] at h ⊢
  apply h.filterMap
  intro a a' hne b hb b' hb'
  rw [hpick a b hb, hpick a' b' hb']
  exact hne

/-- Things with distinct names are found by their names. -/
theorem lookup_eq_some_iff_mem {α : Type} {items : List (String × α)} (h : (items.map (·.1)).Nodup)
    {name : String} {a : α} : items.lookup name = some a ↔ (name, a) ∈ items := by
  rw [List.lookup_eq_some_iff]
  constructor
  · rintro ⟨before, after, rfl, -⟩
    simp
  · intro hmem
    obtain ⟨before, after, rfl⟩ := List.append_of_mem hmem
    refine ⟨before, after, rfl, fun other hother => ?_⟩
    -- what stands in front of it has another name
    rw [List.map_append, List.nodup_append] at h
    have hne := h.2.2 other.1 (List.mem_map_of_mem hother) name (by simp)
    simpa using Ne.symm hne

theorem nodup_eraseDups (names : List String) : names.eraseDups.Nodup := by
  match names with
  | [] => simp
  | first :: rest =>
    rw [List.eraseDups_cons, List.nodup_cons]
    constructor
    · -- the first name is taken out of the rest
      simp [List.mem_eraseDups]
    · exact nodup_eraseDups _
termination_by names.length
decreasing_by
  simp only [List.length_cons]
  exact Nat.lt_succ_of_le (List.length_filter_le _ _)

end ReleaseSeal.Text
