import ReleaseSeal.Proofs.Edit.Summary

/-!
# Summaries in both directions

The search for differences does not treat its two strings alike: it prefers removals to insertions where
both lead equally far. What it finds is the same nevertheless, since a summary is determined by the
distance, the limit and the lengths, and the parity that all of them have in common leaves nothing to
round: the other direction has as many insertions as this one has removals.

## Key results

- `core_comm`: what two strings have in common at their ends does not depend on their order
- `summarize_comm`: the summary of the other direction
-/

namespace ReleaseSeal.Edit

/-! ## What two strings have in common -/

/-- The common prefix of two strings is the same in both directions. -/
theorem dropCommon_comm (old new : List UInt8) : dropCommon new old = (dropCommon old new).swap := by
  fun_induction dropCommon old new with
  | case1 old c new ih => rw [dropCommon, if_pos rfl, ih]
  | case2 c old e new hne => rw [dropCommon, if_neg (Ne.symm hne), Prod.swap_prod_mk]
  | case3 old new hno =>
    -- one of the strings is empty
    cases old with
    | nil => cases new <;> rfl
    | cons c old =>
      cases new with
      | nil => rfl
      | cons e new => exact absurd rfl (hno c old e new rfl)

/-- What two strings do not have in common at their ends is the same in both directions. -/
theorem core_comm (old new : List UInt8) : core new old = (core old new).swap := by
  simp only [core, dropCommon_comm old new, Prod.fst_swap, Prod.snd_swap,
    dropCommon_comm (dropCommon old new).1.reverse (dropCommon old new).2.reverse, Prod.swap_prod_mk]

/-! ## Summaries -/

namespace Summary

/-- The summary of the other direction: what was inserted is removed. -/
def mirrored (s : Summary) : Summary :=
  { insertions := s.removals, removals := s.insertions, capped := s.capped }

@[simp] theorem capped_mirrored (s : Summary) : s.mirrored.capped = s.capped := rfl

@[simp] theorem total_mirrored (s : Summary) : s.mirrored.total = s.total :=
  Int.add_comm s.removals s.insertions

/-- A total of the right parity is split the other way around in the other direction. -/
theorem ofTotal_neg {total delta : Int} (capped : Bool) (h : (total - delta) % 2 = 0) :
    ofTotal total (-delta) capped = (ofTotal total delta capped).mirrored := by
  simp only [ofTotal, mirrored, mk.injEq, and_true]
  omega

/-- The lower bound of a total is the same in both directions. -/
theorem lowerBound_neg (limit : Nat) (delta : Int) :
    lowerBound limit (-delta) = lowerBound limit delta := by
  have hparity (n : Int) : (n - -delta) % 2 = 0 ↔ (n - delta) % 2 = 0 := by omega
  simp only [lowerBound, Int.natAbs_neg, hparity]

end Summary

/-- The summary of the other direction has the insertions as removals and the removals as insertions,
    whether the search gave up or not. -/
theorem summarize_comm (old new : ByteArray) (limit : Nat) :
    summarize new old limit = (summarize old new limit).mirrored := by
  have hdelta : (old.size : Int) - new.size = -((new.size : Int) - old.size) := by omega
  have hparity := (distance_parity old.data.toList new.data.toList).2
  rw [length_data_toList, length_data_toList] at hparity
  have hbound := (Summary.lowerBound_spec limit ((new.size : Int) - old.size)).2.2.1
  rw [summarize_eq, summarize_eq, distance_comm new.data.toList, hdelta, Summary.lowerBound_neg,
    Summary.ofTotal_neg true hbound, Summary.ofTotal_neg false hparity]
  -- both directions give up in the same cases
  simp only [core_comm old.data.toList, Prod.fst_swap, Prod.snd_swap,
    and_comm (a := (core old.data.toList new.data.toList).2 ≠ [])]
  exact (apply_ite Summary.mirrored ..).symm

end ReleaseSeal.Edit
