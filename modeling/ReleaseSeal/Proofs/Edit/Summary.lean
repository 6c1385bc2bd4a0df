import ReleaseSeal.Edit.Summary
import ReleaseSeal.Proofs.Edit.Search

/-!
# Summaries are exact, or lower bounds

A summary is determined by the edit distance of the two strings, the difference of their lengths and
the limit (`summarize_eq`). The lengths fix how many more insertions than removals every script has,
so the number of edits and that difference have the same parity; a summary that is capped gives the
least total above the limit that has it.

## Key results

- `remainders_eq_core`: what is searched is what the strings do not have in common at their ends
- `summarize_eq`: the summary in terms of the distance
- `summarize_exact`: an uncapped summary is exact, a capped one is a lower bound above the limit
-/

namespace ReleaseSeal.Edit

/-! ## The remainders -/

/-- The bytes at a common start, the remainders and the bytes at a common end make the strings, and
    the remainders have nothing more in common where they were cut. -/
private theorem exists_remainders (old new : ByteArray) :
    ∃ start finish : List UInt8,
      let a := (remainders old new).1.data.toList
      let b := (remainders old new).2.data.toList
      old.data.toList = start ++ (a ++ finish) ∧ new.data.toList = start ++ (b ++ finish) ∧
      (∀ c, (a ++ finish).head? = some c → (b ++ finish).head? ≠ some c) ∧
      (∀ c, a.getLast? = some c → b.getLast? ≠ some c) := by
  obtain ⟨hple, hpsame, hpstop⟩ := commonPrefix_isRun old new 0 0
  generalize hp : commonPrefix old new 0 0 = p at hple hpsame hpstop
  generalize ha : old.extract p old.size = a
  generalize hb : new.extract p new.size = b
  have hasize : a.size = old.size - p := by rw [← ha, ByteArray.size_extract]; omega
  have hbsize : b.size = new.size - p := by rw [← hb, ByteArray.size_extract]; omega
  have hal : a.data.toList = old.data.toList.drop p := by
    rw [← ha, data_toList_extract, ← length_data_toList, List.take_length]
  have hbl : b.data.toList = new.data.toList.drop p := by
    rw [← hb, data_toList_extract, ← length_data_toList, List.take_length]
  obtain ⟨hsle, hssame, hsstop⟩ :=
    commonSuffix_isEndRun (Nat.min_le_left a.size b.size) (Nat.min_le_right a.size b.size)
  generalize hs : commonSuffix a b (min a.size b.size) = s at hsle hssame hsstop
  have hrem : remainders old new = (a.extract 0 (a.size - s), b.extract 0 (b.size - s)) := by
    simp only [remainders, hp, ha, hb, hs]
  -- the ends are equal as lists
  have hfinish : a.data.toList.drop (a.size - s) = b.data.toList.drop (b.size - s) := by
    have heq := (hssame.matches (by omega) (by omega)).take_drop_eq (by omega) (by omega)
    rwa [List.take_of_length_le, List.take_of_length_le] at heq
    · rw [List.length_drop, length_data_toList]; omega
    · rw [List.length_drop, length_data_toList]; omega
  have hstart : old.data.toList.take p = new.data.toList.take p := by
    have heq := hpsame.take_drop_eq (by omega) (by omega)
    rwa [List.drop_zero, List.drop_zero] at heq
  refine ⟨old.data.toList.take p, a.data.toList.drop (a.size - s), ?_⟩
  simp only [hrem, data_toList_extract, List.drop_zero, List.take_append_drop]
  refine ⟨?_, ?_, ?_, ?_⟩
  · rw [hal, List.take_append_drop]
  · rw [hstart, hfinish, List.take_append_drop, hbl, List.take_append_drop]
  · rw [hfinish, List.take_append_drop, hal, hbl]
    simp only [List.head?_drop]
    intro c hc hc'
    obtain ⟨hlt, rfl⟩ := List.getElem?_eq_some_iff.mp hc
    obtain ⟨hlt', hc'⟩ := List.getElem?_eq_some_iff.mp hc'
    rw [length_data_toList] at hlt hlt'
    refine hpstop (by omega) ?_
    rw [Nat.zero_add, byteAt_eq_getElem hlt, byteAt_eq_getElem hlt', hc']
  · simp only [List.getLast?_eq_getElem?, List.length_take, length_data_toList, List.getElem?_take]
    intro c hc hc'
    split at hc
    · split at hc'
      · obtain ⟨hlt, rfl⟩ := List.getElem?_eq_some_iff.mp hc
        obtain ⟨hlt', hc'⟩ := List.getElem?_eq_some_iff.mp hc'
        refine hsstop (by omega) ?_
        rw [← byteAt_eq_getElem, ← byteAt_eq_getElem] at hc'
        rw [show a.size - s - 1 = min (a.size - s) a.size - 1 by omega,
          show b.size - s - 1 = min (b.size - s) b.size - 1 by omega, hc']
      · exact nomatch hc'
    · exact nomatch hc

/-- What is searched is what two strings do not have in common at their starts and then at their
    ends. -/
theorem remainders_eq_core (old new : ByteArray) :
    core old.data.toList new.data.toList =
      ((remainders old new).1.data.toList, (remainders old new).2.data.toList) := by
  obtain ⟨start, finish, hold, hnew, hstart, hfinish⟩ := exists_remainders old new
  rw [hold, hnew]
  exact core_eq hstart hfinish

/-- The remainders differ in length as the strings do. -/
theorem size_remainders (old new : ByteArray) :
    ((remainders old new).2.size : Int) - (remainders old new).1.size = new.size - old.size := by
  obtain ⟨start, finish, hold, hnew, _⟩ := exists_remainders old new
  have ho := congrArg List.length hold
  have hn := congrArg List.length hnew
  simp only [List.length_append, length_data_toList] at ho hn
  omega

/-! ## Totals -/

namespace Summary

/-- However a total is split, it stays the same. -/
theorem total_ofTotal (n delta : Int) (capped : Bool) : (ofTotal n delta capped).total = n := by
  simp only [total, ofTotal]
  omega

/-- A total of the right parity is split without a remainder. -/
theorem ofTotal_spec {total delta : Int} (capped : Bool) (h : (total - delta) % 2 = 0) :
    2 * (ofTotal total delta capped).insertions = total + delta ∧
      2 * (ofTotal total delta capped).removals = total - delta := by
  simp only [ofTotal]
  omega

/-- The least total above a limit is above it, has the parity of the difference of the lengths, and is
    not above any other such total. -/
theorem lowerBound_spec (limit : Nat) (delta : Int) :
    limit < lowerBound limit delta ∧ delta.natAbs ≤ lowerBound limit delta ∧
      (lowerBound limit delta - delta) % 2 = 0 ∧
      ∀ total : Int, limit < total → delta.natAbs ≤ total → (total - delta) % 2 = 0 →
        lowerBound limit delta ≤ total := by
  simp only [lowerBound]
  split <;> refine ⟨by omega, by omega, by omega, fun total _ _ _ => by omega⟩

end Summary

/-- A distance is at least the difference of the lengths, and has its parity. -/
theorem distance_parity (old new : List UInt8) :
    ((new.length : Int) - old.length).natAbs ≤ distance old new ∧
      (distance old new - ((new.length : Int) - old.length)) % 2 = 0 := by
  obtain ⟨i, r, hs, hd⟩ := exists_script old new
  have hlen := hs.length_add
  omega

/-- It is enough to remove one string and to insert the other. -/
theorem distance_le_add (old new : List UInt8) :
    distance old new ≤ old.length + new.length := by
  have hs := (Script.insert_all old).symm.append (Script.insert_all new)
  rw [List.append_nil, List.nil_append] at hs
  have hle := hs.distance_le
  omega

/-! ## Summaries -/

/-- The summary of remainders in terms of their distance. -/
theorem Summary.ofRemainders_eq (a b : ByteArray) (limit : Nat) :
    ofRemainders a b limit =
      if limit < distance a.data.toList b.data.toList ∧ a.data.toList ≠ [] ∧ b.data.toList ≠ [] then
        ofTotal (lowerBound limit ((b.size : Int) - a.size)) ((b.size : Int) - a.size) true
      else
        ofTotal (distance a.data.toList b.data.toList) ((b.size : Int) - a.size) false := by
  have ha := length_data_toList a
  have hb := length_data_toList b
  simp only [ofRemainders, ne_eq, ← List.length_eq_zero_iff, ha, hb, Bool.or_eq_true,
    decide_eq_true_eq]
  split
  · -- nothing is searched: the distance is the length of the other remainder
    rename_i hempty
    rw [if_neg (by omega)]
    congr 1
    obtain hempty | hempty := hempty
    · rw [List.length_eq_zero_iff.mp (ha.trans hempty), distance_nil, hb, hempty]
      omega
    · rw [List.length_eq_zero_iff.mp (hb.trans hempty), distance_nil_right, ha, hempty]
      omega
  · have hle := distance_le_add a.data.toList b.data.toList
    rw [search_eq]
    by_cases hlimit : distance a.data.toList b.data.toList ≤ limit
    · rw [if_pos (by omega), if_neg (by omega)]
    · rw [if_neg (by omega), if_pos (by omega)]

/-- The summary in terms of the distance: it is capped if the distance is above the limit, unless one
    of the strings has only bytes that are common to both. -/
theorem summarize_eq (old new : ByteArray) (limit : Nat) :
    summarize old new limit =
      if limit < distance old.data.toList new.data.toList ∧
          (core old.data.toList new.data.toList).1 ≠ [] ∧
          (core old.data.toList new.data.toList).2 ≠ [] then
        Summary.ofTotal (Summary.lowerBound limit ((new.size : Int) - old.size))
          ((new.size : Int) - old.size) true
      else
        Summary.ofTotal (distance old.data.toList new.data.toList)
          ((new.size : Int) - old.size) false := by
  have hdistance := distance_core old.data.toList new.data.toList
  rw [remainders_eq_core] at hdistance
  show Summary.ofRemainders (remainders old new).1 (remainders old new).2 limit = _
  rw [Summary.ofRemainders_eq, size_remainders, hdistance, remainders_eq_core]

/-- A summary is exact or a lower bound. With `D` the least number of edits that turn `old` into
    `new`: the counts are not negative and account for the difference of the lengths; without a cap
    the total is `D`; with one it is above the limit and not above `D`, and neither count is above
    that of a minimal script. It is capped exactly if `D` is above the limit and both strings have
    bytes left without their longest common prefix and then their longest common suffix. -/
theorem summarize_exact (old new : ByteArray) (limit : Nat) :
    ∃ D : Nat,
      IsLeast {n | ∃ i r, Edits old.data.toList new.data.toList i r ∧ n = i + r} D ∧
      0 ≤ (summarize old new limit).insertions ∧ 0 ≤ (summarize old new limit).removals ∧
      (summarize old new limit).insertions - (summarize old new limit).removals =
        (new.size : Int) - old.size ∧
      ((summarize old new limit).capped = false → (summarize old new limit).total = D) ∧
      ((summarize old new limit).capped = true →
        limit < (summarize old new limit).total ∧ (summarize old new limit).total ≤ D ∧
        ∀ i r, Edits old.data.toList new.data.toList i r → i + r = D →
          (summarize old new limit).insertions ≤ i ∧ (summarize old new limit).removals ≤ r) ∧
      ((summarize old new limit).capped = true ↔
        limit < D ∧ (core old.data.toList new.data.toList).1 ≠ [] ∧
          (core old.data.toList new.data.toList).2 ≠ []) := by
  refine ⟨distance old.data.toList new.data.toList, distance_isLeast _ _, ?_⟩
  obtain ⟨hmin, hparity⟩ := distance_parity old.data.toList new.data.toList
  rw [length_data_toList, length_data_toList] at hmin hparity
  rw [summarize_eq]
  split
  · rename_i hcap
    obtain ⟨habove, hdelta, hlparity, hleast⟩ :=
      Summary.lowerBound_spec limit ((new.size : Int) - old.size)
    have hbound := hleast _ (Int.ofNat_lt.mpr hcap.1) (Int.ofNat_le.mpr hmin) hparity
    obtain ⟨hins, hrem⟩ := Summary.ofTotal_spec true hlparity
    refine ⟨by omega, by omega, by omega, fun hno => (nomatch hno), fun _ => ?_, ?_⟩
    · refine ⟨?_, ?_, fun i r he hd => ?_⟩
      · rw [Summary.total]
        omega
      · rw [Summary.total]
        omega
      · -- a minimal sequence of edits has the counts of its script, which the lengths tell
        obtain ⟨i', r', hs, hi, hr⟩ := he.exists_script
        have hle := hs.distance_le
        have hlen := hs.length_add
        rw [length_data_toList, length_data_toList] at hlen
        omega
    · exact ⟨fun _ => hcap, fun _ => rfl⟩
  · rename_i hcap
    obtain ⟨hins, hrem⟩ := Summary.ofTotal_spec false hparity
    refine ⟨by omega, by omega, by omega, fun _ => by rw [Summary.total]; omega,
      fun hno => (nomatch hno), fun hno => (nomatch hno), fun h => absurd h hcap⟩

end ReleaseSeal.Edit
