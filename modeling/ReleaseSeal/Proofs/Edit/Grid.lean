import ReleaseSeal.Edit.Search
import ReleaseSeal.Proofs.Edit.Distance
import ReleaseSeal.Proofs.Edit.Run

/-!
# Paths through the grid of two strings

A script of insertions and removals is a path from the starts of both strings to their ends: a kept
byte is a diagonal step, an insertion or a removal a step in one direction. Here paths may also run
past the end of a string, where they cannot keep anything; such steps are wasted, and
`Path.distance_add_le` counts them.

On every diagonal there is a furthest point that a number of edits can reach. It is found from the
furthest points of the two diagonals beside it with one edit less (`isFurthest_of_entered`).

## Key results

- `Path.distance_add_le`: a path beyond both ends has at least as many edits as the distance
- `path_distance`: some path to the ends has as many edits as the distance
- `isFurthest_of_entered`: the run behind the furthest entry leads to the furthest point
-/

namespace ReleaseSeal.Edit

/-- `Path a b d x y`: with `d` edits one gets from the starts of the strings to offset `x` of `a` and
    offset `y` of `b`. -/
inductive Path (a b : ByteArray) : Nat → Nat → Nat → Prop where
  | start : Path a b 0 0 0
  | keep {d x y : Nat} : x < a.size → y < b.size → byteAt a x = byteAt b y → Path a b d x y →
      Path a b d (x + 1) (y + 1)
  | insert {d x y : Nat} : Path a b d x y → Path a b (d + 1) x (y + 1)
  | remove {d x y : Nat} : Path a b d x y → Path a b (d + 1) (x + 1) y

/-- `Entered a b d x y`: a path of `d` edits that ends with an edit, or has not left the starts. -/
inductive Entered (a b : ByteArray) : Nat → Nat → Nat → Prop where
  | start : Entered a b 0 0 0
  | insert {d x y : Nat} : Path a b d x y → Entered a b (d + 1) x (y + 1)
  | remove {d x y : Nat} : Path a b d x y → Entered a b (d + 1) (x + 1) y

theorem Entered.path {a b : ByteArray} {d x y : Nat} (h : Entered a b d x y) : Path a b d x y := by
  cases h with
  | start => exact .start
  | insert h => exact .insert h
  | remove h => exact .remove h

namespace Path

variable {a b : ByteArray} {d x y : Nat}

/-- The edits are split into insertions and removals, which move the diagonal. -/
theorem exists_counts (h : Path a b d x y) : ∃ i r, i + r = d ∧ x + i = y + r := by
  induction h with
  | start => exact ⟨0, 0, rfl, rfl⟩
  | keep _ _ _ _ ih =>
    obtain ⟨i, r, hd, hxy⟩ := ih
    exact ⟨i, r, hd, by omega⟩
  | insert _ ih =>
    obtain ⟨i, r, hd, hxy⟩ := ih
    exact ⟨i + 1, r, by omega, by omega⟩
  | remove _ ih =>
    obtain ⟨i, r, hd, hxy⟩ := ih
    exact ⟨i, r + 1, by omega, by omega⟩

/-- The diagonal is no further from the middle than there are edits, and of the same parity. -/
theorem diagonal (h : Path a b d x y) :
    -(d : Int) ≤ (x : Int) - y ∧ (x : Int) - y ≤ d ∧ ((x : Int) - y - d) % 2 = 0 := by
  obtain ⟨i, r, hd, hxy⟩ := h.exists_counts
  omega

/-- A path goes on along a run of equal bytes. -/
theorem slide {size : Nat} (h : Path a b d x y) (hx : x + size ≤ a.size) (hy : y + size ≤ b.size)
    (hsame : Matches a b x y size) : Path a b d (x + size) (y + size) := by
  induction size with
  | zero => exact h
  | succ size ih =>
    have hpath := ih (by omega) (by omega) (hsame.mono (Nat.le_succ size))
    have hx' : x + size < a.size := by omega
    have hy' : y + size < b.size := by omega
    exact .keep hx' hy' (hsame size (Nat.lt_succ_self size)) hpath

/-- Every path consists of a path that ends with an edit and a run of equal bytes, which is within
    the strings. -/
theorem exists_entered (h : Path a b d x y) :
    ∃ x₀ y₀ size, x = x₀ + size ∧ y = y₀ + size ∧ Entered a b d x₀ y₀ ∧ Matches a b x₀ y₀ size ∧
      (0 < size → x ≤ a.size ∧ y ≤ b.size) := by
  induction h with
  | start => exact ⟨0, 0, 0, rfl, rfl, .start, matches_zero _ _ _ _, by omega⟩
  | insert h => exact ⟨_, _, 0, rfl, rfl, .insert h, matches_zero _ _ _ _, by omega⟩
  | remove h => exact ⟨_, _, 0, rfl, rfl, .remove h, matches_zero _ _ _ _, by omega⟩
  | keep hx hy hsame _ ih =>
    -- one more kept byte makes the run longer
    obtain ⟨x₀, y₀, size, rfl, rfl, hentered, hrun, _⟩ := ih
    have hlonger : Matches a b x₀ y₀ (size + 1) := hrun.add (matches_one_iff.mpr hsame)
    exact ⟨x₀, y₀, size + 1, rfl, rfl, hentered, hlonger, fun _ => by omega⟩

/-! ## Paths and scripts -/

/-- A path is a script of the bytes in front of its end, but for the steps beyond the strings. -/
theorem exists_script (h : Path a b d x y) :
    ∃ i r, Script (a.data.toList.take x) (b.data.toList.take y) i r ∧
      i + r + (x - a.size) + (y - b.size) = d := by
  induction h with
  | start => exact ⟨0, 0, .nil, by omega⟩
  | keep hx hy hsame _ ih =>
    obtain ⟨i, r, hs, hd⟩ := ih
    rw [take_data_toList_succ hx, take_data_toList_succ hy, hsame]
    exact ⟨i, r, hs.append (.refl _), by omega⟩
  | @insert d x y _ ih =>
    obtain ⟨i, r, hs, hd⟩ := ih
    by_cases hy : y < b.size
    · rw [take_data_toList_succ hy]
      have hone := hs.append (.insert (byteAt b y) .nil)
      rw [List.append_nil] at hone
      exact ⟨i + 1, r, hone, by omega⟩
    · -- there is nothing to insert beyond the end, and the step is wasted
      rw [take_data_toList_succ_of_le (by omega)]
      exact ⟨i, r, hs, by omega⟩
  | @remove d x y _ ih =>
    obtain ⟨i, r, hs, hd⟩ := ih
    by_cases hx : x < a.size
    · rw [take_data_toList_succ hx]
      have hone := hs.append (.remove (byteAt a x) .nil)
      rw [List.append_nil] at hone
      exact ⟨i, r + 1, hone, by omega⟩
    · -- nor is there anything to remove
      rw [take_data_toList_succ_of_le (by omega)]
      exact ⟨i, r, hs, by omega⟩

/-- A path beyond both ends has at least as many edits as the distance, and wastes those beyond. -/
theorem distance_add_le (h : Path a b d x y) (hx : a.size ≤ x) (hy : b.size ≤ y) :
    distance a.data.toList b.data.toList + (x - a.size) + (y - b.size) ≤ d := by
  obtain ⟨i, r, hs, hd⟩ := h.exists_script
  rw [List.take_of_length_le hx, List.take_of_length_le hy] at hs
  have hle := hs.distance_le
  omega

end Path

/-- A script of what follows a path leads it to the ends. -/
private theorem Script.path {a b : ByteArray} {old new : List UInt8} {i r d x y : Nat}
    (hs : Script old new i r) (h : Path a b d x y) (hx : x ≤ a.size) (hy : y ≤ b.size)
    (hold : a.data.toList.drop x = old) (hnew : b.data.toList.drop y = new) :
    Path a b (d + (i + r)) a.size b.size := by
  induction hs generalizing d x y with
  | nil =>
    rw [List.drop_eq_nil_iff, length_data_toList] at hold hnew
    obtain rfl : x = a.size := by omega
    obtain rfl : y = b.size := by omega
    exact h
  | keep c _ ih =>
    obtain ⟨hlx, hcx, hold⟩ := drop_data_toList_eq_cons hold
    obtain ⟨hly, hcy, hnew⟩ := drop_data_toList_eq_cons hnew
    exact ih (.keep hlx hly (hcx.trans hcy.symm) h) hlx hly hold hnew
  | @insert c _ _ i r _ ih =>
    obtain ⟨hly, _, hnew⟩ := drop_data_toList_eq_cons hnew
    have hpath := ih (.insert h) hx hly hold hnew
    rwa [show d + 1 + (i + r) = d + (i + 1 + r) by omega] at hpath
  | @remove c _ _ i r _ ih =>
    obtain ⟨hlx, _, hold⟩ := drop_data_toList_eq_cons hold
    have hpath := ih (.remove h) hlx hy hold hnew
    rwa [show d + 1 + (i + r) = d + (i + (r + 1)) by omega] at hpath

/-- Some path to the ends has as many edits as the distance. -/
theorem path_distance (a b : ByteArray) :
    Path a b (distance a.data.toList b.data.toList) a.size b.size := by
  obtain ⟨i, r, hs, hd⟩ := exists_script a.data.toList b.data.toList
  have hpath := hs.path .start (Nat.zero_le _) (Nat.zero_le _) rfl rfl
  rwa [Nat.zero_add, hd] at hpath

/-! ## Furthest points -/

/-- `x` is the furthest of the points on diagonal `k` that have a property. -/
structure IsFurthest (p : Nat → Nat → Prop) (k : Int) (x : Nat) : Prop where
  reached : ∃ y : Nat, (x : Int) - y = k ∧ p x y
  furthest : ∀ x' y' : Nat, (x' : Int) - y' = k → p x' y' → x' ≤ x

/-- The run that is followed from a point is the longest one within the strings. -/
theorem follow_isRun (a b : ByteArray) {k : Int} {x y : Nat} (hk : (x : Int) - y = k) :
    ∃ size, follow a b k x = x + size ∧
      IsRun a b x y (min (a.size - x) (b.size - y)) size := by
  have hy : ((x : Int) - k) = y := by omega
  rw [follow, hy, Int.toNat_natCast]
  split
  · exact ⟨_, rfl, commonPrefix_isRun a b x y⟩
  · rename_i hout
    rw [Bool.and_eq_true, decide_eq_true_eq, decide_eq_true_eq] at hout
    -- outside the strings there is no run
    refine ⟨0, rfl, Nat.zero_le _, matches_zero a b x y, fun hlt => ?_⟩
    omega

/-- The run behind the furthest entry of a diagonal leads to its furthest point. -/
theorem isFurthest_of_entered {a b : ByteArray} {d : Nat} {k : Int} {x : Nat}
    (h : IsFurthest (Entered a b d) k x) : IsFurthest (Path a b d) k (follow a b k x) := by
  obtain ⟨⟨y, hk, hentered⟩, hfurthest⟩ := h
  obtain ⟨size, hfollow, hle, hsame, hstop⟩ := follow_isRun a b hk
  rw [hfollow]
  constructor
  · -- the run leads from the entry to the point
    have hpath := hentered.path
    by_cases hzero : size = 0
    · exact ⟨y, by omega, by rwa [hzero]⟩
    · exact ⟨y + size, by omega, hpath.slide (by omega) (by omega) hsame⟩
  · intro x' y' hk' hpath
    obtain ⟨x₀, y₀, size', rfl, rfl, hentered', hsame', hin⟩ := hpath.exists_entered
    have hx₀ : x₀ ≤ x := hfurthest x₀ y₀ (by omega) hentered'
    -- Otherwise the other path, which entered earlier, keeps the bytes at which the run stops.
    refine Nat.le_of_not_lt fun hbeyond => ?_
    have hinside := hin (by omega)
    have hdiff := hstop (by omega)
    have hkept := hsame' (x + size - x₀) (by omega)
    rw [show x₀ + (x + size - x₀) = x + size by omega,
      show y₀ + (x + size - x₀) = y + size by omega] at hkept
    exact hdiff hkept

end ReleaseSeal.Edit
