import ReleaseSeal.Proofs.Edit.Grid

/-!
# The search finds the least number of edits

Round `d` of the search stores, for every diagonal that `d` edits can reach, the furthest point there.
It finds them from the points of the round before, which are on the diagonals of the other parity, so
that writing the new points in place disturbs none that is still to be read.

A round reaches the ends of both strings exactly if some path of as many edits does, and a path that
runs past an end wastes edits. So the first round that reaches the ends is that of the distance.

## Key results

- `isFurthest_entry`: where a round enters a diagonal is the furthest entry
- `round_spec`: what a round stores, and when it stops
- `search_eq`: the search yields the distance if it is within the limit
-/

namespace ReleaseSeal.Edit

/-! ## The frontier -/

/-- A stored point is there, and the others stay. -/
theorem Frontier.point_put {v : Frontier} {offset : Nat} {k k' : Int} (x : Nat)
    (hk : 0 ≤ offset + k) (hsize : offset + k < v.size) (hk' : 0 ≤ offset + k') :
    (v.put offset k x).point offset k' = if k' = k then x else v.point offset k' := by
  simp only [Frontier.put, Frontier.point, Array.getD_eq_getD_getElem?, Array.getElem?_setIfInBounds]
  by_cases h : k' = k
  · subst h
    rw [if_pos rfl, if_pos rfl, if_pos (by omega), Option.getD_some]
  · rw [if_neg h, if_neg (by omega)]

@[simp] theorem Frontier.size_put (v : Frontier) (offset : Nat) (k : Int) (x : Nat) :
    (v.put offset k x).size = v.size := by
  rw [Frontier.put, Array.size_setIfInBounds]

/-- The frontier that the search begins with holds zeros only. -/
@[simp] theorem Frontier.point_replicate (size offset : Nat) (k : Int) :
    Frontier.point (Array.replicate size 0) offset k = 0 := by
  rw [Frontier.point, Array.getD_eq_getD_getElem?, Array.getElem?_replicate]
  split <;> rfl

/-! ## Entering a diagonal -/

/-- The frontier holds the furthest points that `d` edits can reach. -/
def Settled (a b : ByteArray) (offset d : Nat) (v : Frontier) : Prop :=
  ∀ k : Int, -d ≤ k → k ≤ d → (k - d) % 2 = 0 → IsFurthest (Path a b d) k (v.point offset k)

/-- What the frontier holds before round `d`. The first round enters its only diagonal by the initial
    value on the one above. -/
def Prepared (a b : ByteArray) (offset : Nat) : Nat → Frontier → Prop
  | 0, v => v.point offset 1 = 0
  | d + 1, v => Settled a b offset d v

/-- Where a later round enters a diagonal is the furthest point from which it can go on there. -/
private theorem isFurthest_entry_succ {a b : ByteArray} {offset d : Nat} {k : Int} {v : Frontier}
    (h : Settled a b offset d v) (hlow : -((d : Int) + 1) ≤ k) (hhigh : k ≤ (d : Int) + 1)
    (hparity : (k - (d + 1 : Int)) % 2 = 0) :
    IsFurthest (Entered a b (d + 1)) k (entry v offset (d + 1) k) := by
  -- the point above is there unless the diagonal is the last, the one below unless it is the first
  have habove (hk : k + 1 ≤ d) := h (k + 1) (by omega) hk (by omega)
  have hbelow (hk : -d ≤ k - 1) := h (k - 1) hk (by omega) (by omega)
  have hbound (x y : Nat) (hp : Path a b d x y) := hp.diagonal
  rw [entry]
  split
  · -- by an insertion from above
    rename_i hif
    simp only [Bool.or_eq_true, decide_eq_true_eq, Bool.and_eq_true, bne_iff_ne] at hif
    obtain ⟨⟨y, hk, hpath⟩, hfurthest⟩ := habove (by omega)
    refine ⟨⟨y + 1, by omega, .insert hpath⟩, fun x' y' hk' hentered => ?_⟩
    cases hentered with
    | insert hp => exact hfurthest _ _ (by omega) hp
    | remove hp =>
      have hd := hbound _ _ hp
      have hle := (hbelow (by omega)).furthest _ _ (by omega) hp
      omega
  · -- by a removal from below
    rename_i hif
    simp only [Bool.or_eq_true, decide_eq_true_eq, Bool.and_eq_true, bne_iff_ne] at hif
    obtain ⟨⟨y, hk, hpath⟩, hfurthest⟩ := hbelow (by omega)
    refine ⟨⟨y, by omega, .remove hpath⟩, fun x' y' hk' hentered => ?_⟩
    cases hentered with
    | insert hp =>
      have hd := hbound _ _ hp
      have hle := (habove (by omega)).furthest _ _ (by omega) hp
      omega
    | remove hp =>
      have hle := hfurthest _ _ (by omega) hp
      omega

/-- Where a round enters a diagonal is the furthest point from which it can go on there. -/
theorem isFurthest_entry {a b : ByteArray} {offset d : Nat} {k : Int} {v : Frontier}
    (h : Prepared a b offset d v) (hlow : -(d : Int) ≤ k) (hhigh : k ≤ d)
    (hparity : (k - d) % 2 = 0) : IsFurthest (Entered a b d) k (entry v offset d k) := by
  cases d with
  | zero =>
    obtain rfl : k = 0 := by omega
    have hentry : entry v offset 0 0 = 0 := h
    rw [hentry]
    refine ⟨⟨0, rfl, .start⟩, fun x' y' _ hentered => ?_⟩
    cases hentered
    exact Nat.le_refl 0
  | succ d => exact isFurthest_entry_succ h hlow hhigh hparity

/-- The points that a round adds do not disturb those that are still to be read. -/
theorem Prepared.put {a b : ByteArray} {offset d x : Nat} {k : Int} {v : Frontier}
    (h : Prepared a b offset d v) (hoffset : d < offset) (hsize : offset + d < v.size)
    (hlow : -(d : Int) ≤ k) (hhigh : k ≤ d) (hparity : (k - d) % 2 = 0) :
    Prepared a b offset d (v.put offset k x) := by
  cases d with
  | zero =>
    obtain rfl : k = 0 := by omega
    have hpoint : (v.put offset 0 x).point offset 1 = v.point offset 1 := by
      rw [Frontier.point_put x (by omega) (by omega) (by omega), if_neg (by omega)]
    exact hpoint.trans h
  | succ d =>
    -- what is still to be read is on the diagonals of the other parity
    intro k' hlow' hhigh' hparity'
    rw [Frontier.point_put x (by omega) (by omega) (by omega), if_neg (by omega)]
    exact h k' hlow' hhigh' hparity'

/-! ## Rounds -/

/-- The diagonals of round `d` below `k` are done: their furthest points are stored, and are not at
    the ends. -/
def DoneBelow (a b : ByteArray) (offset d : Nat) (k : Int) (v : Frontier) : Prop :=
  ∀ k' : Int, -d ≤ k' → k' < k → (k' - d) % 2 = 0 →
    IsFurthest (Path a b d) k' (v.point offset k') ∧ atEnd a b k' (v.point offset k') = false

/-- A step of a round: the next diagonal is done too, or the ends are reached on it. -/
theorem DoneBelow.step {a b : ByteArray} {offset d : Nat} {k : Int} {v : Frontier}
    (h : DoneBelow a b offset d k v) (hprepared : Prepared a b offset d v) (hoffset : d < offset)
    (hsize : offset + d < v.size) (hlow : -(d : Int) ≤ k) (hhigh : k ≤ d)
    (hparity : (k - d) % 2 = 0) (hend : atEnd a b k (follow a b k (entry v offset d k)) = false) :
    DoneBelow a b offset d (k + 2) (v.put offset k (follow a b k (entry v offset d k))) := by
  intro k' hlow' hlt hparity'
  rw [Frontier.point_put _ (by omega) (by omega) (by omega)]
  split
  · rename_i heq
    subst heq
    exact ⟨isFurthest_of_entered (isFurthest_entry hprepared hlow hhigh hparity), hend⟩
  · exact h k' hlow' (by omega) hparity'

/-- If a round is done with all diagonals, no path of as many edits leads to the ends. -/
theorem DoneBelow.not_path {a b : ByteArray} {offset d : Nat} {k : Int} {v : Frontier}
    (h : DoneBelow a b offset d k v) (hk : (d : Int) < k) : ¬Path a b d a.size b.size := by
  intro hpath
  -- the diagonal of the ends is done, and its furthest point would be at the ends
  obtain ⟨hlow, hhigh, hparity⟩ := hpath.diagonal
  obtain ⟨hfurthest, hend⟩ := h _ hlow (by omega) hparity
  have hle := hfurthest.furthest _ _ rfl hpath
  have hreached : atEnd a b ((a.size : Int) - b.size)
      (v.point offset ((a.size : Int) - b.size)) = true := by
    rw [atEnd, Bool.and_eq_true, decide_eq_true_eq, decide_eq_true_eq]
    omega
  rw [hreached] at hend
  exact nomatch hend

/-- What a round does from diagonal `k` on, when it is done with those below: it stops at a point
    beyond both ends, or is done with all diagonals. -/
theorem round_spec {a b : ByteArray} {offset d : Nat} {k : Int} {v : Frontier} (count : Nat)
    (h : DoneBelow a b offset d k v) (hprepared : Prepared a b offset d v) (hoffset : d < offset)
    (hsize : offset + d < v.size) (hlow : -(d : Int) ≤ k) (hcount : k + 2 * count = d + 2) :
    (∃ x y, (round a b offset d count k v).2 = true ∧ a.size ≤ x ∧ b.size ≤ y ∧ Path a b d x y) ∨
    ((round a b offset d count k v).2 = false ∧
      DoneBelow a b offset d (d + 2) (round a b offset d count k v).1 ∧
      (round a b offset d count k v).1.size = v.size) := by
  induction count generalizing k v with
  | zero =>
    obtain rfl : k = d + 2 := by omega
    exact .inr ⟨rfl, h, rfl⟩
  | succ count ih =>
    have hhigh : k ≤ d := by omega
    have hparity : (k - d) % 2 = 0 := by omega
    rw [round]
    split
    · -- the ends are reached on this diagonal
      rename_i hend
      rw [atEnd, Bool.and_eq_true, decide_eq_true_eq, decide_eq_true_eq] at hend
      obtain ⟨⟨y, hk, hpath⟩, _⟩ :=
        isFurthest_of_entered (isFurthest_entry hprepared hlow hhigh hparity)
      exact .inl ⟨_, y, rfl, hend.1, by omega, hpath⟩
    · rename_i hend
      have hdone := h.step hprepared hoffset hsize hlow hhigh hparity (Bool.eq_false_iff.mpr hend)
      have hput := hprepared.put (x := follow a b k (entry v offset d k)) hoffset hsize hlow hhigh
        hparity
      have hspec := ih hdone hput (by rwa [Frontier.size_put]) (by omega) (by omega)
      rwa [Frontier.size_put] at hspec

/-- Rounds from `d` on find the distance, if it is not below `d` and they come so far. -/
theorem rounds_eq {a b : ByteArray} {offset count d : Nat} {v : Frontier}
    (hprepared : Prepared a b offset d v) (hoffset : d + count ≤ offset)
    (hsize : offset + (d + count) ≤ v.size)
    (hd : d ≤ distance a.data.toList b.data.toList) :
    rounds a b offset count d v =
      if distance a.data.toList b.data.toList < d + count then
        some (distance a.data.toList b.data.toList)
      else none := by
  induction count generalizing d v with
  | zero => rw [rounds, if_neg (by omega)]
  | succ count ih =>
    have hstart : DoneBelow a b offset d (-(d : Int)) v := fun k' hlow hlt _ => by omega
    have hround := round_spec (d + 1) hstart hprepared (by omega) (by omega) (by omega) (by omega)
    rw [rounds]
    split
    · rename_i v' heq
      rw [heq] at hround
      obtain ⟨x, y, _, hx, hy, hpath⟩ | ⟨hno, _⟩ := hround
      · -- a path of `d` edits reaches the ends, and none of fewer edits did
        have hle := hpath.distance_add_le hx hy
        obtain rfl : d = distance a.data.toList b.data.toList := by omega
        rw [if_pos (by omega)]
      · exact nomatch hno
    · rename_i v' heq
      rw [heq] at hround
      obtain ⟨_, _, hno, _⟩ | ⟨_, hdone, hsame⟩ := hround
      · exact nomatch hno
      · -- the path of as many edits as the distance is still to come
        have hsame : v'.size = v.size := hsame
        have hne : d ≠ distance a.data.toList b.data.toList := by
          intro heq
          exact hdone.not_path (by omega) (heq ▸ path_distance a b)
        have hsettled : Settled a b offset d v' :=
          fun k hlow hhigh hparity => (hdone k hlow (by omega) hparity).1
        rw [ih (d := d + 1) hsettled (by omega) (by omega) (by omega),
          show d + 1 + count = d + (count + 1) by omega]

/-- The search yields the distance of the strings if it is within the limit. -/
theorem search_eq (a b : ByteArray) (maxEdits : Nat) :
    search a b maxEdits =
      if distance a.data.toList b.data.toList ≤ maxEdits then
        some (distance a.data.toList b.data.toList)
      else none := by
  have hprepared : Prepared a b (maxEdits + 1) 0 (Array.replicate (2 * maxEdits + 3) 0) :=
    Frontier.point_replicate ..
  rw [search, rounds_eq hprepared (by omega) (by rw [Array.size_replicate]; omega) (Nat.zero_le _)]
  simp only [Nat.zero_add, Nat.lt_succ_iff]

end ReleaseSeal.Edit
