import ReleaseSeal.Edit.Run
import ReleaseSeal.Proofs.Bytes.Listing

/-!
# Runs of equal bytes are the longest ones

The forward search gallops: it doubles the range while the bytes agree and halves it where they do
not. Whatever the ranges are, what it has matched is equal, and it stops only at the limit or in front
of a byte that differs; so it finds the run that comparing byte by byte would. The backward search
compares ranges of a fixed size and counts single bytes in the first that differs.

## Key results

- `commonPrefix_isRun`: the longest common run from two offsets
- `commonSuffix_isEndRun`: the longest common run at the ends, up to a limit
-/

namespace ReleaseSeal.Edit

/-- The `size` bytes from offset `i` of `a` and from offset `j` of `b` are equal. -/
def Matches (a b : ByteArray) (i j size : Nat) : Prop :=
  ∀ s < size, byteAt a (i + s) = byteAt b (j + s)

/-- `size` is the length of the longest run of equal bytes from offsets `i` and `j`, up to a limit. -/
structure IsRun (a b : ByteArray) (i j limit size : Nat) : Prop where
  le : size ≤ limit
  same : Matches a b i j size
  stop : size < limit → byteAt a (i + size) ≠ byteAt b (j + size)

/-- Ranges that follow each other match if both do. -/
theorem Matches.add {a b : ByteArray} {i j m n : Nat} (hm : Matches a b i j m)
    (hn : Matches a b (i + m) (j + m) n) : Matches a b i j (m + n) := by
  intro s hs
  by_cases h : s < m
  · exact hm s h
  · have hmatch := hn (s - m) (by omega)
    rwa [show i + m + (s - m) = i + s by omega, show j + m + (s - m) = j + s by omega] at hmatch

/-- An empty range matches. -/
theorem matches_zero (a b : ByteArray) (i j : Nat) : Matches a b i j 0 :=
  fun s hs => absurd hs (Nat.not_lt_zero s)

/-- A range of one byte matches if the bytes agree. -/
theorem matches_one_iff {a b : ByteArray} {i j : Nat} :
    Matches a b i j 1 ↔ byteAt a i = byteAt b j := by
  constructor
  · intro h
    exact h 0 Nat.zero_lt_one
  · intro h s hs
    obtain rfl : s = 0 := by omega
    exact h

theorem Matches.mono {a b : ByteArray} {i j m n : Nat} (hn : Matches a b i j n) (h : m ≤ n) :
    Matches a b i j m :=
  fun s hs => hn s (by omega)

/-- Matching ranges within the strings are the same list. -/
theorem Matches.take_drop_eq {a b : ByteArray} {i j size : Nat} (h : Matches a b i j size)
    (hi : i + size ≤ a.size) (hj : j + size ≤ b.size) :
    (a.data.toList.drop i).take size = (b.data.toList.drop j).take size := by
  have ha := length_data_toList a
  have hb := length_data_toList b
  apply List.ext_getElem
  · simp only [List.length_take, List.length_drop]
    omega
  · intro s hs _
    simp only [List.length_take, List.length_drop] at hs
    have hmatch := h s (by omega)
    rw [byteAt_eq_getElem (by omega), byteAt_eq_getElem (by omega)] at hmatch
    simpa only [List.getElem_take, List.getElem_drop] using hmatch

/-! ## Forward runs -/

theorem sameRange_iff (a b : ByteArray) (i j size : Nat) :
    sameRange a b i j size = true ↔ Matches a b i j size := by
  induction size generalizing i j with
  | zero => simp [sameRange, Matches]
  | succ size ih =>
    rw [sameRange, Bool.and_eq_true, beq_iff_eq, ih]
    constructor
    · intro ⟨hfirst, hrest⟩
      rw [Nat.add_comm size 1]
      exact (matches_one_iff.mpr hfirst).add hrest
    · intro h
      refine ⟨h 0 (by omega), fun s hs => ?_⟩
      have hmatch := h (s + 1) (by omega)
      rwa [show i + 1 + s = i + (s + 1) by omega, show j + 1 + s = j + (s + 1) by omega]

/-- From any run of equal bytes within the limit and with any step, galloping extends the run as far
    as it goes. -/
theorem gallop_isRun {a b : ByteArray} {i j limit matched step : Nat} (hstep : 0 < step)
    (hle : matched ≤ limit) (h : Matches a b i j matched) :
    IsRun a b i j limit (gallop a b i j limit matched step hstep) := by
  fun_induction gallop a b i j limit matched step hstep with
  | case1 matched step hstep hlt size hsame ih =>
    -- the whole range agrees
    have hsize : size ≤ limit - matched := Nat.min_le_right ..
    exact ih (by omega) (h.add ((sameRange_iff ..).mp hsame))
  | case2 matched step hstep hlt size hdiff hone =>
    -- a range of one byte that differs
    refine ⟨hle, h, fun _ hsame => hdiff ((sameRange_iff ..).mpr ?_)⟩
    exact (matches_one_iff.mpr hsame).mono hone
  | case3 matched step hstep hlt size hdiff hone ih =>
    -- a longer range that differs: nothing is matched, and the step is halved
    exact ih hle h
  | case4 matched step hstep hlt => exact ⟨hle, h, fun hlt' => absurd hlt' hlt⟩

/-- The run found from two offsets is the longest one. -/
theorem commonPrefix_isRun (a b : ByteArray) (i j : Nat) :
    IsRun a b i j (min (a.size - i) (b.size - j)) (commonPrefix a b i j) :=
  gallop_isRun _ (Nat.zero_le _) (matches_zero a b i j)

/-! ## Runs at the ends -/

/-- The last `size` bytes of the strings are equal. -/
def MatchesEnd (a b : ByteArray) (size : Nat) : Prop :=
  ∀ s < size, byteAt a (a.size - s - 1) = byteAt b (b.size - s - 1)

/-- `size` is the length of the longest run of equal bytes at the ends, up to a limit. -/
structure IsEndRun (a b : ByteArray) (limit size : Nat) : Prop where
  le : size ≤ limit
  same : MatchesEnd a b size
  stop : size < limit → byteAt a (a.size - size - 1) ≠ byteAt b (b.size - size - 1)

theorem MatchesEnd.succ {a b : ByteArray} {size : Nat} (h : MatchesEnd a b size)
    (hlast : byteAt a (a.size - size - 1) = byteAt b (b.size - size - 1)) :
    MatchesEnd a b (size + 1) := by
  intro s hs
  by_cases hlt : s < size
  · exact h s hlt
  · obtain rfl : s = size := by omega
    exact hlast

/-- What follows the point where a run at the ends begins is a matching range. -/
theorem MatchesEnd.matches {a b : ByteArray} {size : Nat} (h : MatchesEnd a b size)
    (ha : size ≤ a.size) (hb : size ≤ b.size) :
    Matches a b (a.size - size) (b.size - size) size := by
  intro s hs
  have hmatch := h (size - s - 1) (by omega)
  rwa [show a.size - (size - s - 1) - 1 = a.size - size + s by omega,
    show b.size - (size - s - 1) - 1 = b.size - size + s by omega] at hmatch

/-- A range in front of a run at the ends extends it exactly if its bytes match. -/
theorem matchesEnd_add_iff {a b : ByteArray} {matched size : Nat} (h : MatchesEnd a b matched)
    (ha : matched + size ≤ a.size) (hb : matched + size ≤ b.size) :
    Matches a b (a.size - matched - size) (b.size - matched - size) size ↔
      MatchesEnd a b (matched + size) := by
  constructor
  · intro hrange s hs
    by_cases hlt : s < matched
    · exact h s hlt
    · have hmatch := hrange (matched + size - s - 1) (by omega)
      rwa [show a.size - matched - size + (matched + size - s - 1) = a.size - s - 1 by omega,
        show b.size - matched - size + (matched + size - s - 1) = b.size - s - 1 by omega] at hmatch
  · intro hend
    have hmatch := (hend.matches ha hb).mono (Nat.le_add_left size matched)
    rwa [Nat.sub_sub, Nat.sub_sub]

/-- Counting single bytes extends a run at the ends as far as it goes within the count. -/
theorem suffixBytes_isEndRun {a b : ByteArray} {matched : Nat} (count : Nat)
    (h : MatchesEnd a b matched) :
    IsEndRun a b (matched + count) (suffixBytes a b matched count) := by
  induction count generalizing matched with
  | zero => exact ⟨Nat.le_refl _, h, fun hlt => absurd hlt (Nat.lt_irrefl _)⟩
  | succ count ih =>
    rw [suffixBytes]
    split
    · rename_i hsame
      have hrun := ih (h.succ (beq_iff_eq.mp hsame))
      rwa [show matched + 1 + count = matched + (count + 1) by omega] at hrun
    · rename_i hdiff
      exact ⟨Nat.le_add_right .., h, fun _ hsame => hdiff (beq_iff_eq.mpr hsame)⟩

/-- From any run at the ends within the limit, the search extends it as far as it goes. -/
theorem suffixFrom_isEndRun {a b : ByteArray} {limit matched : Nat} (ha : limit ≤ a.size)
    (hb : limit ≤ b.size) (hle : matched ≤ limit) (h : MatchesEnd a b matched) :
    IsEndRun a b limit (suffixFrom a b limit matched) := by
  fun_induction suffixFrom a b limit matched with
  | case1 matched hlt size hsame ih =>
    have hsize : size ≤ limit - matched := Nat.min_le_right ..
    exact ih (by omega) ((matchesEnd_add_iff h (by omega) (by omega)).mp
      ((sameRange_iff ..).mp hsame))
  | case2 matched hlt size hdiff =>
    have hsize : size ≤ limit - matched := Nat.min_le_right ..
    obtain ⟨hmle, hmsame, hmstop⟩ := suffixBytes_isEndRun size h
    -- not all bytes of the range agree, so the count stops within it
    have hshort : suffixBytes a b matched size < matched + size := by
      refine Nat.lt_of_le_of_ne hmle fun heq => hdiff ?_
      rw [heq] at hmsame
      exact (sameRange_iff ..).mpr ((matchesEnd_add_iff h (by omega) (by omega)).mpr hmsame)
    exact ⟨by omega, hmsame, fun _ => hmstop hshort⟩
  | case3 matched hlt => exact ⟨hle, h, fun hlt' => absurd hlt' hlt⟩

/-- The run found at the ends is the longest one up to the limit. -/
theorem commonSuffix_isEndRun {a b : ByteArray} {limit : Nat} (ha : limit ≤ a.size)
    (hb : limit ≤ b.size) : IsEndRun a b limit (commonSuffix a b limit) :=
  suffixFrom_isEndRun ha hb (Nat.zero_le _) fun s hs => absurd hs (Nat.not_lt_zero s)

end ReleaseSeal.Edit
