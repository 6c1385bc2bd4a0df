import Mathlib.Order.Bounds.Basic
import ReleaseSeal.Proofs.Edit.Run

/-!
# Runs as longest common prefixes and suffixes

As lists of bytes, the run that is found from two offsets is the longest common prefix of what follows
them, and the run that is found at the ends is the longest common suffix, up to the limit. The two
searches know nothing of these lists: they compare ranges, whose sizes change with what was compared
before, and single bytes.

That they stay within the strings is said by a second form of them, in which an offset may be any
integer and a read outside a string ends the search without a result. It comes to the same result, so
that no such read is made.

## Key results

- `commonPrefix?_eq`, `commonSuffix?_eq`: no byte outside the strings is read
- `isGreatest_commonPrefix`, `isGreatest_commonSuffix`: the longest common prefix and suffix
- `runs_are_longest`: both, for all offsets and limits
-/

namespace ReleaseSeal.Edit

/-! ## Checked reads -/

/-- The byte at an offset, if the string has one there. -/
def readByte? (s : ByteArray) (i : Int) : Option UInt8 :=
  if 0 ≤ i ∧ i < s.size then some (byteAt s i.toNat) else none

theorem readByte?_eq {s : ByteArray} {i : Int} {k : Nat} (hi : i = k) (hk : k < s.size) :
    readByte? s i = some (byteAt s k) := by
  subst hi
  rw [readByte?, if_pos (by omega), Int.toNat_natCast]

/-- Compares two ranges. All of their bytes are read, also those behind one that differs. -/
def sameRange? (a b : ByteArray) (i j : Int) : (size : Nat) → Option Bool
  | 0 => some true
  | size + 1 => do
    let c ← readByte? a i
    let e ← readByte? b j
    let same ← sameRange? a b (i + 1) (j + 1) size
    return c == e && same

theorem chunkSize_pos : 0 < chunkSize := by decide

/-- A range of twice the size has bytes again. -/
theorem doubled_pos {step : Nat} (h : 0 < step) : 0 < step * 2 := by omega

/-- So has half of a range of more than one byte. -/
theorem halved_pos {size : Nat} (h : ¬size ≤ 1) : 0 < size / 2 := by omega

/-- The forward search by checked reads. -/
def gallop? (a b : ByteArray) (i j : Int) (limit matched step : Nat) (hstep : 0 < step) : Option Nat :=
  if _hlt : matched < limit then
    let size := min step (limit - matched)
    (sameRange? a b (i + matched) (j + matched) size).bind fun same =>
      if same then gallop? a b i j limit (matched + size) (step * 2) (doubled_pos hstep)
      else if hone : size ≤ 1 then some matched
      else gallop? a b i j limit matched (size / 2) (halved_pos hone)
  else some matched
termination_by (limit - matched, step)
decreasing_by
  · have _hsize : size = min step (limit - matched) := rfl
    apply Prod.Lex.left
    omega
  · have _hsize : size = min step (limit - matched) := rfl
    apply Prod.Lex.right
    omega

/-- The run from two offsets, by checked reads. -/
def commonPrefix? (a b : ByteArray) (i j : Nat) : Option Nat :=
  gallop? a b i j (min (a.size - i) (b.size - j)) 0 chunkSize chunkSize_pos

/-- The count of single bytes at the ends, by checked reads. -/
def suffixBytes? (a b : ByteArray) (matched : Nat) : (count : Nat) → Option Nat
  | 0 => some matched
  | count + 1 => do
    let c ← readByte? a ((a.size : Int) - matched - 1)
    let e ← readByte? b ((b.size : Int) - matched - 1)
    if c == e then suffixBytes? a b (matched + 1) count else some matched

/-- The backward search by checked reads. -/
def suffixFrom? (a b : ByteArray) (limit matched : Nat) : Option Nat :=
  if _hlt : matched < limit then
    let size := min chunkSize (limit - matched)
    (sameRange? a b ((a.size : Int) - matched - size) ((b.size : Int) - matched - size) size).bind
      fun same =>
        if same then suffixFrom? a b limit (matched + size) else suffixBytes? a b matched size
  else some matched
termination_by limit - matched
decreasing_by
  have _hsize : size = min chunkSize (limit - matched) := rfl
  have hchunk : chunkSize = 64 := rfl
  omega

/-- The run at the ends, by checked reads. -/
def commonSuffix? (a b : ByteArray) (limit : Nat) : Option Nat :=
  suffixFrom? a b limit 0

section Checked

variable {a b : ByteArray}

/-- Ranges inside the strings can be compared. -/
theorem sameRange?_eq {i j : Int} {k l size : Nat} (hi : i = k) (hj : j = l)
    (hk : k + size ≤ a.size) (hl : l + size ≤ b.size) :
    sameRange? a b i j size = some (sameRange a b k l size) := by
  induction size generalizing i j k l with
  | zero => rfl
  | succ size ih =>
    have hrest : sameRange? a b (i + 1) (j + 1) size = some (sameRange a b (k + 1) (l + 1) size) :=
      ih (by omega) (by omega) (by omega) (by omega)
    rw [sameRange?, readByte?_eq hi (by omega), readByte?_eq hj (by omega), hrest]
    rfl

/-- A step of the forward search within a limit: the range that is compared ends at the limit at the
    latest, and so inside the strings. -/
private theorem gallop?_of_lt {i j limit matched step : Nat} (hstep : 0 < step)
    (hi : i + limit ≤ a.size) (hj : j + limit ≤ b.size) (hlt : matched < limit) :
    gallop? a b i j limit matched step hstep =
      if sameRange a b (i + matched) (j + matched) (min step (limit - matched)) then
        gallop? a b i j limit (matched + min step (limit - matched)) (step * 2) (doubled_pos hstep)
      else if hone : min step (limit - matched) ≤ 1 then some matched
      else gallop? a b i j limit matched (min step (limit - matched) / 2) (halved_pos hone) := by
  have hrange : sameRange? a b (i + matched) (j + matched) (min step (limit - matched)) =
      some (sameRange a b (i + matched) (j + matched) (min step (limit - matched))) :=
    sameRange?_eq (by omega) (by omega) (by omega) (by omega)
  rw [gallop?, dif_pos hlt]
  show Option.bind (sameRange? a b _ _ (min step (limit - matched))) _ = _
  rw [hrange, Option.bind_some]

/-- Galloping within a limit stays within the strings. -/
theorem gallop?_eq {i j limit matched step : Nat} (hstep : 0 < step) (hi : i + limit ≤ a.size)
    (hj : j + limit ≤ b.size) :
    gallop? a b i j limit matched step hstep = some (gallop a b i j limit matched step hstep) := by
  fun_induction gallop a b i j limit matched step hstep with
  | case1 matched step hstep hlt size hsame ih =>
    rw [gallop?_of_lt hstep hi hj hlt, if_pos hsame]
    exact ih
  | case2 matched step hstep hlt size hdiff hone =>
    rw [gallop?_of_lt hstep hi hj hlt, if_neg hdiff, dif_pos hone]
  | case3 matched step hstep hlt size hdiff hone ih =>
    rw [gallop?_of_lt hstep hi hj hlt, if_neg hdiff, dif_neg hone]
    exact ih
  | case4 matched step hstep hlt => rw [gallop?, dif_neg hlt]

/-- The forward search reads no byte outside the strings. -/
theorem commonPrefix?_eq {i j : Nat} (hi : i ≤ a.size) (hj : j ≤ b.size) :
    commonPrefix? a b i j = some (commonPrefix a b i j) :=
  gallop?_eq _ (by omega) (by omega)

/-- Counting single bytes at the ends stays within the strings. -/
theorem suffixBytes?_eq {matched count : Nat} (ha : matched + count ≤ a.size)
    (hb : matched + count ≤ b.size) :
    suffixBytes? a b matched count = some (suffixBytes a b matched count) := by
  induction count generalizing matched with
  | zero => rfl
  | succ count ih =>
    have hread (s : ByteArray) (hs : matched + (count + 1) ≤ s.size) :
        readByte? s ((s.size : Int) - matched - 1) = some (byteAt s (s.size - matched - 1)) :=
      readByte?_eq (by omega) (by omega)
    rw [suffixBytes?, suffixBytes, hread a ha, hread b hb, ih (by omega) (by omega)]
    exact (apply_ite some ..).symm

/-- A step of the backward search within a limit. -/
private theorem suffixFrom?_of_lt {limit matched : Nat} (ha : limit ≤ a.size) (hb : limit ≤ b.size)
    (hlt : matched < limit) :
    suffixFrom? a b limit matched =
      if sameRange a b (a.size - matched - min chunkSize (limit - matched))
          (b.size - matched - min chunkSize (limit - matched)) (min chunkSize (limit - matched)) then
        suffixFrom? a b limit (matched + min chunkSize (limit - matched))
      else suffixBytes? a b matched (min chunkSize (limit - matched)) := by
  rw [suffixFrom?, dif_pos hlt]
  show Option.bind (sameRange? a b _ _ (min chunkSize (limit - matched))) _ = _
  rw [sameRange?_eq (k := a.size - matched - min chunkSize (limit - matched))
    (l := b.size - matched - min chunkSize (limit - matched)) (by omega) (by omega) (by omega)
    (by omega), Option.bind_some]

/-- The backward search within a limit stays within the strings. -/
theorem suffixFrom?_eq {limit matched : Nat} (ha : limit ≤ a.size) (hb : limit ≤ b.size) :
    suffixFrom? a b limit matched = some (suffixFrom a b limit matched) := by
  fun_induction suffixFrom a b limit matched with
  | case1 matched hlt size hsame ih =>
    rw [suffixFrom?_of_lt ha hb hlt, if_pos hsame]
    exact ih
  | case2 matched hlt size hdiff =>
    rw [suffixFrom?_of_lt ha hb hlt, if_neg hdiff]
    exact suffixBytes?_eq (by omega) (by omega)
  | case3 matched hlt => rw [suffixFrom?, dif_neg hlt]

/-- The backward search up to a limit that both strings admit reads no byte outside them. -/
theorem commonSuffix?_eq {limit : Nat} (ha : limit ≤ a.size) (hb : limit ≤ b.size) :
    commonSuffix? a b limit = some (commonSuffix a b limit) :=
  suffixFrom?_eq ha hb

end Checked

/-! ## Lists of bytes -/

/-- The lengths of the lists with which both lists start. -/
def prefixLengths (s t : List UInt8) : Set Nat :=
  {n | ∃ run : List UInt8, run <+: s ∧ run <+: t ∧ run.length = n}

/-- The lengths of the lists with which both lists end. -/
def suffixLengths (s t : List UInt8) : Set Nat :=
  {n | ∃ run : List UInt8, run <:+ s ∧ run <:+ t ∧ run.length = n}

variable {a b : ByteArray}

/-- What is found from two offsets is the length of the longest common prefix of what follows them. -/
theorem isGreatest_commonPrefix (a b : ByteArray) (i j : Nat) :
    IsGreatest (prefixLengths (a.data.toList.drop i) (b.data.toList.drop j))
      (commonPrefix a b i j) := by
  obtain ⟨hle, hsame, hstop⟩ := commonPrefix_isRun a b i j
  have ha := length_data_toList a
  have hb := length_data_toList b
  constructor
  · by_cases hzero : commonPrefix a b i j = 0
    · exact ⟨[], List.nil_prefix, List.nil_prefix, hzero.symm⟩
    · have heq := hsame.take_drop_eq (by omega) (by omega)
      refine ⟨(a.data.toList.drop i).take (commonPrefix a b i j), List.take_prefix .., ?_, ?_⟩
      · rw [heq]
        exact List.take_prefix ..
      · rw [List.length_take, List.length_drop]
        omega
  · rintro n ⟨run, hra, hrb, rfl⟩
    -- a longer list would have the bytes at which the run stops
    refine Nat.le_of_not_lt fun hlt => ?_
    have hlea := hra.length_le
    have hleb := hrb.length_le
    rw [List.length_drop] at hlea hleb
    have hbytea := hra.getElem hlt
    have hbyteb := hrb.getElem hlt
    rw [List.getElem_drop, ← byteAt_eq_getElem] at hbytea hbyteb
    exact hstop (by omega) (hbytea.symm.trans hbyteb)

/-- A byte counted from the end of a string is the one counted from the end of a list with which the
    string ends. -/
private theorem getElem_of_suffix {s : ByteArray} {run : List UInt8} (h : run <:+ s.data.toList)
    {k : Nat} (hk : k < run.length) : run[run.length - k - 1] = byteAt s (s.size - k - 1) := by
  have hle := h.length_le
  have hsize := length_data_toList s
  rw [h.getElem (by omega), ← byteAt_eq_getElem]
  congr 1
  omega

/-- Of two runs at the ends the one with the lower limit is the other one up to its limit. -/
theorem IsEndRun.eq_min {limit limit' size size' : Nat} (h : IsEndRun a b limit size)
    (h' : IsEndRun a b limit' size') (hlimit : limit ≤ limit') : size = min limit size' := by
  have hle := h.le
  -- neither goes on where the other one stops
  have hshort : size ≤ size' := Nat.le_of_not_lt fun hlt => h'.stop (by omega) (h.same size' hlt)
  have hfull : size < limit → size' ≤ size :=
    fun hlt => Nat.le_of_not_lt fun hlt' => h.stop hlt (h'.same size hlt')
  omega

/-- What is found at the ends, with no limit but the lengths, is the length of the longest common
    suffix. -/
theorem isGreatest_commonSuffix (a b : ByteArray) :
    IsGreatest (suffixLengths a.data.toList b.data.toList)
      (commonSuffix a b (min a.size b.size)) := by
  obtain ⟨hle, hsame, hstop⟩ :=
    commonSuffix_isEndRun (Nat.min_le_left a.size b.size) (Nat.min_le_right a.size b.size)
  have ha := length_data_toList a
  have hb := length_data_toList b
  constructor
  · have heq := (hsame.matches (by omega) (by omega)).take_drop_eq (by omega) (by omega)
    rw [List.take_of_length_le (by rw [List.length_drop]; omega),
      List.take_of_length_le (by rw [List.length_drop]; omega)] at heq
    refine ⟨a.data.toList.drop (a.size - commonSuffix a b (min a.size b.size)),
      List.drop_suffix .., ?_, ?_⟩
    · rw [heq]
      exact List.drop_suffix ..
    · rw [List.length_drop]
      omega
  · rintro n ⟨run, hra, hrb, rfl⟩
    refine Nat.le_of_not_lt fun hlt => ?_
    have hlea := hra.length_le
    have hleb := hrb.length_le
    exact hstop (by omega) ((getElem_of_suffix hra hlt).symm.trans (getElem_of_suffix hrb hlt))

/-- The chunked searches find what a comparison byte by byte would, and read no byte outside the strings.
    From two offsets, the run is the longest common prefix of what follows them; up to a limit that both
    strings admit, the run at the ends is as long as the limit or as the longest common suffix, whichever
    is shorter. -/
theorem runs_are_longest (a b : ByteArray) :
    (∀ i j, i ≤ a.size → j ≤ b.size →
      commonPrefix? a b i j = some (commonPrefix a b i j) ∧
        IsGreatest (prefixLengths (a.data.toList.drop i) (b.data.toList.drop j))
          (commonPrefix a b i j)) ∧
    (∀ limit, limit ≤ min a.size b.size →
      commonSuffix? a b limit = some (commonSuffix a b limit) ∧
        ∃ longest, IsGreatest (suffixLengths a.data.toList b.data.toList) longest ∧
          commonSuffix a b limit = min limit longest) := by
  constructor
  · intro i j hi hj
    exact ⟨commonPrefix?_eq hi hj, isGreatest_commonPrefix a b i j⟩
  · intro limit hlimit
    have ha : limit ≤ a.size := by omega
    have hb : limit ≤ b.size := by omega
    refine ⟨commonSuffix?_eq ha hb, _, isGreatest_commonSuffix a b, ?_⟩
    have hfull := commonSuffix_isEndRun (Nat.min_le_left a.size b.size) (Nat.min_le_right a.size b.size)
    exact (commonSuffix_isEndRun ha hb).eq_min hfull hlimit

/-- A run of equal bytes, and three bytes behind it. -/
def runThenText (n : Nat) : ByteArray :=
  ⟨(List.replicate n 7 ++ [1, 2, 3] : List UInt8).toArray⟩

/-- From two offsets in one string, two bytes of the run are left for both; at the ends of two strings, a
    run of more than one chunk is followed up to the limit. -/
theorem runs_are_longest_runThenText :
    (1 ≤ (runThenText 4).size ∧ 2 ≤ (runThenText 4).size ∧
      commonPrefix? (runThenText 4) (runThenText 4) 1 2 = some 2) ∧
    (70 ≤ min (runThenText 80).size (runThenText 90).size ∧
      commonSuffix? (runThenText 80) (runThenText 90) 70 = some 70) := by
  have hsize : 1 ≤ (runThenText 4).size ∧ 2 ≤ (runThenText 4).size := by decide
  have hlimit : 70 ≤ min (runThenText 80).size (runThenText 90).size := by decide +kernel
  obtain ⟨hforward, hgreatest⟩ :=
    (runs_are_longest (runThenText 4) (runThenText 4)).1 1 2 hsize.1 hsize.2
  obtain ⟨hbackward, -⟩ := (runs_are_longest (runThenText 80) (runThenText 90)).2 70 hlimit
  -- the third bytes differ, as the run ends in one of the rests
  have htwo : IsGreatest (prefixLengths [7, 7, 7, 1, 2, 3] [7, 7, 1, 2, 3]) 2 := by
    refine ⟨⟨[7, 7], by decide, by decide, rfl⟩, ?_⟩
    rintro n ⟨run, hleft, hright, rfl⟩
    refine Nat.le_of_not_lt fun hlt => ?_
    have hdiffer : (7 : UInt8) = 1 := (hleft.getElem hlt).symm.trans (hright.getElem hlt)
    exact absurd hdiffer (by decide)
  have hseventy : commonSuffix (runThenText 80) (runThenText 90) 70 = 70 := by decide +kernel
  rw [hgreatest.unique htwo] at hforward
  rw [hseventy] at hbackward
  exact ⟨⟨hsize.1, hsize.2, hforward⟩, hlimit, hbackward⟩

end ReleaseSeal.Edit
