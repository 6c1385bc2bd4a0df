import Mathlib.Data.List.Forall2
import Mathlib.Data.List.GetD
import Mathlib.Data.Nat.Prime.Basic
import Mathlib.Tactic.Linarith
import ReleaseSeal.Proofs.Text.Numeral
import ReleaseSeal.Seal.Sha256

/-!
# The parts of SHA-256

What the standard says of its constants, of the padding and of the schedule, and the form of a digest.

## Key results

- `holdsRoot_roundConstants` / `holdsRoot_initial`: the constants are digits of roots of primes
- `exists_padded`: a message is padded to whole blocks
- `schedule_recurs`: the words of the rounds
- `length_hexDigest` / `digits_hexDigest`: a digest has 64 hexadecimal digits
-/

namespace ReleaseSeal.Seal.Sha256

/-! ## Constants -/

/-- A word has the first 32 bits of the fractional part of the `k`-th root of a number. -/
def HoldsRoot (k n : Nat) (w : UInt32) : Prop :=
  ∃ whole, (whole * 2 ^ 32 + w.toNat) ^ k ≤ n * 2 ^ (32 * k) ∧
    n * 2 ^ (32 * k) < (whole * 2 ^ 32 + w.toNat + 1) ^ k

/-- The primes below a number. -/
def primesBelow (n : Nat) : List Nat :=
  (List.range n).filter Nat.Prime

/-- No small number divides a small prime. -/
theorem prime_iff_of_lt {n : Nat} (h : n < 324) :
    n.Prime ↔ 2 ≤ n ∧ ∀ d < 18, 2 ≤ d → d < n → ¬d ∣ n := by
  constructor
  · intro hprime
    refine ⟨hprime.two_le, fun d _ hd hlt hdvd => ?_⟩
    obtain rfl | rfl := (Nat.dvd_prime hprime).mp hdvd
    · omega
    · omega
  · intro ⟨htwo, hno⟩
    refine Nat.prime_def_le_sqrt.mpr ⟨htwo, fun d hd hsqrt => ?_⟩
    have hsquare : d * d ≤ n := Nat.le_sqrt.mp hsqrt
    exact hno d (by nlinarith) hd (by nlinarith)

theorem primesBelow_eq {n : Nat} (h : n ≤ 324) :
    primesBelow n = (List.range n).filter fun p => 2 ≤ p ∧ ∀ d < 18, 2 ≤ d → d < p → ¬d ∣ p := by
  apply List.filter_congr
  intro p hp
  exact decide_eq_decide.mpr (prime_iff_of_lt ((List.mem_range.mp hp).trans_le h))

/-- It is enough to look for a small integral part. -/
theorem forall₂_holdsRoot {k : Nat} {ns : List Nat} {ws : List UInt32}
    (h : ns.length = ws.length ∧ ∀ pair ∈ ns.zip ws, ∃ whole < 7,
      (whole * 2 ^ 32 + pair.2.toNat) ^ k ≤ pair.1 * 2 ^ (32 * k) ∧
        pair.1 * 2 ^ (32 * k) < (whole * 2 ^ 32 + pair.2.toNat + 1) ^ k) :
    List.Forall₂ (HoldsRoot k) ns ws := by
  refine List.forall₂_iff_zip.mpr ⟨h.1, fun {n w} hpair => ?_⟩
  obtain ⟨whole, -, hroot⟩ := h.2 (n, w) hpair
  exact ⟨whole, hroot⟩

/-- The constants of the rounds are digits of the cube roots of the first 64 primes. -/
theorem holdsRoot_roundConstants : List.Forall₂ (HoldsRoot 3) (primesBelow 312) roundConstants := by
  rw [primesBelow_eq (by decide)]
  exact forall₂_holdsRoot (by decide +kernel)

/-- The words of the state at first are digits of the square roots of the first eight primes. -/
theorem holdsRoot_initial : List.Forall₂ (HoldsRoot 2) (primesBelow 20) State.initial.words := by
  rw [primesBelow_eq (by decide)]
  exact forall₂_holdsRoot (by decide +kernel)

/-! ## Padding -/

/-- A padded message starts with the message, goes on with a one bit and fewer zero bytes than a block has,
    and ends with its size in bits; it consists of whole blocks. -/
theorem exists_padded (message : ByteArray) :
    ∃ zeros < 64, (padded message).data.toList = message.data.toList ++
        0x80 :: (List.replicate zeros 0 ++ ByteOrder.big.encode 8 (8 * message.size)) ∧
      (padded message).size % 64 = 0 := by
  have hsize : (padded message).size = message.size + (1 + ((119 - message.size % 64) % 64 + 8)) := by
    rw [padded, ByteArray.size_append]
    simp only [ByteArray.size, List.size_toArray, List.length_cons, List.length_append,
      List.length_replicate, ByteOrder.length_encode]
    omega
  refine ⟨(119 - message.size % 64) % 64, Nat.mod_lt _ (by decide), ?_, by omega⟩
  rw [padded, ByteArray.data_append, Array.toList_append]
  rfl

/-! ## The schedule -/

/-- The word that follows in a schedule, which has its latest word in front. -/
def nextWord (ws : List UInt32) : UInt32 :=
  (rotated (ws.getD 1 0) 17 ^^^ rotated (ws.getD 1 0) 19 ^^^ (ws.getD 1 0 >>> 10)) + ws.getD 6 0 +
    (rotated (ws.getD 14 0) 7 ^^^ rotated (ws.getD 14 0) 18 ^^^ (ws.getD 14 0 >>> 3)) + ws.getD 15 0

theorem extendSchedule_succ (count : Nat) (ws : List UInt32) :
    extendSchedule (count + 1) ws = extendSchedule count (nextWord ws :: ws) := rfl

/-- The words of a schedule behind the first sixteen, from earlier ones. -/
def Recurs (ws : List UInt32) : Prop :=
  ∀ i, i + 16 < ws.length →
    let w (j : Nat) := ws.getD (i + j) 0
    w 16 = (rotated (w 14) 17 ^^^ rotated (w 14) 19 ^^^ (w 14 >>> 10)) + w 9 +
      (rotated (w 1) 7 ^^^ rotated (w 1) 18 ^^^ (w 1 >>> 3)) + w 0

/-- A schedule that has its latest word in front, counted from its earliest. -/
theorem getD_reverse {ws : List UInt32} {i j : Nat} (h : i + j + 1 = ws.length) :
    ws.reverse.getD i 0 = ws.getD j 0 := by
  rw [← List.getElem_eq_getD (h := by simp; omega), ← List.getElem_eq_getD (h := by omega),
    List.getElem_reverse]
  congr 1
  omega

theorem Recurs.nextWord {ws : List UInt32} (h : Recurs ws.reverse) :
    Recurs (nextWord ws :: ws).reverse := by
  intro i hi
  rw [List.reverse_cons, List.length_append, List.length_reverse, List.length_singleton] at hi
  rw [List.reverse_cons]
  by_cases hold : i + 16 < ws.length
  · -- an earlier word, for which nothing changes
    have hw (j : Nat) (hj : j ≤ 16) :
        (ws.reverse ++ [Sha256.nextWord ws]).getD (i + j) 0 = ws.reverse.getD (i + j) 0 :=
      List.getD_append _ _ _ _ (by rw [List.length_reverse]; omega)
    simp only [hw 16 (by decide), hw 14 (by decide), hw 9 (by decide), hw 1 (by decide),
      hw 0 (by decide)]
    exact h i (by rwa [List.length_reverse])
  · have hw (j : Nat) (hj : j < 16) :
        (ws.reverse ++ [Sha256.nextWord ws]).getD (i + j) 0 = ws.getD (15 - j) 0 := by
      have hlength : i + j + (15 - j) + 1 = ws.length := by omega
      rw [List.getD_append _ _ _ _ (by rw [List.length_reverse]; omega), getD_reverse hlength]
    have hlast : (ws.reverse ++ [Sha256.nextWord ws]).getD (i + 16) 0 = Sha256.nextWord ws := by
      rw [List.getD_append_right _ _ _ _ (by rw [List.length_reverse]; omega), List.length_reverse,
        show i + 16 - ws.length = 0 by omega]
      rfl
    simp only [hlast, hw 14 (by decide), hw 9 (by decide), hw 1 (by decide), hw 0 (by decide)]
    rfl

/-- A schedule is extended by words that follow from it, and what it has stays in front. -/
theorem exists_extendSchedule {ws : List UInt32} (count : Nat) (h : Recurs ws.reverse) :
    ∃ added, (extendSchedule count ws).reverse = ws.reverse ++ added ∧ added.length = count ∧
      Recurs (ws.reverse ++ added) := by
  induction count generalizing ws with
  | zero => exact ⟨[], by simp [extendSchedule], rfl, by simpa using h⟩
  | succ count ih =>
    obtain ⟨added, hadded, hcount, hrecurs⟩ := ih h.nextWord
    rw [List.reverse_cons, List.append_assoc] at hadded hrecurs
    exact ⟨_ :: added, hadded, by rw [List.length_cons, hcount], hrecurs⟩

/-- The schedule of a block: its sixteen words, and 48 words that follow from them. -/
theorem schedule_recurs (message : ByteArray) (start : Nat) :
    (schedule message start).length = 64 ∧
      (∀ i < 16, (schedule message start)[i]? = some (wordAt message (start + 4 * i))) ∧
      Recurs (schedule message start) := by
  have hrecurs : Recurs ((List.range 16).map fun i => wordAt message (start + 4 * i)) := by
    intro i hi
    rw [List.length_map, List.length_range] at hi
    omega
  rw [← List.reverse_reverse ((List.range 16).map _)] at hrecurs
  obtain ⟨added, hadded, hcount, hadded'⟩ := exists_extendSchedule 48 hrecurs
  rw [List.reverse_reverse] at hadded hadded'
  have hschedule : schedule message start = _ := hadded
  rw [hschedule]
  refine ⟨by simp [hcount], fun i hi => ?_, hadded'⟩
  rw [List.getElem?_append_left (by simpa using hi), List.getElem?_map, List.getElem?_range hi]
  rfl

/-! ## Digits -/

theorem toList_hexPadded_word (w : UInt32) :
    (Text.hexPadded 8 w.toNat).toList =
      ((List.range 8).map fun i => Nat.digitChar (w.toNat / 16 ^ i % 16)).reverse :=
  Text.toList_hexPadded w.toNat_lt

/-- A digest is eight words of eight hexadecimal digits. -/
theorem toList_hexDigest (message : ByteArray) :
    ∃ s : State, (hexDigest message).toList = s.words.flatMap fun w =>
      ((List.range 8).map fun i => Nat.digitChar (w.toNat / 16 ^ i % 16)).reverse := by
  refine ⟨((List.range ((padded message).size / 64)).map (64 * ·)).foldl (mixBlock (padded message))
    State.initial, ?_⟩
  simp only [hexDigest, String.toList_join, List.flatMap_map, toList_hexPadded_word]

theorem length_hexDigest (message : ByteArray) : (hexDigest message).length = 64 := by
  obtain ⟨s, hs⟩ := toList_hexDigest message
  rw [← String.length_toList, hs]
  simp [State.words]

/-- Every character of a digest is a hexadecimal digit in lower case. -/
theorem digits_hexDigest (message : ByteArray) :
    ∀ c ∈ (hexDigest message).toList, ∃ d < 16, c = Nat.digitChar d := by
  obtain ⟨s, hs⟩ := toList_hexDigest message
  intro c hc
  rw [hs, List.mem_flatMap] at hc
  obtain ⟨w, -, hc⟩ := hc
  obtain ⟨i, -, rfl⟩ := List.mem_map.mp (List.mem_reverse.mp hc)
  exact ⟨_, Nat.mod_lt _ (by decide), rfl⟩

end ReleaseSeal.Seal.Sha256
