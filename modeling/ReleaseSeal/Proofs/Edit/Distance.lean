import Mathlib.Order.Bounds.Defs
import ReleaseSeal.Proofs.Edit.Script

/-!
# Edit distance

The least number of single-byte insertions and removals between two strings, by recursion over both.
The recursion keeps a common first byte without looking at the alternatives; `distance_isLeast` shows
that nothing is lost by that, and that no order of edits does better.

What two strings have in common at their starts and then at their ends can be set aside
(`distance_core`).

## Key results

- `distance_isLeast`: `distance` is the least number of edits
- `distance_comm`: it is the same in both directions
- `distance_core`: common bytes at the starts and at the ends do not count
-/

namespace ReleaseSeal.Edit

/-- The distances from a string with `c` in front, given those from the string itself. -/
def distanceWith (c : UInt8) (rest : List UInt8 → Nat) : List UInt8 → Nat
  | [] => rest [] + 1
  | e :: new => if c = e then rest new else min (rest (e :: new)) (distanceWith c rest new) + 1

/-- The least number of insertions and removals of a byte that turn one string into another. -/
def distance : List UInt8 → List UInt8 → Nat
  | [] => List.length
  | c :: old => distanceWith c (distance old)

@[simp] theorem distance_nil (new : List UInt8) : distance [] new = new.length := rfl

@[simp] theorem distance_nil_right (old : List UInt8) : distance old [] = old.length := by
  induction old with
  | nil => rfl
  | cons c old ih => rw [distance, distanceWith, ih, List.length_cons]

@[simp] theorem distance_cons_self (c : UInt8) (old new : List UInt8) :
    distance (c :: old) (c :: new) = distance old new := by
  rw [distance, distanceWith, if_pos rfl]

theorem distance_cons_of_ne {c e : UInt8} (h : c ≠ e) (old new : List UInt8) :
    distance (c :: old) (e :: new) =
      min (distance old (e :: new)) (distance (c :: old) new) + 1 := by
  rw [distance, distanceWith, if_neg h]

/-- The distance is the same in both directions. -/
theorem distance_comm (old new : List UInt8) : distance old new = distance new old := by
  induction old generalizing new with
  | nil => simp
  | cons c old ih =>
    induction new with
    | nil => simp
    | cons e new ihn =>
      by_cases h : c = e
      · subst h
        rw [distance_cons_self, distance_cons_self, ih]
      · rw [distance_cons_of_ne h, distance_cons_of_ne (Ne.symm h), ih, ihn, Nat.min_comm]

/-! ## One byte more or less

The distance changes by at most one with each byte of either string. That a byte in front of the new
string costs no more than one edit needs the same of a byte that is taken off the shorter old string,
so the two are proved in turns. -/

/-- A byte taken off the old string, from the law for a byte put in front of the new one. -/
private theorem distance_le_cons_of {old : List UInt8}
    (hold : ∀ c new, distance old (c :: new) ≤ distance old new + 1) (c : UInt8)
    (new : List UInt8) : distance old new ≤ distance (c :: old) new + 1 := by
  induction new with
  | nil =>
    simp only [distance_nil_right, List.length_cons]
    omega
  | cons e new ih =>
    by_cases h : c = e
    · subst h
      rw [distance_cons_self]
      exact hold c new
    · -- both ways to begin cost one edit more than a distance that is known to be close
      have he := hold e new
      rw [distance_cons_of_ne h]
      omega

/-- A byte in front of the new string costs at most one edit. -/
theorem distance_cons_le (c : UInt8) (old new : List UInt8) :
    distance old (c :: new) ≤ distance old new + 1 := by
  induction old generalizing c new with
  | nil => simp
  | cons e old ih =>
    by_cases h : e = c
    · subst h
      rw [distance_cons_self]
      exact distance_le_cons_of ih e new
    · rw [distance_cons_of_ne h]
      omega

/-- A byte in front of the old string costs at most one edit. -/
theorem distance_cons_left_le (c : UInt8) (old new : List UInt8) :
    distance (c :: old) new ≤ distance old new + 1 := by
  rw [distance_comm, distance_comm old]
  exact distance_cons_le c new old

/-! ## The least number of edits -/

/-- No script is shorter than the distance. -/
theorem Script.distance_le {old new : List UInt8} {i r : Nat} (h : Script old new i r) :
    distance old new ≤ i + r := by
  induction h with
  | nil => simp
  | keep c _ ih => rwa [distance_cons_self]
  | @insert c old new i r _ ih =>
    have hc := distance_cons_le c old new
    omega
  | @remove c old new i r _ ih =>
    have hc := distance_cons_left_le c old new
    omega

/-- Some script is as short as the distance. -/
theorem exists_script (old new : List UInt8) :
    ∃ i r, Script old new i r ∧ i + r = distance old new := by
  induction old generalizing new with
  | nil => exact ⟨new.length, 0, .insert_all new, rfl⟩
  | cons c old ih =>
    induction new with
    | nil => exact ⟨0, (c :: old).length, (Script.insert_all _).symm, by simp⟩
    | cons e new ihn =>
      by_cases h : c = e
      · subst h
        obtain ⟨i, r, hs, hd⟩ := ih new
        exact ⟨i, r, .keep c hs, by rw [hd, distance_cons_self]⟩
      · rw [distance_cons_of_ne h]
        -- the cheaper of removing the old byte first and inserting the new one first
        by_cases hle : distance old (e :: new) ≤ distance (c :: old) new
        · obtain ⟨i, r, hs, hd⟩ := ih (e :: new)
          exact ⟨i, r + 1, .remove c hs, by omega⟩
        · obtain ⟨i, r, hs, hd⟩ := ihn
          exact ⟨i + 1, r, .insert e hs, by omega⟩

/-- The distance is the least number of edits, in whatever order they are made. -/
theorem distance_isLeast (old new : List UInt8) :
    IsLeast {n | ∃ i r, Edits old new i r ∧ n = i + r} (distance old new) := by
  constructor
  · obtain ⟨i, r, hs, hd⟩ := exists_script old new
    exact ⟨i, r, hs.edits, hd.symm⟩
  · intro n ⟨i, r, he, hn⟩
    -- edits in any order are no fewer than those of their script
    obtain ⟨i', r', hs, hi, hr⟩ := he.exists_script
    have hle := hs.distance_le
    omega

example : distance [1, 2, 3] [2, 4, 3] = 2 := by decide

/-- Only equal strings need no edit. -/
theorem distance_eq_zero_iff {old new : List UInt8} : distance old new = 0 ↔ old = new := by
  constructor
  · intro h
    obtain ⟨i, r, hs, hd⟩ := exists_script old new
    obtain ⟨rfl, rfl⟩ : i = 0 ∧ r = 0 := by omega
    cases hs.edits
    rfl
  · intro h
    subst h
    exact Nat.le_zero.mp (Script.refl old).distance_le

/-! ## What two strings have in common -/

/-- Two strings without their longest common prefix. -/
def dropCommon : List UInt8 → List UInt8 → List UInt8 × List UInt8
  | c :: old, e :: new => if c = e then dropCommon old new else (c :: old, e :: new)
  | old, new => (old, new)

/-- Two strings without their longest common prefix and then without the longest common suffix of
    what is left. -/
def core (old new : List UInt8) : List UInt8 × List UInt8 :=
  let (a, b) := dropCommon old new
  let (a, b) := dropCommon a.reverse b.reverse
  (a.reverse, b.reverse)

/-- A common prefix is dropped. -/
theorem dropCommon_append (start old new : List UInt8) :
    dropCommon (start ++ old) (start ++ new) = dropCommon old new := by
  induction start with
  | nil => rfl
  | cons c start ih => rw [List.cons_append, List.cons_append, dropCommon, if_pos rfl, ih]

/-- Strings whose first bytes differ are left as they are. -/
theorem dropCommon_of_head?_ne {old new : List UInt8}
    (h : ∀ c, old.head? = some c → new.head? ≠ some c) : dropCommon old new = (old, new) := by
  cases old with
  | nil => cases new <;> rfl
  | cons c old =>
    cases new with
    | nil => rfl
    | cons e new =>
      have hne : c ≠ e := fun hce => h c rfl (hce ▸ rfl)
      rw [dropCommon, if_neg hne]

/-- The distance of two strings is that of what follows their common prefix. -/
theorem distance_dropCommon (old new : List UInt8) :
    distance (dropCommon old new).1 (dropCommon old new).2 = distance old new := by
  fun_induction dropCommon old new with
  | case1 old c new ih => rw [ih, distance_cons_self]
  | case2 c old e new hne => rfl
  | case3 old new _ => rfl

/-- The distance does not depend on the end from which the strings are read. -/
theorem distance_reverse (old new : List UInt8) :
    distance old.reverse new.reverse = distance old new := by
  -- one direction is enough, since reversing twice changes nothing
  have hle (a b : List UInt8) : distance a.reverse b.reverse ≤ distance a b := by
    obtain ⟨i, r, hs, hd⟩ := exists_script a b
    rw [← hd]
    exact hs.reverse.distance_le
  apply Nat.le_antisymm (hle old new)
  have h := hle old.reverse new.reverse
  rwa [List.reverse_reverse, List.reverse_reverse] at h

/-- Common bytes at the starts and at the ends do not count. -/
theorem distance_core (old new : List UInt8) :
    distance (core old new).1 (core old new).2 = distance old new := by
  simp only [core, distance_reverse, distance_dropCommon]

/-- Whatever is set aside in `core` can be named: it is enough that no more could be. -/
theorem core_eq {start finish a b : List UInt8}
    (hstart : ∀ c, (a ++ finish).head? = some c → (b ++ finish).head? ≠ some c)
    (hfinish : ∀ c, a.getLast? = some c → b.getLast? ≠ some c) :
    core (start ++ (a ++ finish)) (start ++ (b ++ finish)) = (a, b) := by
  have hreverse : dropCommon (a ++ finish).reverse (b ++ finish).reverse =
      (a.reverse, b.reverse) := by
    rw [List.reverse_append, List.reverse_append, dropCommon_append]
    apply dropCommon_of_head?_ne
    simpa only [List.head?_reverse] using hfinish
  rw [core, dropCommon_append, dropCommon_of_head?_ne hstart]
  simp only [hreverse, List.reverse_reverse]

end ReleaseSeal.Edit
