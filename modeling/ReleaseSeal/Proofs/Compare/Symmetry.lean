import ReleaseSeal.Proofs.Compare.Archives
import ReleaseSeal.Proofs.Edit.Symmetry

/-!
# Verdicts in both directions

Which of two entries is the trusted one makes no difference to whether they match. Entries with one path
have verdicts of the same kind in both directions; a mismatch counts as many insertions in one direction
as removals in the other.

## Key results

- `exists_mirrors_of_judge`: a verdict in one direction has its counterpart in the other
- `judge_symmetric`: entries with readable payloads have verdicts in both directions
-/

namespace ReleaseSeal.Compare

open Archive (Entry)

/-- Two verdicts on the same entries in both directions: they are the same, but for the insertions and
    removals of a mismatch. -/
inductive Verdict.Mirrors : Verdict → Verdict → Prop
  | identical (path : String) : Mirrors (.identical path) (.identical path)
  | tolerated (path : String) (count : Option Int) (category : Option Bundle.Category) :
      Mirrors (.tolerated path count category) (.tolerated path count category)
  | fatal (path : String) (summary : Edit.Summary) (permitted : Int) :
      Mirrors (.fatal path (.content path summary permitted))
        (.fatal path (.content path summary.mirrored permitted))

variable {t u : Entry} {path : String} {isMain : Bool} {o : Options} {x y x' y' : ByteArray}
  {v : Verdict}

/-! ## Payloads -/

theorem Stripper.applies_comm (s : Stripper) (x y : ByteArray) : s.applies y x = s.applies x y :=
  Bool.and_right_comm ..

/-- What is compared of two payloads does not depend on their order. -/
theorem Stripper.Prepares.symm {s : Stripper} (h : s.Prepares x y x' y') : s.Prepares y x y' x' := by
  unfold Stripper.Prepares at *
  rw [Stripper.applies_comm]
  split <;> rename_i happlies
  · rw [if_pos happlies] at h
    exact h.symm
  · rw [if_neg happlies] at h
    exact h.symm

/-- The difference of two payloads is permitted in both directions or in none. -/
theorem judgeContent_mirrors (path : String) (isMain : Bool) (o : Options) (x y : ByteArray) :
    (judgeContent path isMain o x y).Mirrors (judgeContent path isMain o y x) := by
  simp only [judgeContent]
  rw [Edit.summarize_comm x y, Edit.Summary.total_mirrored, Edit.Summary.capped_mirrored]
  split
  · exact .tolerated ..
  · exact .fatal ..

/-- A verdict on two payloads has its counterpart in the other direction. -/
theorem exists_mirrors_of_judgePayloads (h : judgePayloads path isMain o x y = .ok v) :
    ∃ w, judgePayloads path isMain o y x = .ok w ∧ v.Mirrors w := by
  obtain ⟨x', y', hprepares, hverdict⟩ := judgePayloads_eq_ok_iff.mp h
  have hcomm := Stripper.applies_comm o.stripper x y
  obtain ⟨happlies, hsame, rfl⟩ | ⟨hdiff, rfl⟩ := hverdict
  · refine ⟨_, judgePayloads_eq_ok_iff.mpr ⟨y', x', hprepares.symm, .inl ?_⟩, .tolerated ..⟩
    exact ⟨hcomm.trans happlies, hsame.symm, rfl⟩
  · refine ⟨_, judgePayloads_eq_ok_iff.mpr ⟨y', x', hprepares.symm, .inr ⟨?_, rfl⟩⟩,
      judgeContent_mirrors ..⟩
    exact fun hsame => hdiff ⟨hcomm.symm.trans hsame.1, hsame.2.symm⟩

/-! ## Entries -/

/-- A verdict on two entries with one path has its counterpart in the other direction. -/
theorem exists_mirrors_of_judge (hpath : t.path = u.path) (h : judge t u isMain o = .ok v) :
    ∃ w, judge u t isMain o = .ok w ∧ v.Mirrors w := by
  have hcomm : RecordedSame u t ↔ RecordedSame t u := and_congr eq_comm eq_comm
  simp only [judge_eq_ok_iff, hcomm, ← hpath]
  -- by what the verdict is based on
  obtain ⟨hsame, rfl⟩ | ⟨hdiff, category, hcategory, rfl⟩ | ⟨hdiff, hcategory, x, y, ht, hu, hv⟩ :=
    judge_eq_ok_iff.mp h
  · exact ⟨_, .inl ⟨hsame, rfl⟩, .identical ..⟩
  · exact ⟨_, .inr (.inl ⟨hdiff, category, hcategory, rfl⟩), .tolerated ..⟩
  · obtain ⟨w, hw, hmirrors⟩ := exists_mirrors_of_judgePayloads hv
    exact ⟨w, .inr (.inr ⟨hdiff, hcategory, y, x, hu, ht, hw⟩), hmirrors⟩

/-- Verdicts are symmetric. Two entries with one path, whose payloads are readable and whose signatures
    come off where that applies, have verdicts in both directions, and these are of the same kind: both
    identical; both tolerated, with the same count and the same category; or both a mismatch at the path,
    with the same permitted number of changes, both capped or none, the same total, and the insertions of
    one direction as the removals of the other. -/
theorem judge_symmetric (isMain : Bool) (hpath : t.path = u.path) (ht : t.read = .ok x)
    (hu : u.read = .ok y)
    (hstrip : o.stripper.applies x y = true →
      ∃ x' y', o.stripper.strip x = .ok x' ∧ o.stripper.strip y = .ok y') :
    ∃ v w, judge t u isMain o = .ok v ∧ judge u t isMain o = .ok w ∧ v.Mirrors w := by
  obtain ⟨v, hv⟩ := exists_judge ht hu fun _ _ => hstrip
  obtain ⟨w, hw, hmirrors⟩ := exists_mirrors_of_judge hpath hv
  exact ⟨v, w, hv, hw, hmirrors⟩

/-- Two payloads one of which becomes the other by an insertion and two removals: the verdict of the other
    direction counts two insertions and a removal. -/
theorem judge_symmetric_three_changes :
    let t := fileWith "A.app/A" 1 ⟨#[1, 2, 3]⟩
    let u := fileWith "A.app/A" 2 ⟨#[3, 1]⟩
    t.path = u.path ∧ t.read = .ok ⟨#[1, 2, 3]⟩ ∧ u.read = .ok ⟨#[3, 1]⟩ ∧
      judge t u true .standard = .ok (.fatal t.path (.content t.path ⟨1, 2, false⟩ 0)) ∧
      judge u t true .standard = .ok (.fatal t.path (.content t.path ⟨2, 1, false⟩ 0)) := by
  intro t u
  have hsummary : Edit.summarize ⟨#[1, 2, 3]⟩ ⟨#[3, 1]⟩ Edit.defaultLimit = ⟨1, 2, false⟩ := by
    rw [Edit.summarize_eq]
    decide
  have hcontent : .fatal t.path (.content t.path ⟨1, 2, false⟩ 0) =
      judgeContent t.path true .standard ⟨#[1, 2, 3]⟩ ⟨#[3, 1]⟩ := by
    rw [judgeContent, show Options.standard.searchLimit true = Edit.defaultLimit from rfl, hsummary]
    rfl
  have hpayloads : judgePayloads t.path true .standard ⟨#[1, 2, 3]⟩ ⟨#[3, 1]⟩ =
      .ok (.fatal t.path (.content t.path ⟨1, 2, false⟩ 0)) :=
    judgePayloads_eq_ok_iff.mpr ⟨_, _, ⟨rfl, rfl⟩, .inr ⟨fun hno => Bool.false_ne_true hno.1, hcontent⟩⟩
  have hjudge : judge t u true .standard = .ok (.fatal t.path (.content t.path ⟨1, 2, false⟩ 0)) :=
    judge_eq_ok_iff.mpr (.inr (.inr
      ⟨fun hno => absurd hno.1 (by decide), by decide, _, _, rfl, rfl, hpayloads⟩))
  obtain ⟨v, w, hv, hw, hmirrors⟩ :=
    judge_symmetric (t := t) (u := u) (o := .standard) true rfl rfl rfl
      fun hno => absurd hno Bool.false_ne_true
  obtain rfl : _ = v := Except.ok.inj (hjudge.symm.trans hv)
  -- only one verdict mirrors a mismatch
  cases hmirrors
  exact ⟨rfl, rfl, rfl, hjudge, hw⟩

end ReleaseSeal.Compare
