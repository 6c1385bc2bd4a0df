import Mathlib.Order.Bounds.Basic
import ReleaseSeal.Proofs.Compare.Archives

/-!
# The threshold

Whether a difference is tolerated depends on the payloads and on the number of changes that are permitted,
not on how far differences are searched for: a search goes at least as far as what is permitted, and one
that gives up reports more than that. So the verdict changes exactly between a threshold of the distance
and one below it, and the search limit of the options shows in the counts of a mismatch only.

## Key results

- `judgePayloads_within` / `exists_judgePayloads_beyond`: the verdicts on both sides of the threshold
- `judge_changes_at_distance`: the verdict on two entries under every search limit
-/

namespace ReleaseSeal.Compare

open Archive (Entry)

/-- The options with another limit of the search for differences. -/
def Options.withEditLimit (o : Options) (limit : Nat) (h : limit ≤ Edit.maxLimit) : Options :=
  { o with editLimit := limit, editLimit_le := h }

variable {t u : Entry} {path : String} {isMain : Bool} {o : Options} {x y x' y' : ByteArray}

/-- The verdict on payloads within the permitted distance: their signatures are all that differs, or the
    distance is reported. -/
def toleratedVerdict (path : String) (s : Stripper) (x y x' y' : ByteArray) (D : Nat) : Verdict :=
  if s.applies x y = true ∧ x'.data = y'.data then .tolerated path (some 0) (some .codeSignature)
  else .tolerated path (some D) none

theorem isTolerated_toleratedVerdict (path : String) (s : Stripper) (x y x' y' : ByteArray) (D : Nat) :
    (toleratedVerdict path s x y x' y' D).isTolerated = true := by
  unfold toleratedVerdict
  split <;> rfl

/-- Payloads within the permitted distance are tolerated. -/
theorem judgePayloads_within (hprepares : o.stripper.Prepares x y x' y')
    (hle : Edit.distance x'.data.toList y'.data.toList ≤ o.permittedIn isMain) :
    judgePayloads path isMain o x y =
      .ok (toleratedVerdict path o.stripper x y x' y'
        (Edit.distance x'.data.toList y'.data.toList)) := by
  refine judgePayloads_eq_ok_iff.mpr ⟨x', y', hprepares, ?_⟩
  unfold toleratedVerdict
  split
  · rename_i hsigned
    exact .inl ⟨hsigned.1, ByteArray.ext hsigned.2, rfl⟩
  · rename_i hsigned
    rw [← ByteArray.ext_iff] at hsigned
    exact .inr ⟨hsigned, (judgeContent_of_le hle).symm⟩

/-- Payloads beyond the permitted distance are a mismatch of more changes than are permitted. -/
theorem exists_judgePayloads_beyond (hprepares : o.stripper.Prepares x y x' y')
    (hlt : o.permittedIn isMain < Edit.distance x'.data.toList y'.data.toList) :
    ∃ summary : Edit.Summary, o.permittedIn isMain < summary.total ∧
      judgePayloads path isMain o x y =
        .ok (.fatal path (.content path summary (o.permittedIn isMain))) := by
  obtain ⟨summary, htotal, hfatal⟩ := exists_judgeContent_of_lt hlt
  refine ⟨summary, htotal, judgePayloads_eq_ok_iff.mpr ⟨x', y', hprepares, .inr ⟨?_, hfatal.symm⟩⟩⟩
  -- payloads that are equal without their signatures have the distance zero
  rintro ⟨-, rfl⟩
  rw [Edit.distance_eq_zero_iff.mpr rfl] at hlt
  exact Nat.not_lt_zero _ hlt

/-- Entries whose recorded values differ, on a path that may not, have the verdict on their payloads. -/
theorem judge_eq_judgePayloads (hrecorded : ¬RecordedSame t u)
    (hcategory : Bundle.Category.ofPath? t.path = none) (ht : t.read = .ok x) (hu : u.read = .ok y) :
    judge t u isMain o = judgePayloads t.path isMain o x y := by
  unfold RecordedSame at hrecorded
  rw [judge, if_neg hrecorded, hcategory, ht, hu]
  rfl

/-- The verdict changes where the distance of the payloads is permitted. Let the recorded values of two
    entries differ, their path be none that may differ, and their signatures come off where that applies;
    and let `D` be the least number of insertions and removals of a byte between what is compared of their
    payloads. Whatever the search for differences is limited to, the verdict is that the entries are
    tolerated exactly if `D` is permitted, with the same counts under every limit: none, for their
    signatures, if these are all that differs, and `D` otherwise. If `D` is not permitted, the verdict is a
    mismatch of more changes than are permitted. -/
theorem judge_changes_at_distance (isMain : Bool) (hrecorded : ¬RecordedSame t u)
    (hcategory : Bundle.Category.ofPath? t.path = none) (ht : t.read = .ok x) (hu : u.read = .ok y)
    (hstrip : o.stripper.applies x y = true →
      ∃ x' y', o.stripper.strip x = .ok x' ∧ o.stripper.strip y = .ok y') :
    ∃ x' y' D, o.stripper.Prepares x y x' y' ∧
      IsLeast {n | ∃ i r, Edit.Edits x'.data.toList y'.data.toList i r ∧ n = i + r} D ∧
      ∀ limit (hlimit : limit ≤ Edit.maxLimit), ∃ v,
        judge t u isMain (o.withEditLimit limit hlimit) = .ok v ∧
        (v.isTolerated = true ↔ D ≤ o.permittedIn isMain) ∧
        (D ≤ o.permittedIn isMain → v = toleratedVerdict t.path o.stripper x y x' y' D) ∧
        (o.permittedIn isMain < D → ∃ summary : Edit.Summary, o.permittedIn isMain < summary.total ∧
          v = .fatal t.path (.content t.path summary (o.permittedIn isMain))) := by
  obtain ⟨x', y', hprepares⟩ := Stripper.exists_prepares hstrip
  refine ⟨x', y', _, hprepares, Edit.distance_isLeast _ _, fun limit hlimit => ?_⟩
  rw [judge_eq_judgePayloads hrecorded hcategory ht hu]
  -- the limit of the search is neither in what is compared nor in what is permitted
  have hprepares' : (o.withEditLimit limit hlimit).stripper.Prepares x y x' y' := hprepares
  have hpermitted : (o.withEditLimit limit hlimit).permittedIn isMain = o.permittedIn isMain := rfl
  rcases Nat.lt_or_ge (o.permittedIn isMain) (Edit.distance x'.data.toList y'.data.toList) with hlt | hle
  · obtain ⟨summary, htotal, hfatal⟩ := exists_judgePayloads_beyond hprepares' (hpermitted ▸ hlt)
    exact ⟨_, hfatal, ⟨nofun, fun hle => absurd hlt (Nat.not_lt.mpr hle)⟩,
      fun hle => absurd hlt (Nat.not_lt.mpr hle), fun _ => ⟨summary, htotal, rfl⟩⟩
  · exact ⟨_, judgePayloads_within hprepares' (hpermitted ▸ hle),
      iff_of_true (isTolerated_toleratedVerdict ..) hle, fun _ => rfl,
      fun hlt => absurd hlt (Nat.not_lt.mpr hle)⟩

/-- A byte that is missing is tolerated where one change is permitted, and a mismatch where none is,
    whatever the search is limited to. -/
theorem judge_changes_at_distance_one :
    let t := fileWith "A.app/A" 1 ⟨#[1, 2]⟩
    let u := fileWith "A.app/A" 2 ⟨#[1]⟩
    let o : Options := { Options.standard with permitted := 1, permitted_le := by decide }
    ¬RecordedSame t u ∧ Bundle.Category.ofPath? t.path = none ∧ t.read = .ok ⟨#[1, 2]⟩ ∧
      u.read = .ok ⟨#[1]⟩ ∧
      ∀ limit (hlimit : limit ≤ Edit.maxLimit),
        judge t u true (o.withEditLimit limit hlimit) = .ok (.tolerated t.path (some 1) none) ∧
        ∃ summary : Edit.Summary, 0 < summary.total ∧
          judge t u true (Options.standard.withEditLimit limit hlimit) =
            .ok (.fatal t.path (.content t.path summary 0)) := by
  intro t u o
  have hrecorded : ¬RecordedSame t u := fun hno => absurd hno.1 (by decide)
  have hcategory : Bundle.Category.ofPath? t.path = none := by decide
  refine ⟨hrecorded, hcategory, rfl, rfl, fun limit hlimit => ?_⟩
  -- one edit is the least between these payloads
  have hone : Edit.distance [1, 2] [1] = 1 := by decide
  constructor
  · obtain ⟨x', y', D, ⟨rfl, rfl⟩, hleast, hlimits⟩ :=
      judge_changes_at_distance (o := o) true hrecorded hcategory rfl rfl nofun
    obtain rfl : D = 1 := hone ▸ hleast.unique (Edit.distance_isLeast [1, 2] [1])
    obtain ⟨v, hv, -, hwithin, -⟩ := hlimits limit hlimit
    rw [hv, hwithin (Nat.le_refl 1)]
    rfl
  · obtain ⟨x', y', D, ⟨rfl, rfl⟩, hleast, hlimits⟩ :=
      judge_changes_at_distance (o := .standard) true hrecorded hcategory rfl rfl nofun
    obtain rfl : D = 1 := hone ▸ hleast.unique (Edit.distance_isLeast [1, 2] [1])
    obtain ⟨v, hv, -, -, hbeyond⟩ := hlimits limit hlimit
    obtain ⟨summary, htotal, rfl⟩ := hbeyond Nat.one_pos
    exact ⟨summary, htotal, hv⟩

end ReleaseSeal.Compare
