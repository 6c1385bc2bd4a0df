import ReleaseSeal.Compare.Verdict
import ReleaseSeal.Proofs.Edit.Summary
import ReleaseSeal.Proofs.Outcome

/-!
# What a verdict says

The verdict on two payloads depends on their edit distance only: a difference is tolerated exactly if
the distance is permitted, whatever the search was limited to. So an entry that is accepted without
looking at its payloads has equal recorded values or a path that may differ; otherwise its payloads
are equal, equal without their signatures, or as close as is permitted for the main executable.

## Key results

- `judgeContent_of_le` / `exists_judgeContent_of_lt`: which differences are tolerated
- `judge_path`: a verdict is on the path of the entries
- `exists_judge`: readable payloads have a verdict
- `accounted_of_judge`: what an accepted pair of entries has to show
-/

namespace ReleaseSeal.Compare

open Archive (Entry)

/-- The verdict is a mismatch. -/
def Verdict.IsFatal (v : Verdict) : Prop :=
  ∃ path reason, v = .fatal path reason

/-- Two payloads as they are compared: without their signatures where these are taken off. -/
def Stripper.Prepares (s : Stripper) (x y x' y' : ByteArray) : Prop :=
  if s.applies x y then s.strip x = .ok x' ∧ s.strip y = .ok y' else x' = x ∧ y' = y

/-- What the payloads of an entry that is accepted for their sake have to show: they are equal, or
    equal without their signatures, or the entry is the main executable and no more edits than
    permitted turn one into the other. -/
def Accounted (o : Options) (isMain : Bool) (x y : ByteArray) : Prop :=
  x = y ∨
  (MachO.looksLikeMachO x = true ∧ MachO.looksLikeMachO y = true ∧
    ∃ z, o.stripper.strip x = .ok z ∧ o.stripper.strip y = .ok z) ∨
  (isMain = true ∧ ∃ x' y' i r, o.stripper.Prepares x y x' y' ∧
    Edit.Edits x'.data.toList y'.data.toList i r ∧ i + r ≤ o.permitted)

/-! ## Payloads -/

/-- A difference that is permitted is tolerated, and the number of changes is the distance. -/
theorem judgeContent_of_le {path : String} {isMain : Bool} {o : Options} {x y : ByteArray}
    (h : Edit.distance x.data.toList y.data.toList ≤ o.permittedIn isMain) :
    judgeContent path isMain o x y =
      .tolerated path (some (Edit.distance x.data.toList y.data.toList)) none := by
  -- the search goes at least as far as what is permitted
  have hlimit : o.permittedIn isMain ≤ o.searchLimit isMain := Nat.le_max_right ..
  have hsummary : (Edit.summarize x y (o.searchLimit isMain)).capped = false ∧
      (Edit.summarize x y (o.searchLimit isMain)).total =
        Edit.distance x.data.toList y.data.toList := by
    rw [Edit.summarize_eq, if_neg (by omega)]
    exact ⟨rfl, Edit.Summary.total_ofTotal ..⟩
  simp only [judgeContent, hsummary]
  rw [if_pos]
  simp
  omega

/-- A difference that is not permitted is a mismatch of more changes than are permitted. -/
theorem exists_judgeContent_of_lt {path : String} {isMain : Bool} {o : Options} {x y : ByteArray}
    (h : o.permittedIn isMain < Edit.distance x.data.toList y.data.toList) :
    ∃ summary : Edit.Summary, o.permittedIn isMain < summary.total ∧
      judgeContent path isMain o x y =
        .fatal path (.content path summary (o.permittedIn isMain)) := by
  have hlimit : o.permittedIn isMain ≤ o.searchLimit isMain := Nat.le_max_right ..
  -- capped or not, the total is above what is permitted
  have htotal : o.permittedIn isMain < (Edit.summarize x y (o.searchLimit isMain)).total := by
    rw [Edit.summarize_eq]
    split
    · rw [Edit.Summary.total_ofTotal]
      have hbound := (Edit.Summary.lowerBound_spec (o.searchLimit isMain)
        ((y.size : Int) - x.size)).1
      omega
    · rw [Edit.Summary.total_ofTotal]
      omega
  refine ⟨_, htotal, ?_⟩
  simp only [judgeContent]
  rw [if_neg]
  simp
  omega

theorem judgeContent_path (path : String) (isMain : Bool) (o : Options) (x y : ByteArray) :
    (judgeContent path isMain o x y).path = path := by
  simp only [judgeContent]
  split <;> rfl

/-- The verdict on two payloads, in terms of what is compared of them. -/
theorem judgePayloads_eq_ok_iff {path : String} {isMain : Bool} {o : Options} {x y : ByteArray}
    {v : Verdict} :
    judgePayloads path isMain o x y = .ok v ↔
      ∃ x' y', o.stripper.Prepares x y x' y' ∧
        ((o.stripper.applies x y = true ∧ x' = y' ∧
            v = .tolerated path (some 0) (some .codeSignature)) ∨
          (¬(o.stripper.applies x y = true ∧ x' = y') ∧ v = judgeContent path isMain o x' y')) := by
  have hdata {a b : ByteArray} : a.data = b.data ↔ a = b := ByteArray.ext_iff.symm
  unfold judgePayloads Stripper.Prepares
  by_cases happlies : o.stripper.applies x y = true
  · -- the signatures are taken off both payloads
    simp only [happlies, if_true, bind_eq_ok, true_and]
    constructor
    · rintro ⟨x', hx, y', hy, hv⟩
      refine ⟨x', y', ⟨hx, hy⟩, ?_⟩
      split at hv
      · rename_i hsame
        exact .inl ⟨hdata.mp hsame, (pure_eq_ok.mp hv).symm⟩
      · rename_i hdiff
        exact .inr ⟨fun hsame => hdiff (hdata.mpr hsame), (pure_eq_ok.mp hv).symm⟩
    · rintro ⟨x', y', ⟨hx, hy⟩, hv⟩
      refine ⟨x', hx, y', hy, ?_⟩
      obtain ⟨hsame, rfl⟩ | ⟨hdiff, rfl⟩ := hv
      · rw [if_pos (hdata.mpr hsame)]
        rfl
      · rw [if_neg fun hsame => hdiff (hdata.mp hsame)]
        rfl
  · -- the payloads are compared as they are
    simp only [happlies, Bool.false_eq_true, if_false, false_and, not_false_eq_true, true_and,
      false_or, pure_eq_ok]
    constructor
    · rintro rfl
      exact ⟨x, y, ⟨rfl, rfl⟩, rfl⟩
    · rintro ⟨x', y', ⟨rfl, rfl⟩, rfl⟩
      rfl

/-- There is something to compare if the signatures can be taken off where that applies. -/
theorem Stripper.exists_prepares {s : Stripper} {x y : ByteArray}
    (h : s.applies x y = true → ∃ x' y', s.strip x = .ok x' ∧ s.strip y = .ok y') :
    ∃ x' y', s.Prepares x y x' y' := by
  unfold Stripper.Prepares
  split
  · rename_i happlies
    exact h happlies
  · exact ⟨x, y, rfl, rfl⟩

/-- Payloads have a verdict if the signatures can be taken off where that applies. -/
theorem exists_judgePayloads {path : String} {isMain : Bool} {o : Options} {x y : ByteArray}
    (h : o.stripper.applies x y = true →
      ∃ x' y', o.stripper.strip x = .ok x' ∧ o.stripper.strip y = .ok y') :
    ∃ v, judgePayloads path isMain o x y = .ok v := by
  obtain ⟨x', y', hprepares⟩ := Stripper.exists_prepares h
  by_cases hsame : o.stripper.applies x y = true ∧ x' = y'
  · exact ⟨_, judgePayloads_eq_ok_iff.mpr ⟨x', y', hprepares, .inl ⟨hsame.1, hsame.2, rfl⟩⟩⟩
  · exact ⟨_, judgePayloads_eq_ok_iff.mpr ⟨x', y', hprepares, .inr ⟨hsame, rfl⟩⟩⟩

/-- Payloads are accepted exactly if what is compared of them is within the permitted distance. -/
theorem exists_accepted_judgePayloads_iff {path : String} {isMain : Bool} {o : Options}
    {x y : ByteArray} :
    (∃ v, judgePayloads path isMain o x y = .ok v ∧ ¬v.IsFatal) ↔
      ∃ x' y', o.stripper.Prepares x y x' y' ∧
        Edit.distance x'.data.toList y'.data.toList ≤ o.permittedIn isMain := by
  constructor
  · rintro ⟨v, hv, haccepted⟩
    obtain ⟨x', y', hprepares, hverdict⟩ := judgePayloads_eq_ok_iff.mp hv
    refine ⟨x', y', hprepares, ?_⟩
    obtain ⟨-, rfl, -⟩ | ⟨-, rfl⟩ := hverdict
    · rw [Edit.distance_eq_zero_iff.mpr rfl]
      exact Nat.zero_le _
    · by_contra hlt
      obtain ⟨summary, -, hfatal⟩ := exists_judgeContent_of_lt (Nat.lt_of_not_le hlt)
      exact haccepted ⟨path, _, hfatal⟩
  · rintro ⟨x', y', hprepares, hle⟩
    by_cases hsame : o.stripper.applies x y = true ∧ x' = y'
    · exact ⟨.tolerated path (some 0) (some .codeSignature), judgePayloads_eq_ok_iff.mpr
        ⟨x', y', hprepares, .inl ⟨hsame.1, hsame.2, rfl⟩⟩, fun ⟨_, _, hno⟩ => nomatch hno⟩
    · refine ⟨judgeContent path isMain o x' y',
        judgePayloads_eq_ok_iff.mpr ⟨x', y', hprepares, .inr ⟨hsame, rfl⟩⟩, ?_⟩
      rw [judgeContent_of_le hle]
      exact fun ⟨_, _, hno⟩ => nomatch hno

/-- What payloads with a verdict other than a mismatch have to show. -/
theorem accounted_of_judgePayloads {path : String} {isMain : Bool} {o : Options} {x y : ByteArray}
    {v : Verdict} (h : judgePayloads path isMain o x y = .ok v) (hv : ¬v.IsFatal) :
    Accounted o isMain x y := by
  obtain ⟨x', y', hprepares, hle⟩ := exists_accepted_judgePayloads_iff.mp ⟨v, h, hv⟩
  by_cases hsame : x' = y'
  · -- nothing differs in what is compared
    unfold Stripper.Prepares at hprepares
    split at hprepares
    · rename_i happlies
      simp only [Stripper.applies, Bool.and_eq_true] at happlies
      exact .inr (.inl ⟨happlies.1.2, happlies.2, x', hprepares.1, hsame ▸ hprepares.2⟩)
    · exact .inl (hprepares.1.symm.trans (hsame.trans hprepares.2))
  · cases isMain with
    | false =>
      -- nothing is permitted elsewhere, and only equal payloads have the distance zero
      have hzero : Edit.distance x'.data.toList y'.data.toList = 0 := Nat.le_zero.mp hle
      exact absurd (eq_of_data_toList_eq (Edit.distance_eq_zero_iff.mp hzero)) hsame
    | true =>
      obtain ⟨i, r, hedits, hd⟩ := (Edit.distance_isLeast x'.data.toList y'.data.toList).1
      exact .inr (.inr ⟨rfl, x', y', i, r, hprepares, hedits, hd ▸ hle⟩)

/-! ## Entries -/

/-- The recorded values of two entries agree, so that their payloads are not looked at. -/
def RecordedSame (t u : Entry) : Prop :=
  t.checksum = u.checksum ∧ t.size = u.size

/-- The verdict on two entries, by what it is based on. -/
theorem judge_eq_ok_iff {t u : Entry} {isMain : Bool} {o : Options} {v : Verdict} :
    judge t u isMain o = .ok v ↔
      (RecordedSame t u ∧ v = .identical t.path) ∨
      (¬RecordedSame t u ∧
        ∃ category, Bundle.Category.ofPath? t.path = some category ∧
          v = .tolerated t.path none (some category)) ∨
      (¬RecordedSame t u ∧ Bundle.Category.ofPath? t.path = none ∧
        ∃ x y, t.read = .ok x ∧ u.read = .ok y ∧ judgePayloads t.path isMain o x y = .ok v) := by
  unfold judge RecordedSame
  by_cases hsame : t.checksum = u.checksum ∧ t.size = u.size
  · simp only [hsame, if_true, Except.ok.injEq, true_and, not_true, false_and, or_false, and_self]
    exact eq_comm
  · simp only [hsame, if_false, false_and, not_false_eq_true, true_and, false_or]
    cases hcategory : Bundle.Category.ofPath? t.path with
    | some category => simp [eq_comm]
    | none => simp [bind_eq_ok, mapError_eq_ok]

/-- A verdict is on the path of the entries. -/
theorem judge_path {t u : Entry} {isMain : Bool} {o : Options} {v : Verdict}
    (h : judge t u isMain o = .ok v) : v.path = t.path := by
  obtain ⟨-, rfl⟩ | ⟨-, category, -, rfl⟩ | ⟨-, -, x, y, -, -, hpayloads⟩ := judge_eq_ok_iff.mp h
  · rfl
  · rfl
  · obtain ⟨x', y', -, ⟨-, -, rfl⟩ | ⟨-, rfl⟩⟩ := judgePayloads_eq_ok_iff.mp hpayloads
    · rfl
    · exact judgeContent_path ..

/-- Entries with readable payloads have a verdict if the signatures can be taken off where the payloads
    are looked at and that applies. -/
theorem exists_judge {t u : Entry} {isMain : Bool} {o : Options} {x y : ByteArray}
    (ht : t.read = .ok x) (hu : u.read = .ok y)
    (hstrip : ¬RecordedSame t u → Bundle.Category.ofPath? t.path = none →
      o.stripper.applies x y = true →
        ∃ x' y', o.stripper.strip x = .ok x' ∧ o.stripper.strip y = .ok y') :
    ∃ v, judge t u isMain o = .ok v := by
  simp only [judge_eq_ok_iff]
  by_cases hsame : RecordedSame t u
  · exact ⟨_, .inl ⟨hsame, rfl⟩⟩
  · cases hcategory : Bundle.Category.ofPath? t.path with
    | some category => exact ⟨_, .inr (.inl ⟨hsame, category, rfl, rfl⟩)⟩
    | none =>
      obtain ⟨v, hv⟩ := exists_judgePayloads (hstrip hsame hcategory)
      exact ⟨v, .inr (.inr ⟨hsame, rfl, x, y, ht, hu, hv⟩)⟩

/-- Payloads that are read, and whose signatures stay, are tolerated within the permitted distance. -/
theorem judge_eq_tolerated {t u : Entry} {isMain : Bool} {o : Options} {x y : ByteArray}
    (hrecorded : ¬RecordedSame t u) (hcategory : Bundle.Category.ofPath? t.path = none)
    (ht : t.read = .ok x) (hu : u.read = .ok y) (hsigned : o.stripper.applies x y = false)
    (hle : Edit.distance x.data.toList y.data.toList ≤ o.permittedIn isMain) :
    judge t u isMain o =
      .ok (.tolerated t.path (some (Edit.distance x.data.toList y.data.toList)) none) := by
  have hprepares : o.stripper.Prepares x y x y := by
    unfold Stripper.Prepares
    rw [if_neg (by simp [hsigned])]
    exact ⟨rfl, rfl⟩
  refine judge_eq_ok_iff.mpr (.inr (.inr ⟨hrecorded, hcategory, x, y, ht, hu, ?_⟩))
  exact judgePayloads_eq_ok_iff.mpr
    ⟨x, y, hprepares, .inr ⟨by simp [hsigned], (judgeContent_of_le hle).symm⟩⟩

/-- What an accepted pair of entries has to show, unless its path may differ. -/
theorem accounted_of_judge {t u : Entry} {isMain : Bool} {o : Options} {v : Verdict}
    {x y : ByteArray} (h : judge t u isMain o = .ok v) (hv : ¬v.IsFatal)
    (hcategory : Bundle.Category.ofPath? t.path = none) (ht : t.read = .ok x)
    (hu : u.read = .ok y) : RecordedSame t u ∨ Accounted o isMain x y := by
  obtain ⟨hsame, -⟩ | ⟨-, category, hno, -⟩ | ⟨-, -, x', y', hx, hy, hpayloads⟩ :=
    judge_eq_ok_iff.mp h
  · exact .inl hsame
  · rw [hcategory] at hno
    exact nomatch hno
  · obtain rfl : x' = x := Except.ok.inj (hx.symm.trans ht)
    obtain rfl : y' = y := Except.ok.inj (hy.symm.trans hu)
    exact .inr (accounted_of_judgePayloads hpayloads hv)

end ReleaseSeal.Compare
