import ReleaseSeal.Proofs.Compare.Result

/-!
# What an accepted archive is accountable for

If a comparison ends without a mismatch, any two files of one path are accounted for, byte for byte,
unless their recorded values agree or the path is one of a file that may differ. The comparison trusts
recorded values that agree: it does not read such files, and does not see whether they differ.

## Key results

- `accounted_of_compareArchives`: what holds of any two files of one path
- `recorded_values_hide_payloads`: two files that agree in nothing but what is recorded for them
-/

namespace ReleaseSeal.Compare

open Archive (Entry)

/-- If a comparison ends without a mismatch, any two entries of one path that are not both directories,
    and whose path is not one of a file that may differ, have the same recorded size and checksum, or
    their payloads are equal, equal without their signatures, or, for the main executable, within the
    permitted number of edits. -/
theorem accounted_of_compareArchives [Host] {trusted untrusted : List Entry} {o : Options} {c : Comparison}
    (h : compareArchives trusted untrusted o = .ok c) :
    ∀ t ∈ trusted, ∀ u ∈ untrusted, t.path = u.path → ¬AreDirs (t, u) →
      Bundle.Category.ofPath? t.path = none →
      ∀ x y, t.read = .ok x → u.read = .ok y →
        RecordedSame t u ∨ Accounted o (c.mainExecutable == some t.path) x y := by
  intro t ht u hu hpath hdirs hcategory x y hx hy
  obtain ⟨v, hv, haccepted⟩ := exists_accepts h ht hu hpath hdirs
  exact accounted_of_judge hv haccepted hcategory hx hy

/-- A main executable to which a byte is added, where one edit is permitted: the comparison accepts it,
    and it is accounted for though the payloads differ. -/
theorem accounted_of_one_edit_in_main_executable :
    let t := fileWith "A.app/Contents/MacOS/A" 1 ⟨#[1]⟩
    let u := fileWith "A.app/Contents/MacOS/A" 2 ⟨#[1, 2]⟩
    let o : Options := { Options.standard with permitted := 1, permitted_le := by decide }
    let c : Comparison :=
      { root := "A.app", mainExecutable := some "A.app/Contents/MacOS/A", coreSize := 1, info := none,
        verdicts := [.tolerated "A.app/Contents/MacOS/A" (some 1) none] }
    compareArchives [t] [u] o = .ok c ∧ ¬AreDirs (t, u) ∧
      Bundle.Category.ofPath? t.path = none ∧ t.read = .ok ⟨#[1]⟩ ∧ u.read = .ok ⟨#[1, 2]⟩ ∧
      ¬RecordedSame t u ∧ Accounted o true ⟨#[1]⟩ ⟨#[1, 2]⟩ := by
  intro t u o c
  have hroot : Bundle.root? o.suffix [t.path] = some "A.app" :=
    Bundle.root?_singleton (by decide) (by decide)
  have hlayout : Bundle.Layout.find [fileWith "A.app/Contents/MacOS/A" 1 ⟨#[1]⟩] "A.app" ".app" =
      .ok { executable := some "A.app/Contents/MacOS/A", info := none } := rfl
  have hrecorded : ¬RecordedSame t u := fun hno => absurd hno.1 (by decide)
  have hcategory : Bundle.Category.ofPath? t.path = none := by decide
  have hjudge : judge t u true o = .ok (.tolerated t.path (some 1) none) :=
    judge_eq_tolerated hrecorded hcategory (x := ⟨#[1]⟩) (y := ⟨#[1, 2]⟩) rfl rfl rfl (by decide)
  have hdirs : ¬AreDirs (t, u) := by decide
  have hcompare : compareArchives [t] [u] o = .ok c :=
    compareArchives_singleton (t := t) (u := u) rfl hroot hlayout hdirs
      ⟨hjudge, fun ⟨_, _, hno⟩ => nomatch hno⟩
  refine ⟨hcompare, hdirs, hcategory, rfl, rfl, hrecorded, ?_⟩
  exact (accounted_of_compareArchives hcompare t List.mem_cons_self u List.mem_cons_self rfl
    hdirs hcategory ⟨#[1]⟩ ⟨#[1, 2]⟩ rfl rfl).resolve_left hrecorded

/-- Two files of one path whose recorded values agree: the comparison finds them identical, but their
    payloads differ, are no binaries, and are not those of a main executable. -/
theorem recorded_values_hide_payloads :
    let t := fileWith "A.app/notes" 0 ⟨#[1]⟩
    let u := fileWith "A.app/notes" 0 ⟨#[2]⟩
    let c : Comparison :=
      { root := "A.app", mainExecutable := none, coreSize := 0, info := none,
        verdicts := [.identical "A.app/notes"] }
    compareArchives [t] [u] .standard = .ok c ∧ ¬AreDirs (t, u) ∧
      Bundle.Category.ofPath? t.path = none ∧ t.read = .ok ⟨#[1]⟩ ∧ u.read = .ok ⟨#[2]⟩ ∧
      ¬Accounted .standard (c.mainExecutable == some t.path) ⟨#[1]⟩ ⟨#[2]⟩ := by
  intro t u c
  have hroot : Bundle.root? Options.standard.suffix [t.path] = some "A.app" :=
    Bundle.root?_singleton (by decide) (by decide)
  have hlayout : Bundle.Layout.find [fileWith "A.app/notes" 0 ⟨#[1]⟩] "A.app"
      Options.standard.suffix =
      .ok { executable := none, info := none } := rfl
  have hjudge : judge t u false .standard = .ok (.identical t.path) :=
    judge_eq_ok_iff.mpr (.inl ⟨⟨rfl, rfl⟩, rfl⟩)
  have hdirs : ¬AreDirs (t, u) := by decide
  have hcompare : compareArchives [t] [u] .standard = .ok c :=
    compareArchives_singleton (t := t) (u := u) rfl hroot hlayout hdirs
      ⟨hjudge, fun ⟨_, _, hno⟩ => nomatch hno⟩
  refine ⟨hcompare, hdirs, by decide, rfl, rfl, ?_⟩
  rintro (hsame | ⟨hbinary, -⟩ | ⟨hmain, -⟩)
  · exact absurd hsame (by decide)
  · exact absurd hbinary (by decide)
  · exact absurd hmain (by decide)

end ReleaseSeal.Compare
