import ReleaseSeal.Proofs.Compare.Result

/-!
# The limit on the main executable

The main executable of a comparison is an entry of both archives, whatever its name is and wherever the
name comes from. If the comparison ends without a mismatch, no more edits than permitted turn one of its
payloads into the other, unless the recorded values agree or the path is one of a file that may differ.
The path comes first: a main executable whose name is that of a signature's file is not looked at, and
no limit holds for it.

## Key results

- `exists_entries_of_mainExecutable`: the main executable is an entry of both archives
- `mainExecutable_within_permitted`: the limit on its payloads
- `signature_name_hides_mainExecutable`: a main executable that is not looked at
-/

namespace ReleaseSeal.Compare

open Archive (Entry)

section

variable {trusted untrusted : List Entry} {o : Options} {c : Comparison}

/-- The main executable of a comparison that ends without a mismatch is an entry of both archives. -/
theorem exists_entries_of_mainExecutable [Host] {path : String}
    (h : compareArchives trusted untrusted o = .ok c) (hmain : c.mainExecutable = some path) :
    ∃ t ∈ trusted, ∃ u ∈ untrusted, t.path = path ∧ u.path = path := by
  obtain ⟨pairs, hreports⟩ := exists_reports h
  -- it is an entry of the trusted archive, and each of these has a partner
  obtain ⟨t, ht, rfl⟩ := Bundle.Layout.exists_entry_of_executable hreports.layout hmain
  have hmem := ht
  rw [← hreports.pairing.fst] at hmem
  obtain ⟨⟨t, u⟩, hpair, rfl⟩ := List.mem_map.mp hmem
  have hupath := hreports.pairing.path_eq _ hpair
  exact ⟨t, ht, u, hreports.pairing.snd_mem _ hpair, rfl, hupath.symm⟩

/-- Payloads of the main executable that are accepted for their sake are within the permitted number
    of edits. -/
theorem exists_edits_le_permitted {x y : ByteArray} {path : String} {v : Verdict}
    (h : judgePayloads path true o x y = .ok v) (haccepted : ¬v.IsFatal) :
    ∃ x' y' n, o.stripper.Prepares x y x' y' ∧
      IsLeast {n | ∃ i r, Edit.Edits x'.data.toList y'.data.toList i r ∧ n = i + r} n ∧
      n ≤ o.permitted := by
  obtain ⟨x', y', hprepares, hle⟩ := exists_accepted_judgePayloads_iff.mp ⟨v, h, haccepted⟩
  exact ⟨x', y', _, hprepares, Edit.distance_isLeast _ _, hle⟩

/-- The limit on the main executable. If a comparison ends without a mismatch, its main executable is an
    entry of both archives; and unless both entries are directories, their recorded sizes and checksums
    agree, or the path is one of a file that may differ, or the least number of insertions and removals
    of a byte between their payloads, without their signatures where these are taken off, is not above
    the permitted one. -/
theorem mainExecutable_within_permitted [Host] {path : String}
    (h : compareArchives trusted untrusted o = .ok c) (hmain : c.mainExecutable = some path) :
    (∃ t ∈ trusted, ∃ u ∈ untrusted, t.path = path ∧ u.path = path) ∧
    ∀ t ∈ trusted, ∀ u ∈ untrusted, t.path = path → u.path = path → ¬AreDirs (t, u) →
      RecordedSame t u ∨ (∃ category, Bundle.Category.ofPath? path = some category) ∨
        ∃ x y x' y' n, t.read = .ok x ∧ u.read = .ok y ∧ o.stripper.Prepares x y x' y' ∧
          IsLeast {n | ∃ i r, Edit.Edits x'.data.toList y'.data.toList i r ∧ n = i + r} n ∧
          n ≤ o.permitted := by
  refine ⟨exists_entries_of_mainExecutable h hmain, ?_⟩
  rintro t ht u hu rfl hpath hdirs
  obtain ⟨v, hv, haccepted⟩ := exists_accepts h ht hu hpath.symm hdirs
  have hisMain : (c.mainExecutable == some t.path) = true := by rw [hmain]; exact beq_self_eq_true _
  rw [hisMain] at hv
  -- by what the verdict is based on
  obtain ⟨hsame, -⟩ | ⟨-, category, hcategory, -⟩ | ⟨-, -, x, y, hx, hy, hpayloads⟩ :=
    judge_eq_ok_iff.mp hv
  · exact .inl hsame
  · exact .inr (.inl ⟨category, hcategory⟩)
  · obtain ⟨x', y', n, hprepares, hleast, hle⟩ := exists_edits_le_permitted hpayloads haccepted
    exact .inr (.inr ⟨x, y, x', y', n, hx, hy, hprepares, hleast, hle⟩)

end

/-- A main executable from which a byte is removed, where one edit is permitted. -/
theorem mainExecutable_within_permitted_one_edit :
    let t := fileWith "Payload/B.app/B" 1 ⟨#[1, 2]⟩
    let u := fileWith "Payload/B.app/B" 2 ⟨#[1]⟩
    let o : Options := { Options.standard with permitted := 1, permitted_le := by decide }
    let c : Comparison :=
      { root := "B.app", mainExecutable := some "Payload/B.app/B", coreSize := 2, info := none,
        verdicts := [.tolerated "Payload/B.app/B" (some 1) none] }
    compareArchives [t] [u] o = .ok c ∧ c.mainExecutable = some t.path ∧ ¬AreDirs (t, u) ∧
      ∃ x y x' y' n, t.read = .ok x ∧ u.read = .ok y ∧ o.stripper.Prepares x y x' y' ∧
        IsLeast {n | ∃ i r, Edit.Edits x'.data.toList y'.data.toList i r ∧ n = i + r} n ∧ n ≤ 1 := by
  intro t u o c
  have hroot : Bundle.root? o.suffix [t.path] = some "B.app" :=
    Bundle.root?_singleton (by decide) (by decide)
  have hlayout : Bundle.Layout.find [t] "B.app" ".app" =
      .ok { executable := some "Payload/B.app/B", info := none } := rfl
  have hrecorded : ¬RecordedSame t u := fun hno => absurd hno.1 (by decide)
  have hcategory : Bundle.Category.ofPath? t.path = none := by decide
  have hjudge : judge t u true o = .ok (.tolerated t.path (some 1) none) :=
    judge_eq_tolerated hrecorded hcategory (x := ⟨#[1, 2]⟩) (y := ⟨#[1]⟩) rfl rfl rfl (by decide)
  have hdirs : ¬AreDirs (t, u) := by decide
  have hcompare : compareArchives [t] [u] o = .ok c :=
    compareArchives_singleton (t := t) (u := u) rfl hroot hlayout hdirs
      ⟨hjudge, fun ⟨_, _, hno⟩ => nomatch hno⟩
  refine ⟨hcompare, rfl, hdirs, ?_⟩
  have hlimit := (mainExecutable_within_permitted hcompare rfl).2 t List.mem_cons_self u
    List.mem_cons_self rfl rfl hdirs
  -- neither do the recorded values agree nor may the path differ
  obtain ⟨category, hno⟩ | hedits := hlimit.resolve_left hrecorded
  · exact nomatch hcategory.symm.trans hno
  · exact hedits

/-- A main executable with the name of one of the files that a signature consists of: the comparison
    accepts it where no edit is permitted, though two edits are needed and the recorded values differ. -/
theorem signature_name_hides_mainExecutable :
    let path := "CodeDirectory.app/Contents/MacOS/CodeDirectory"
    let t := fileWith path 1 ⟨#[1]⟩
    let u := fileWith path 2 ⟨#[2]⟩
    let c : Comparison :=
      { root := "CodeDirectory.app", mainExecutable := some path, coreSize := 1, info := none,
        verdicts := [.tolerated path none (some .codeSignature)] }
    compareArchives [t] [u] .standard = .ok c ∧ ¬AreDirs (t, u) ∧ ¬RecordedSame t u ∧
      t.read = .ok ⟨#[1]⟩ ∧ u.read = .ok ⟨#[2]⟩ ∧
      Options.standard.stripper.Prepares ⟨#[1]⟩ ⟨#[2]⟩ ⟨#[1]⟩ ⟨#[2]⟩ ∧
      ∀ i r, Edit.Edits [1] [2] i r → ¬i + r ≤ Options.standard.permitted := by
  intro path t u c
  have hroot : Bundle.root? Options.standard.suffix [t.path] = some "CodeDirectory.app" :=
    Bundle.root?_singleton (by decide) (by decide)
  have hlayout : Bundle.Layout.find [t] "CodeDirectory.app" Options.standard.suffix =
      .ok { executable := some path, info := none } := rfl
  have hrecorded : ¬RecordedSame t u := fun hno => absurd hno.1 (by decide)
  have hcategory : Bundle.Category.ofPath? t.path = some .codeSignature := by decide
  have hjudge : judge t u true .standard = .ok (.tolerated t.path none (some .codeSignature)) :=
    judge_eq_ok_iff.mpr (.inr (.inl ⟨hrecorded, _, hcategory, rfl⟩))
  have hdirs : ¬AreDirs (t, u) := by decide
  have hcompare : compareArchives [t] [u] .standard = .ok c :=
    compareArchives_singleton (t := t) (u := u) rfl hroot hlayout hdirs
      ⟨hjudge, fun ⟨_, _, hno⟩ => nomatch hno⟩
  refine ⟨hcompare, hdirs, hrecorded, rfl, rfl, ⟨rfl, rfl⟩, fun i r hedits hle => ?_⟩
  -- the distance of the payloads is two
  have hleast := (Edit.distance_isLeast [1] [2]).2 ⟨i, r, hedits, rfl⟩
  have htwo : Edit.distance [1] [2] = 2 := by decide
  rw [htwo] at hleast
  exact absurd (Nat.le_trans hleast hle) (by decide)

end ReleaseSeal.Compare
