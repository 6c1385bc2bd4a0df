import ReleaseSeal.Cli.Run
import ReleaseSeal.Proofs.Outcome

/-!
# The parts of a command

What the parts of a command give, and when: the values of flags, archives that are opened, the options of
a comparison and the comparison itself; and how a command line becomes a command, and its report what the
program leaves behind.

## Key results

- `Comparing.options_eq_ok`: the options are the values of the flags
- `Comparing.compare_eq_ok_iff`: what a comparison by command compares
- `mem_of_shape_eq_ok` / `checked_eq_ok`: the command that a command line gives
- `run_of_parse`: running a command line is running its command
-/

namespace ReleaseSeal.Cli

open Archive (Source)
open Compare (Comparison)
open Files (Volume)

variable {v : Volume} {c : Comparing}

/-! ## Values and archives -/

theorem required_eq_ok_iff {α : Type} {flag : String} {value : Option α} {a : α} :
    required flag value = .ok a ↔ value = some a := by
  cases value with
  | none => exact ⟨fun h => (nomatch h), fun h => (nomatch h)⟩
  | some b =>
    show Except.ok b = Except.ok a ↔ _
    simp

theorem openArchive_eq_ok_iff {flag : String} {path : Option String} {source : Source} :
    openArchive v flag path = .ok source ↔ ∃ p, path = some p ∧ Source.ofPath v p = .ok source := by
  simp only [openArchive, bind_eq_ok, required_eq_ok_iff, mapError_eq_ok]

/-- The options have the values of the flags; the suffix is the usual one where its flag is bare. -/
theorem Comparing.options_eq_ok {o : Compare.Options} (h : c.options = .ok o) :
    c.stripper = some o.stripper ∧ c.pairBy = some o.pairBy ∧
      c.suffix.getD Bundle.appSuffix = o.suffix ∧ c.permitted = o.permitted := by
  obtain ⟨stripper, hstripper, h⟩ := bind_eq_ok.mp h
  dsimp only at h
  split at h
  · cases h
  · rename_i pairBy hpairBy
    have hmake := mapError_eq_ok.mp h
    unfold Compare.Options.make at hmake
    split at hmake
    · rename_i hpermitted
      split at hmake
      · cases hmake
        exact ⟨required_eq_ok_iff.mp hstripper, hpairBy, rfl,
          (Int.toNat_of_nonneg hpermitted.1).symm⟩
      · cases hmake
    · cases hmake

/-- A comparison by command is one of the entries of both archives, by the options that its flags give. -/
theorem Comparing.compare_eq_ok_iff [Host] {comparison : Comparison} {trusted : Source} :
    c.compare v = .ok (comparison, trusted) ↔
      ∃ path path' untrusted entries entries' o, c.trusted = some path ∧ c.untrusted = some path' ∧
        Source.ofPath v path = .ok trusted ∧ Source.ofPath v path' = .ok untrusted ∧
        trusted.entries = .ok entries ∧ untrusted.entries = .ok entries' ∧ c.options = .ok o ∧
        c.suffix.isSome = true ∧ Compare.compareArchives entries entries' o = .ok comparison := by
  simp only [Comparing.compare, bind_eq_ok, openArchive_eq_ok_iff, mapError_eq_ok]
  constructor
  · intro h
    obtain ⟨opened, ⟨path, hpath, htrusted⟩, untrusted, ⟨path', hpath', huntrusted⟩, entries, hentries,
      entries', hentries', o, ho, h⟩ := h
    split at h
    · cases h
    · rename_i hsuffix
      obtain ⟨found, hfound, h⟩ := bind_eq_ok.mp h
      cases h
      refine ⟨path, path', untrusted, entries, entries', o, hpath, hpath', htrusted, huntrusted,
        hentries, hentries', ho, ?_, hfound⟩
      rwa [Bool.not_eq_true, Option.isNone_eq_false_iff] at hsuffix
  · intro h
    obtain ⟨path, path', untrusted, entries, entries', o, hpath, hpath', htrusted, huntrusted,
      hentries, hentries', ho, hsuffix, hfound⟩ := h
    refine ⟨trusted, ⟨path, hpath, htrusted⟩, untrusted, ⟨path', hpath', huntrusted⟩, entries, hentries,
      entries', hentries', o, ho, ?_⟩
    rw [if_neg (by rwa [Bool.not_eq_true, Option.isNone_eq_false_iff]), hfound]
    rfl

/-! ## Command lines -/

theorem checked_eq_ok {outer inner : Arguments} {command command' : Command}
    (h : Command.checked outer inner command = .ok command') : command' = command := by
  unfold Command.checked at h
  dsimp only at h
  split at h
  · cases h
  split at h
  · cases h
  split at h
  · cases h
  split at h
  · cases h
  · exact (Except.ok.inj h).symm

theorem mem_of_shape_eq_ok [Host] {name : String} {shape : Command.Shape}
    (h : Command.shape name = .ok shape) : shape ∈ Command.shapes ∧ shape.name = name := by
  unfold Command.shape at h
  split at h
  · rename_i found hfound
    cases h
    exact ⟨List.mem_of_find?_eq_some hfound, by simpa using List.find?_some hfound⟩
  · cases h

/-- Running arguments that give a command is running the command. -/
theorem run_of_parse [Host] {args : List String} {command : Command} (h : Command.parse args = .ok command) :
    run v args = Outcome.ofReport (command.report v) := by
  rw [run, h]
  rfl

/-- A seal is made of the record and its text, and of nothing in front of them. -/
theorem report_sealUp [Host] {s : Sealing} :
    (Command.sealUp c s).report v = .ofExcept
      (sealRecord v c s >>= fun record => record.render (.spaces Report.indentWidth) >>= fun text =>
        .ok (text ++ "\n")) := rfl

theorem failure_ofExcept {result : Except Failure String} {e : Failure} :
    (Report.Draft.ofExcept result).failure = some e ↔ result = .error e := by
  cases result <;> simp [Report.Draft.ofExcept, Report.Draft.finished]

/-- What a report that is finished or not begun leaves behind. -/
theorem ofReport_ofExcept_error {e : Failure} {o : Outcome}
    (h : Outcome.ofReport (.ofExcept (.error e)) = .ok o) : o.status = 1 ∧ o.output = "" := by
  unfold Outcome.ofReport at h
  dsimp only [Report.Draft.ofExcept] at h
  split at h
  · cases h
    exact ⟨rfl, rfl⟩
  · cases h

end ReleaseSeal.Cli
