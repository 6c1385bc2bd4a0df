import ReleaseSeal.Proofs.MachO.Reading

/-!
# How an action of a reader fails

The counterpart of what an action yields: `Reading.Fails` says that an action, started at an offset,
fails with a fault. Each elementary action has one lemma that tells exactly when it fails and with which
fault, and a sequence fails in its first part or behind what the first part yields (`fails_bind`), so
that the faults of a parser can be listed.
-/

namespace ReleaseSeal.MachO

namespace Reading

variable {α β : Type} {f : Frame} {i : Nat} {e : Error}

/-- Started at an offset, the action fails. -/
def Fails (f : Frame) (start : Nat) (action : Reading α) (e : Error) : Prop :=
  ∃ stop, (action.run f).run start = .error e stop

/-! ## Sequences, tests and outcomes -/

@[simp] theorem not_fails_pure {a : α} : ¬Fails f i (pure a) e :=
  nofun

@[simp] theorem fails_bind {x : Reading α} {g : α → Reading β} :
    Fails f i (x >>= g) e ↔ Fails f i x e ∨ ∃ a k, Yields f i x a k ∧ Fails f k (g a) e := by
  simp only [Fails, Yields, ReaderT.run_bind, EStateM.run_bind]
  cases (x.run f).run i with
  | ok a k => simp [and_assoc]
  | error e' k => simp

@[simp] theorem fails_map {x : Reading α} {g : α → β} : Fails f i (g <$> x) e ↔ Fails f i x e := by
  simp [← bind_pure_comp]

@[simp] theorem fails_throw {e' : Error} : Fails f i (throw e' : Reading α) e ↔ e = e' := by
  constructor
  · rintro ⟨stop, ⟨⟩⟩
    rfl
  · rintro rfl
    exact ⟨i, rfl⟩

/-- An action behind a check fails as the check does, or as the action does if the check is passed. -/
@[simp] theorem fails_guard {p : Prop} [Decidable p] {e' : Error} {action : Reading α} :
    Fails f i (if p then throw e' else action) e ↔ (p ∧ e = e') ∨ (¬p ∧ Fails f i action e) := by
  by_cases hp : p
  · simp [hp]
  · simp [hp]

@[simp] theorem fails_ofOutcome {x : Except Error α} : Fails f i (ofOutcome x) e ↔ x = .error e := by
  cases x with
  | error e' => simp [ofOutcome, eq_comm]
  | ok a => simp [ofOutcome]

theorem result_eq_error_iff {action : Reading α} :
    result f action = .error e ↔ Fails f 0 action e := by
  unfold result Fails
  cases (action.run f).run 0 with
  | ok a k => simp
  | error e' k => simp

@[simp] theorem fails_on {g : Frame} {action : Reading α} :
    Fails f i (on g action) e ↔ result g action = .error e :=
  fails_ofOutcome

/-! ## The reader and its offset -/

@[simp] theorem not_fails_read : ¬Fails f i read e :=
  nofun

@[simp] theorem not_fails_tell : ¬Fails f i tell e :=
  nofun

@[simp] theorem not_fails_set {k : Nat} : ¬Fails f i (set k) e :=
  nofun

@[simp] theorem fails_seek {k : Int} :
    Fails f i (seek k) e ↔ ¬(0 ≤ k ∧ k ≤ f.size) ∧ e = .seekOutOfRange k f.size := by
  have hrange : k < 0 ∨ (f.size : Int) < k ↔ ¬(0 ≤ k ∧ k ≤ f.size) := by omega
  simp [seek, hrange]

/-! ## Fields -/

@[simp] theorem fails_record {what : String} {width : Nat} :
    Fails f i (record what width) e ↔
      f.size < i + width ∧ e = .insufficient what width i (f.size - i) := by
  simp [record, and_assoc]

@[simp] theorem fails_word {what : String} :
    Fails f i (word what) e ↔ f.size < i + 4 ∧ e = .insufficient what 4 i (f.size - i) := by
  simp [word]

@[simp] theorem fails_wordPair {what : String} :
    Fails f i (wordPair what) e ↔ f.size < i + 8 ∧ e = .insufficient what 8 i (f.size - i) := by
  simp [wordPair]

@[simp] theorem fails_take {count : Nat} :
    Fails f i (take count) e ↔ f.size < i + count ∧ e = .insufficientBytes count i := by
  have hrange : (count : Int) < 0 ∨ (f.size : Int) < i + count ↔ f.size < i + count := by omega
  simp [take, and_assoc, hrange]

/-! ## What holds of all faults of an action -/

/-- Wherever the action starts, something holds of the fault with which it fails. -/
def FailsOnly (f : Frame) (P : Error → Prop) (action : Reading α) : Prop :=
  ∀ i e, Fails f i action e → P e

section

variable {P : Error → Prop}

theorem FailsOnly.result {action : Reading α} (h : FailsOnly f P action)
    (hresult : result f action = .error e) : P e :=
  h 0 e (result_eq_error_iff.mp hresult)

theorem failsOnly_pure {a : α} : FailsOnly f P (pure a) :=
  fun _ _ h => absurd h not_fails_pure

theorem failsOnly_tell : FailsOnly f P tell :=
  fun _ _ h => absurd h not_fails_tell

theorem FailsOnly.bind {x : Reading α} {g : α → Reading β} (hx : FailsOnly f P x)
    (hg : ∀ a, FailsOnly f P (g a)) : FailsOnly f P (x >>= g) := by
  intro i e h
  obtain hfirst | ⟨a, k, -, hrest⟩ := fails_bind.mp h
  · exact hx i e hfirst
  · exact hg a k e hrest

/-- Behind a look at the frame, the action is about that frame. -/
theorem FailsOnly.read_bind {g : Frame → Reading β} (hg : FailsOnly f P (g f)) :
    FailsOnly f P (read >>= g) := by
  intro i e h
  obtain hfirst | ⟨a, k, hread, hrest⟩ := fails_bind.mp h
  · exact absurd hfirst not_fails_read
  · rw [(yields_read.mp hread).1] at hrest
    exact hg k e hrest

theorem failsOnly_throw {e' : Error} (he : P e') : FailsOnly f P (throw e' : Reading α) := by
  intro i e h
  rwa [fails_throw.mp h]

/-- A check may fail if something holds of its fault. -/
theorem FailsOnly.guard {p : Prop} [Decidable p] {e' : Error} {action : Reading α}
    (h : FailsOnly f P action) (he : P e') : FailsOnly f P (if p then throw e' else action) := by
  by_cases hp : p
  · rw [if_pos hp]
    exact failsOnly_throw he
  · rwa [if_neg hp]

theorem failsOnly_ofOutcome {x : Except Error α} (h : ∀ e, x = .error e → P e) :
    FailsOnly f P (ofOutcome x) :=
  fun _ e hfails => h e (fails_ofOutcome.mp hfails)

/-- An action on another frame fails as it does there. -/
theorem FailsOnly.on {g : Frame} {action : Reading α} (h : FailsOnly g P action) :
    FailsOnly f P (on g action) :=
  fun _ _ hfails => h.result (fails_on.mp hfails)

end

end Reading

end ReleaseSeal.MachO
