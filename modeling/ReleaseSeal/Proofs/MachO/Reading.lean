import ReleaseSeal.MachO.Reader

/-!
# What an action of a reader yields

An action either fails or has a result and leaves the reader at an offset. `Reading.Yields` says the
latter, and each elementary action has one lemma that tells exactly when it yields what. An action made
of others is opened by these lemmas and by the one for sequences (`yields_bind`), so that what a parser
accepts comes out as a condition on the bytes.
-/

namespace ReleaseSeal.MachO

/-- A view from an offset that is counted from the front is one of a copy of the range. -/
theorem Frame.view_natCast {f : Frame} {start length : Nat} :
    f.view start length none =
      if start + length ≤ f.size then .ok (.ofBytes none (slice f.bytes start length))
      else .error (.rangeOutOfBounds start length f.size) := by
  have hin : (start : Int) + length > f.size ↔ ¬start + length ≤ f.size := by omega
  have hnat (n : Nat) : ¬(n : Int) < 0 := by omega
  simp only [Frame.view, hnat, hin, decide_false, Bool.or_self, Bool.false_or, decide_eq_true_eq,
    Int.toNat_natCast, ite_not]

theorem Frame.view_eq_ok_iff {f g : Frame} {start length : Nat} :
    f.view start length none = .ok g ↔
      start + length ≤ f.size ∧ g = .ofBytes none (slice f.bytes start length) := by
  rw [view_natCast]
  by_cases h : start + length ≤ f.size
  · rw [if_pos h, Except.ok.injEq, eq_comm (b := g)]
    exact (and_iff_right h).symm
  · rw [if_neg h]
    exact ⟨nofun, fun hg => absurd hg.1 h⟩

namespace Reading

variable {α β : Type} {f : Frame} {i j : Nat}

/-- Started at an offset, the action has a result and stops at another offset. -/
def Yields (f : Frame) (start : Nat) (action : Reading α) (a : α) (stop : Nat) : Prop :=
  (action.run f).run start = .ok a stop

/-! ## Sequences, tests and outcomes -/

@[simp] theorem yields_pure {a b : α} : Yields f i (pure a) b j ↔ b = a ∧ j = i := by
  constructor
  · rintro ⟨⟩
    exact ⟨rfl, rfl⟩
  · rintro ⟨rfl, rfl⟩
    rfl

@[simp] theorem yields_bind {x : Reading α} {g : α → Reading β} {b : β} :
    Yields f i (x >>= g) b j ↔ ∃ a k, Yields f i x a k ∧ Yields f k (g a) b j := by
  simp only [Yields, ReaderT.run_bind, EStateM.run_bind]
  cases (x.run f).run i with
  | ok a k => simp [and_assoc]
  | error e k => simp

/-- What follows an action runs on from where that has stopped. -/
theorem run_bind_of_yields {x : Reading α} {g : α → Reading β} {a : α} (h : Yields f i x a j) :
    ((x >>= g).run f).run i = ((g a).run f).run j := by
  rw [ReaderT.run_bind, EStateM.run_bind, show (x.run f).run i = .ok a j from h]

@[simp] theorem yields_map {x : Reading α} {g : α → β} {b : β} :
    Yields f i (g <$> x) b j ↔ ∃ a, Yields f i x a j ∧ b = g a := by
  simp only [← bind_pure_comp, yields_bind, yields_pure]
  constructor
  · rintro ⟨a, k, hx, rfl, rfl⟩
    exact ⟨a, hx, rfl⟩
  · rintro ⟨a, hx, rfl⟩
    exact ⟨a, j, hx, rfl, rfl⟩

@[simp] theorem not_yields_throw {e : Error} {a : α} : ¬Yields f i (throw e) a j :=
  nofun

/-- An action behind a check yields what it does if the check is passed. -/
@[simp] theorem yields_guard {p : Prop} [Decidable p] {e : Error} {action : Reading α} {a : α} :
    Yields f i (if p then throw e else action) a j ↔ ¬p ∧ Yields f i action a j := by
  by_cases hp : p
  · simp [hp]
  · simp [hp]

@[simp] theorem yields_ofOutcome {x : Except Error α} {a : α} :
    Yields f i (ofOutcome x) a j ↔ x = .ok a ∧ j = i := by
  cases x with
  | error e => simp [ofOutcome]
  | ok b => simp [ofOutcome, eq_comm]

theorem result_eq_ok_iff {action : Reading α} {a : α} :
    result f action = .ok a ↔ ∃ j, Yields f 0 action a j := by
  unfold result Yields
  cases (action.run f).run 0 with
  | ok b k => simp
  | error e k => simp

@[simp] theorem yields_on {g : Frame} {action : Reading α} {a : α} :
    Yields f i (on g action) a j ↔ result g action = .ok a ∧ j = i :=
  yields_ofOutcome

/-! ## The reader and its offset -/

@[simp] theorem yields_read {g : Frame} : Yields f i read g j ↔ g = f ∧ j = i := by
  constructor
  · rintro ⟨⟩
    exact ⟨rfl, rfl⟩
  · rintro ⟨rfl, rfl⟩
    rfl

@[simp 1100] theorem yields_map_read {g : Frame → α} {a : α} :
    Yields f i (g <$> read) a j ↔ a = g f ∧ j = i := by
  simp only [yields_map, yields_read]
  constructor
  · rintro ⟨_, ⟨rfl, rfl⟩, rfl⟩
    exact ⟨rfl, rfl⟩
  · rintro ⟨rfl, rfl⟩
    exact ⟨f, ⟨rfl, rfl⟩, rfl⟩

@[simp] theorem yields_tell {k : Nat} : Yields f i tell k j ↔ k = i ∧ j = i := by
  constructor
  · rintro ⟨⟩
    exact ⟨rfl, rfl⟩
  · rintro ⟨rfl, rfl⟩
    rfl

@[simp] theorem yields_set {k : Nat} {u : PUnit} : Yields f i (set k) u j ↔ j = k := by
  constructor
  · rintro ⟨⟩
    rfl
  · rintro rfl
    rfl

@[simp] theorem yields_seek {k : Int} {u : Unit} :
    Yields f i (seek k) u j ↔ 0 ≤ k ∧ k ≤ f.size ∧ j = k.toNat := by
  simp [seek, and_assoc]

/-- Moving to an offset that is counted from the front. -/
theorem yields_seek_natCast {k : Nat} {u : Unit} :
    Yields f i (seek k) u j ↔ k ≤ f.size ∧ j = k := by
  rw [yields_seek]
  omega

/-! ## Fields -/

@[simp] theorem yields_record {what : String} {width k : Nat} :
    Yields f i (record what width) k j ↔ i + width ≤ f.size ∧ k = i ∧ j = i + width := by
  simp [record, and_assoc, @and_comm (k = i)]

@[simp] theorem yields_word {what : String} {w : UInt32} :
    Yields f i (word what) w j ↔ i + 4 ≤ f.size ∧ w = wordAt f.order f.bytes i ∧ j = i + 4 := by
  simp [word, and_assoc]

@[simp] theorem yields_wordPair {what : String} {pair : UInt32 × UInt32} :
    Yields f i (wordPair what) pair j ↔ i + 8 ≤ f.size ∧
      pair = (wordAt f.order f.bytes i, wordAt f.order f.bytes (i + 4)) ∧ j = i + 8 := by
  simp [wordPair, and_assoc]

@[simp] theorem yields_take {count : Nat} {bytes : ByteArray} :
    Yields f i (take count) bytes j ↔
      i + count ≤ f.size ∧ bytes = slice f.bytes i count ∧ j = i + count := by
  have hrange : (i : Int) + count ≤ f.size ↔ i + count ≤ f.size := by omega
  simp [take, and_assoc, hrange, @and_comm (bytes = slice f.bytes i count)]

end Reading

end ReleaseSeal.MachO
