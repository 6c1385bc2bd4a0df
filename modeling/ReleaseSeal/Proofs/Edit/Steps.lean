import ReleaseSeal.Proofs.Edit.Search

/-!
# The steps of the search

The search consists of steps, one for each diagonal of each round: a step reads the frontier beside its
diagonal, follows a run of equal bytes and stores a point. `Reaches` tells to which steps the search of
two strings comes, and past which others. What holds at each of them follows by induction on the steps:
which entries are read and which step has written them, where the points are, and that the furthest one
of the diagonal is stored.

No point is clipped at the ends of the strings, and one beyond an end may be the furthest of its diagonal.
The search does not stop at such a point too early, though: a path to a point beyond both ends has wasted
edits, and an earlier round would have reached the ends without them.

## Key results

- `Reaches.search_eq`: the search goes on as the steps do
- `Reaches.invariant`: what the rounds have stored when a step is reached
- `Reaches.history`: which step has written an entry last
- `search_stays_in_range`: reads, writes and points of every step, and what the search yields
-/

namespace ReleaseSeal.Edit

/-! ## Steps -/

/-- A step of the search: the number of edits of its round, its diagonal and the frontier that it
    finds. -/
structure Step where
  edits : Nat
  diagonal : Int
  frontier : Frontier

namespace Step

/-- The first step, with nothing but zeros in the frontier. -/
def first (maxEdits : Nat) : Step :=
  { edits := 0, diagonal := 0, frontier := Array.replicate (2 * maxEdits + 3) 0 }

/-- Where the step enters its diagonal. -/
def entered (maxEdits : Nat) (s : Step) : Nat :=
  entry s.frontier (maxEdits + 1) s.edits s.diagonal

variable (a b : ByteArray) (maxEdits : Nat) (s : Step)

/-- The point that the step stores. -/
def stored : Nat :=
  follow a b s.diagonal (s.entered maxEdits)

/-- The frontier behind the step. -/
def after : Frontier :=
  s.frontier.put (maxEdits + 1) s.diagonal (s.stored a b maxEdits)

/-- The ends of both strings are reached, and the search stops. -/
def Stops : Prop :=
  atEnd a b s.diagonal (s.stored a b maxEdits) = true

instance : Decidable (s.Stops a b maxEdits) :=
  inferInstanceAs (Decidable (_ = true))

/-- The next step of the round. -/
def across : Step :=
  { edits := s.edits, diagonal := s.diagonal + 2, frontier := s.after a b maxEdits }

/-- The first step of the next round. -/
def down : Step :=
  { edits := s.edits + 1, diagonal := -((s.edits : Int) + 1), frontier := s.after a b maxEdits }

/-- The diagonals whose entries the step reads: the one above, but for the last of a round, and the one
    below, but for the first. The only one of the first round counts as the first. -/
def Reads (k : Int) : Prop :=
  (k = s.diagonal + 1 ∧ (s.diagonal = -(s.edits : Int) ∨ s.diagonal ≠ s.edits)) ∨
    (k = s.diagonal - 1 ∧ s.diagonal ≠ -(s.edits : Int))

/-- How many diagonals of its round are left at the step, its own counted. -/
def left : Nat :=
  (((s.edits : Int) - s.diagonal) / 2 + 1).toNat

/-- What the search yields from the step on. -/
def rest : Option Nat :=
  match round a b (maxEdits + 1) s.edits s.left s.diagonal s.frontier with
  | (_, true) => some s.edits
  | (v, false) => rounds a b (maxEdits + 1) (maxEdits - s.edits) (s.edits + 1) v

end Step

/-- The search comes to a step, past some others, the latest of them first. -/
inductive Reaches (a b : ByteArray) (maxEdits : Nat) : List Step → Step → Prop where
  | first : Reaches a b maxEdits [] (.first maxEdits)
  | across {past : List Step} {s : Step} : Reaches a b maxEdits past s → ¬s.Stops a b maxEdits →
      s.diagonal + 2 ≤ s.edits → Reaches a b maxEdits (s :: past) (s.across a b maxEdits)
  | down {past : List Step} {s : Step} : Reaches a b maxEdits past s → ¬s.Stops a b maxEdits →
      s.edits < s.diagonal + 2 → s.edits < maxEdits →
      Reaches a b maxEdits (s :: past) (s.down a b maxEdits)

/-! ## What the rounds have stored -/

section

variable {a b : ByteArray} {maxEdits : Nat} {past : List Step} {s : Step}

/-- What holds when a step is reached: it is one of its round, the frontier still has the furthest points
    of the round before where they are to be read, and has those of this round on the diagonals that are
    done. -/
structure Step.Invariant (a b : ByteArray) (maxEdits : Nat) (s : Step) : Prop where
  edits_le : s.edits ≤ maxEdits
  low : -(s.edits : Int) ≤ s.diagonal
  high : s.diagonal ≤ s.edits
  parity : (s.diagonal - s.edits) % 2 = 0
  size_eq : s.frontier.size = 2 * maxEdits + 3
  prepared : Prepared a b (maxEdits + 1) s.edits s.frontier
  done : DoneBelow a b (maxEdits + 1) s.edits s.diagonal s.frontier

namespace Step.Invariant

theorem first (a b : ByteArray) (maxEdits : Nat) : (Step.first maxEdits).Invariant a b maxEdits where
  edits_le := Nat.zero_le _
  low := Int.le_refl 0
  high := Int.le_refl 0
  parity := rfl
  size_eq := Array.size_replicate
  prepared := Frontier.point_replicate ..
  done := fun _ hlow hlt _ => absurd hlow (Int.not_le.mpr hlt)

/-- The diagonal of the step is done with it, unless the ends are reached. -/
theorem done_after (h : s.Invariant a b maxEdits) (hgo : ¬s.Stops a b maxEdits) :
    DoneBelow a b (maxEdits + 1) s.edits (s.diagonal + 2) (s.after a b maxEdits) := by
  have hle := h.edits_le
  have hsize := h.size_eq
  exact h.done.step h.prepared (by omega) (by omega) h.low h.high h.parity
    (Bool.eq_false_iff.mpr hgo)

theorem across (h : s.Invariant a b maxEdits) (hgo : ¬s.Stops a b maxEdits)
    (hnext : s.diagonal + 2 ≤ s.edits) : (s.across a b maxEdits).Invariant a b maxEdits := by
  have hle := h.edits_le
  have hlow := h.low
  have hparity := h.parity
  have hsize := h.size_eq
  constructor
  case edits_le => exact hle
  case low => show -(s.edits : Int) ≤ s.diagonal + 2; omega
  case high => exact hnext
  case parity => show (s.diagonal + 2 - s.edits) % 2 = 0; omega
  case size_eq => rw [← hsize]; exact Frontier.size_put ..
  case prepared => exact h.prepared.put (by omega) (by omega) hlow h.high hparity
  case done => exact h.done_after hgo

theorem down (h : s.Invariant a b maxEdits) (hgo : ¬s.Stops a b maxEdits)
    (hlast : s.edits < s.diagonal + 2) (hlt : s.edits < maxEdits) :
    (s.down a b maxEdits).Invariant a b maxEdits := by
  have hdone := h.done_after hgo
  constructor
  case edits_le => exact hlt
  case low => exact Int.le_refl _
  case high => show -((s.edits : Int) + 1) ≤ (s.edits + 1 : Nat); omega
  case parity => show (-((s.edits : Int) + 1) - (s.edits + 1 : Nat)) % 2 = 0; omega
  case size_eq => rw [← h.size_eq]; exact Frontier.size_put ..
  case prepared => exact fun k hlow hhigh hparity => (hdone k hlow (by omega) hparity).1
  case done => exact fun k hlow hk _ => absurd hlow (Int.not_le.mpr hk)

end Step.Invariant

/-- The invariant holds at each step that is reached. -/
theorem Reaches.invariant (h : Reaches a b maxEdits past s) : s.Invariant a b maxEdits := by
  induction h with
  | first => exact .first a b maxEdits
  | across _ hgo hnext ih => exact ih.across hgo hnext
  | down _ hgo hlast hlt ih => exact ih.down hgo hlast hlt

/-! ## What the search yields -/

namespace Step

/-- The round from a step on: it ends with the step or goes on behind it. -/
theorem round_eq (h : s.Invariant a b maxEdits) :
    round a b (maxEdits + 1) s.edits s.left s.diagonal s.frontier =
      if s.Stops a b maxEdits then (s.after a b maxEdits, true)
      else round a b (maxEdits + 1) s.edits (s.left - 1) (s.diagonal + 2) (s.after a b maxEdits) := by
  have hhigh := h.high
  have hleft : s.left = (s.left - 1) + 1 := by
    rw [left]
    omega
  rw [hleft, round]
  rfl

/-- At a step that reaches the ends, the search yields the number of the round. -/
theorem rest_of_stops (h : s.Invariant a b maxEdits) (hstop : s.Stops a b maxEdits) :
    s.rest a b maxEdits = some s.edits := by
  rw [rest, round_eq h, if_pos hstop]

/-- Another step leaves the search to the next one of the round. -/
theorem rest_across (h : s.Invariant a b maxEdits) (hgo : ¬s.Stops a b maxEdits) :
    (s.across a b maxEdits).rest a b maxEdits = s.rest a b maxEdits := by
  have hleft : (s.across a b maxEdits).left = s.left - 1 := by
    show (((s.edits : Int) - (s.diagonal + 2)) / 2 + 1).toNat = s.left - 1
    rw [left]
    omega
  rw [rest, rest, round_eq h, if_neg hgo, hleft]
  rfl

/-- The last step of a round leaves the search to the rounds behind. -/
theorem rest_of_last (h : s.Invariant a b maxEdits) (hgo : ¬s.Stops a b maxEdits)
    (hlast : s.edits < s.diagonal + 2) :
    s.rest a b maxEdits =
      rounds a b (maxEdits + 1) (maxEdits - s.edits) (s.edits + 1) (s.after a b maxEdits) := by
  have hleft : s.left - 1 = 0 := by
    rw [left]
    omega
  rw [rest, round_eq h, if_neg hgo, hleft, round]

/-- The next round begins with its first step. -/
theorem rest_down (h : s.Invariant a b maxEdits) (hgo : ¬s.Stops a b maxEdits)
    (hlast : s.edits < s.diagonal + 2) (hlt : s.edits < maxEdits) :
    (s.down a b maxEdits).rest a b maxEdits = s.rest a b maxEdits := by
  have hleft : (s.down a b maxEdits).left = s.edits + 1 + 1 := by
    show ((((s.edits + 1 : Nat) : Int) - -((s.edits : Int) + 1)) / 2 + 1).toNat = s.edits + 1 + 1
    omega
  rw [rest_of_last h hgo hlast, show maxEdits - s.edits = maxEdits - (s.edits + 1) + 1 by omega,
    rounds, rest, hleft]
  rfl

end Step

/-- At each step that is reached, the search still has to yield what it yields as a whole. -/
theorem Reaches.search_eq (h : Reaches a b maxEdits past s) :
    search a b maxEdits = s.rest a b maxEdits := by
  induction h with
  | first =>
    have hleft : (Step.first maxEdits).left = 0 + 1 := by
      show (((0 : Int) - 0) / 2 + 1).toNat = 0 + 1
      decide
    rw [search, rounds, Step.rest, hleft]
    rfl
  | across hreach hgo hnext ih => rw [ih, Step.rest_across hreach.invariant hgo]
  | down hreach hgo hlast hlt ih => rw [ih, Step.rest_down hreach.invariant hgo hlast hlt]

/-- A step is the last one if it reaches the ends, or if no diagonal and no round is left. -/
def Step.IsLast (a b : ByteArray) (maxEdits : Nat) (s : Step) : Prop :=
  s.Stops a b maxEdits ∨ (s.edits < s.diagonal + 2 ∧ s.edits = maxEdits)

/-- The search comes to a last step from wherever it is. -/
theorem Reaches.exists_isLast {past : List Step} {s : Step} (h : Reaches a b maxEdits past s) :
    ∃ past' s', Reaches a b maxEdits past' s' ∧ s'.IsLast a b maxEdits := by
  have hle := h.invariant.edits_le
  by_cases hgo : s.Stops a b maxEdits
  · exact ⟨past, s, h, .inl hgo⟩
  by_cases hnext : s.diagonal + 2 ≤ s.edits
  · exact (h.across hgo hnext).exists_isLast
  by_cases hlt : s.edits < maxEdits
  · exact (h.down hgo (by omega) hlt).exists_isLast
  · exact ⟨past, s, h, .inr ⟨by omega, by omega⟩⟩
-- a step has fewer diagonals left than the one before it, or fewer rounds
termination_by (maxEdits - s.edits, (s.edits - s.diagonal).toNat)
decreasing_by
  · apply Prod.Lex.right
    show (s.edits - (s.diagonal + 2)).toNat < (s.edits - s.diagonal).toNat
    omega
  · apply Prod.Lex.left
    show maxEdits - (s.edits + 1) < maxEdits - s.edits
    omega

/-- At a last step it is known what the search yields. -/
theorem Reaches.search_of_isLast (h : Reaches a b maxEdits past s) (hlast : s.IsLast a b maxEdits) :
    search a b maxEdits = if s.Stops a b maxEdits then some s.edits else none := by
  rw [h.search_eq]
  split
  · rename_i hstop
    exact Step.rest_of_stops h.invariant hstop
  · rename_i hgo
    obtain hstop | ⟨hdone, hall⟩ := hlast
    · exact absurd hstop hgo
    · rw [Step.rest_of_last h.invariant hgo hdone, hall, Nat.sub_self, rounds]

/-- The search yields the number of a round exactly if a step of that round reaches the ends. -/
theorem search_eq_some_iff {d : Nat} :
    search a b maxEdits = some d ↔
      ∃ past s, Reaches a b maxEdits past s ∧ s.Stops a b maxEdits ∧ s.edits = d := by
  constructor
  · intro hsearch
    obtain ⟨past, s, h, hlast⟩ := (@Reaches.first a b maxEdits).exists_isLast
    rw [h.search_of_isLast hlast] at hsearch
    split at hsearch
    · rename_i hstop
      exact ⟨past, s, h, hstop, Option.some.inj hsearch⟩
    · exact nomatch hsearch
  · rintro ⟨past, s, h, hstop, rfl⟩
    rw [h.search_of_isLast (.inl hstop), if_pos hstop]

/-! ## Which step has written an entry -/

/-- The step that has written the entry of a diagonal last, if there is one. -/
def lastWriter? (past : List Step) (k : Int) : Option Step :=
  past.find? (·.diagonal = k)

theorem lastWriter?_cons_self (past : List Step) (s : Step) :
    lastWriter? (s :: past) s.diagonal = some s :=
  List.find?_cons_of_pos (decide_eq_true rfl)

theorem lastWriter?_cons_of_ne {k : Int} (past : List Step) (h : s.diagonal ≠ k) :
    lastWriter? (s :: past) k = lastWriter? past k :=
  List.find?_cons_of_neg (by simpa using h)

/-- What the steps before a step have written: an entry holds what its last writer has stored, or the zero
    that it began with. On the diagonals of this round that are done, the last writer is of this round; on
    those of the other parity it is of the round before. -/
structure History (a b : ByteArray) (maxEdits : Nat) (past : List Step) (s : Step) : Prop where
  holds : ∀ k : Int, 0 ≤ (maxEdits + 1 : Nat) + k →
    s.frontier.point (maxEdits + 1) k = ((lastWriter? past k).map (Step.stored a b maxEdits)).getD 0
  done : ∀ k : Int, -(s.edits : Int) ≤ k → k < s.diagonal → (k - s.edits) % 2 = 0 →
    ∃ w, lastWriter? past k = some w ∧ w.edits = s.edits
  before : ∀ k : Int, -(s.edits : Int) < k → k < s.edits → (k - s.edits) % 2 ≠ 0 →
    ∃ w, lastWriter? past k = some w ∧ w.edits + 1 = s.edits
  nothing : s.edits = 0 → past = []

namespace History

theorem first (a b : ByteArray) (maxEdits : Nat) : History a b maxEdits [] (.first maxEdits) where
  holds := fun _ _ => Frontier.point_replicate ..
  done := fun _ hlow hlt _ => absurd hlow (Int.not_le.mpr hlt)
  before := fun _ hlow hhigh _ => absurd (Int.lt_trans hlow hhigh) (Int.lt_irrefl 0)
  nothing := fun _ => rfl

/-- The step writes one entry. -/
theorem holds_after (h : History a b maxEdits past s) (hs : s.Invariant a b maxEdits) (k : Int)
    (hk : 0 ≤ (maxEdits + 1 : Nat) + k) :
    Frontier.point (s.after a b maxEdits) (maxEdits + 1) k =
      ((lastWriter? (s :: past) k).map (Step.stored a b maxEdits)).getD 0 := by
  obtain ⟨hle, hlow, hhigh, -, hsize, -, -⟩ := hs
  rw [Step.after, Frontier.point_put _ (by omega) (by omega) hk]
  by_cases hself : k = s.diagonal
  · subst hself
    rw [if_pos rfl, lastWriter?_cons_self]
    rfl
  · rw [if_neg hself, lastWriter?_cons_of_ne past (Ne.symm hself)]
    exact h.holds k hk

/-- Behind the step its diagonal is done too. -/
theorem done_after (h : History a b maxEdits past s) (hs : s.Invariant a b maxEdits) {k : Int}
    (hlow : -(s.edits : Int) ≤ k) (hlt : k < s.diagonal + 2) (hparity : (k - s.edits) % 2 = 0) :
    ∃ w, lastWriter? (s :: past) k = some w ∧ w.edits = s.edits := by
  have hself := hs.parity
  by_cases hk : k = s.diagonal
  · subst hk
    exact ⟨s, lastWriter?_cons_self past s, rfl⟩
  · rw [lastWriter?_cons_of_ne past (Ne.symm hk)]
    exact h.done k hlow (by omega) hparity

theorem across (h : History a b maxEdits past s) (hs : s.Invariant a b maxEdits)
    (hnext : s.diagonal + 2 ≤ s.edits) : History a b maxEdits (s :: past) (s.across a b maxEdits) := by
  have hlow := hs.low
  have hparity := hs.parity
  constructor
  case holds => exact h.holds_after hs
  case done => exact fun k hk hlt hpar => h.done_after hs hk hlt hpar
  case before =>
    intro k hk hlt (hpar : (k - s.edits) % 2 ≠ 0)
    rw [lastWriter?_cons_of_ne past (by omega)]
    exact h.before k hk hlt hpar
  case nothing =>
    intro (hzero : s.edits = 0)
    omega

theorem down (h : History a b maxEdits past s) (hs : s.Invariant a b maxEdits)
    (hlast : s.edits < s.diagonal + 2) : History a b maxEdits (s :: past) (s.down a b maxEdits) := by
  constructor
  case holds => exact h.holds_after hs
  case done => exact fun k hk hlt _ => absurd hk (Int.not_le.mpr hlt)
  case before =>
    -- what was this round is the round before
    intro k (hk : -((s.edits + 1 : Nat) : Int) < k) (hlt : k < (s.edits + 1 : Nat))
      (hpar : (k - (s.edits + 1 : Nat)) % 2 ≠ 0)
    obtain ⟨w, hw, hedits⟩ := h.done_after hs (by omega) (by omega) (by omega : (k - s.edits) % 2 = 0)
    exact ⟨w, hw, congrArg (· + 1) hedits⟩
  case nothing => exact fun hzero => absurd hzero (Nat.succ_ne_zero _)

end History

/-- Each step that is reached finds what the steps before it have written. -/
theorem Reaches.history (h : Reaches a b maxEdits past s) : History a b maxEdits past s := by
  induction h with
  | first => exact .first a b maxEdits
  | across hreach _ hnext ih => exact ih.across hreach.invariant hnext
  | down hreach _ hlast _ ih => exact ih.down hreach.invariant hlast

/-! ## Reads -/

/-- Where a step enters its diagonal depends on the entries only that it reads. -/
theorem entry_congr {v : Frontier}
    (h : ∀ k, s.Reads k → v.point (maxEdits + 1) k = s.frontier.point (maxEdits + 1) k) :
    entry v (maxEdits + 1) s.edits s.diagonal = s.entered maxEdits := by
  unfold Step.entered entry
  by_cases hfirst : s.diagonal = -(s.edits : Int)
  · have habove := h (s.diagonal + 1) (.inl ⟨rfl, .inl hfirst⟩)
    simp only [decide_eq_true hfirst, Bool.true_or, if_true, habove]
  · have hbelow := h (s.diagonal - 1) (.inr ⟨rfl, hfirst⟩)
    by_cases hlast : s.diagonal = s.edits
    · -- the entry above is looked at only if the diagonal is not the last one
      have hno : (s.diagonal != s.edits) = false := bne_eq_false_iff_eq.mpr hlast
      simp [hno, hfirst, hbelow]
    · rw [hbelow, h (s.diagonal + 1) (.inl ⟨rfl, .inr hlast⟩)]

/-- A step reads what a step of the round before has written, and in the first round a zero that none has
    written. -/
theorem Reaches.lastWriter?_of_reads (h : Reaches a b maxEdits past s) {k : Int} (hk : s.Reads k) :
    (s.edits = 0 ∧ lastWriter? past k = none ∧ s.frontier.point (maxEdits + 1) k = 0) ∨
      ∃ w, lastWriter? past k = some w ∧ w.edits + 1 = s.edits ∧
        s.frontier.point (maxEdits + 1) k = w.stored a b maxEdits := by
  obtain ⟨hle, hlow, hhigh, hparity, -, -, -⟩ := h.invariant
  have hhist := h.history
  have hdiagonals : k = s.diagonal + 1 ∨ k = s.diagonal - 1 := hk.imp And.left And.left
  have hholds := hhist.holds k (by omega)
  by_cases hzero : s.edits = 0
  · have hnone : lastWriter? past k = none := by
      rw [hhist.nothing hzero]
      rfl
    rw [hnone] at hholds
    exact .inl ⟨hzero, hnone, hholds⟩
  · have hinside : -(s.edits : Int) < k ∧ k < s.edits := by
      obtain ⟨rfl, hside⟩ | ⟨rfl, hside⟩ := hk
      · omega
      · omega
    obtain ⟨w, hw, hedits⟩ := hhist.before k hinside.1 hinside.2 (by omega)
    rw [hw] at hholds
    exact .inr ⟨w, hw, hedits, hholds⟩

/-! ## Points -/

/-- A path runs past the end of a string by as many steps at most as it has edits. -/
theorem Path.le_size_add {d x y : Nat} (h : Path a b d x y) : x ≤ a.size + d ∧ y ≤ b.size + d := by
  obtain ⟨i, r, -, hd⟩ := h.exists_script
  omega

/-- The furthest point from which a step can go on is the one where it enters its diagonal. -/
theorem Reaches.isFurthest_entered (h : Reaches a b maxEdits past s) :
    IsFurthest (Entered a b s.edits) s.diagonal (s.entered maxEdits) :=
  isFurthest_entry h.invariant.prepared h.invariant.low h.invariant.high h.invariant.parity

/-- What a step stores is the furthest point of its diagonal. -/
theorem Reaches.isFurthest_stored (h : Reaches a b maxEdits past s) :
    IsFurthest (Path a b s.edits) s.diagonal (s.stored a b maxEdits) :=
  isFurthest_of_entered h.isFurthest_entered

theorem Step.stops_iff :
    s.Stops a b maxEdits ↔ a.size ≤ s.stored a b maxEdits ∧
      (b.size : Int) ≤ s.stored a b maxEdits - s.diagonal := by
  rw [Stops, atEnd, Bool.and_eq_true, decide_eq_true_eq, decide_eq_true_eq]

/-- A step that is beyond the ends of both strings is at them. -/
theorem Reaches.eq_size_of_stops (h : Reaches a b maxEdits past s) (hstop : s.Stops a b maxEdits) :
    s.stored a b maxEdits = a.size ∧ (s.stored a b maxEdits : Int) - s.diagonal = b.size := by
  obtain ⟨⟨y, hk, hpath⟩, -⟩ := h.isFurthest_stored
  -- the search yields the round of the step, and that is the distance
  have hsearch := h.search_of_isLast (.inl hstop)
  rw [if_pos hstop, Edit.search_eq] at hsearch
  have hdistance : distance a.data.toList b.data.toList = s.edits := by
    split at hsearch
    · exact Option.some.inj hsearch
    · exact nomatch hsearch
  -- so that no edit is wasted
  obtain ⟨hx, hy⟩ := Step.stops_iff.mp hstop
  have hle := hpath.distance_add_le hx (by omega)
  omega

/-- What holds at a step of the search: the frontier has its size, every entry that is read or written is
    in it, and what is read was written in the round before, or is the zero that the first round begins
    with. The points are within as many steps of the strings as there were edits, a run is followed from
    inside both strings only, the point that is stored is the furthest of its diagonal, and if it is
    beyond both ends, it is at them. -/
structure Step.InRange (a b : ByteArray) (maxEdits : Nat) (past : List Step) (s : Step) : Prop where
  size_eq : s.frontier.size = 2 * maxEdits + 3
  index_range : ∀ k : Int, s.Reads k ∨ k = s.diagonal →
    0 ≤ (maxEdits + 1 : Nat) + k ∧ (maxEdits + 1 : Nat) + k ≤ 2 * maxEdits + 2
  reads_only : ∀ v : Frontier,
    (∀ k, s.Reads k → v.point (maxEdits + 1) k = s.frontier.point (maxEdits + 1) k) →
      entry v (maxEdits + 1) s.edits s.diagonal = s.entered maxEdits
  written : ∀ k, s.Reads k →
    (s.edits = 0 ∧ lastWriter? past k = none ∧ s.frontier.point (maxEdits + 1) k = 0) ∨
      ∃ w, lastWriter? past k = some w ∧ w.edits + 1 = s.edits ∧
        s.frontier.point (maxEdits + 1) k = w.stored a b maxEdits
  enters : ∃ y : Nat, (s.entered maxEdits : Int) - y = s.diagonal ∧
    s.entered maxEdits ≤ a.size + s.edits ∧ y ≤ b.size + s.edits ∧
    s.stored a b maxEdits =
      if s.entered maxEdits < a.size ∧ y < b.size then
        s.entered maxEdits + commonPrefix a b (s.entered maxEdits) y
      else s.entered maxEdits
  stores : ∃ y : Nat, (s.stored a b maxEdits : Int) - y = s.diagonal ∧
    s.stored a b maxEdits ≤ a.size + s.edits ∧ y ≤ b.size + s.edits
  furthest : IsFurthest (Path a b s.edits) s.diagonal (s.stored a b maxEdits)
  ends : a.size ≤ s.stored a b maxEdits → (b.size : Int) ≤ s.stored a b maxEdits - s.diagonal →
    s.stored a b maxEdits = a.size ∧ (s.stored a b maxEdits : Int) - s.diagonal = b.size

/-- Each step that is reached is in range. -/
theorem Reaches.inRange (h : Reaches a b maxEdits past s) : s.InRange a b maxEdits past := by
  have hfurthest := h.isFurthest_stored
  obtain ⟨hle, hlow, hhigh, hparity, hsize, -, -⟩ := h.invariant
  constructor
  case size_eq => exact hsize
  case index_range =>
    intro k hk
    have hdiagonals : k = s.diagonal + 1 ∨ k = s.diagonal - 1 ∨ k = s.diagonal := by
      obtain (⟨hk, -⟩ | ⟨hk, -⟩) | hk := hk
      · exact .inl hk
      · exact .inr (.inl hk)
      · exact .inr (.inr hk)
    omega
  case reads_only => exact fun v hv => entry_congr hv
  case written => exact fun k hk => h.lastWriter?_of_reads hk
  case enters =>
    obtain ⟨⟨y, hk, hentered⟩, -⟩ := h.isFurthest_entered
    obtain ⟨hx, hy⟩ := hentered.path.le_size_add
    refine ⟨y, hk, hx, hy, ?_⟩
    have hdiagonal : ((s.entered maxEdits : Int) - s.diagonal) = y := by omega
    rw [Step.stored, follow, hdiagonal, Int.toNat_natCast]
    simp only [Bool.and_eq_true, decide_eq_true_eq, Int.ofNat_lt]
  case stores =>
    obtain ⟨⟨y, hk, hpath⟩, -⟩ := hfurthest
    obtain ⟨hx, hy⟩ := hpath.le_size_add
    exact ⟨y, hk, hx, hy⟩
  case furthest => exact hfurthest
  case ends => exact fun hx hy => h.eq_size_of_stops (Step.stops_iff.mpr ⟨hx, hy⟩)

/-- The search stays in range at every step, whatever the two strings and the limit are: see
    `Step.InRange` for what that says. It yields the number of a round exactly if a step of that round
    reaches the ends of both strings, and nothing exactly if more edits than the limit are needed. -/
theorem search_stays_in_range (a b : ByteArray) (maxEdits : Nat) :
    (∀ past s, Reaches a b maxEdits past s →
      s.InRange a b maxEdits past ∧ search a b maxEdits = s.rest a b maxEdits) ∧
    (∀ d, search a b maxEdits = some d ↔
      ∃ past s, Reaches a b maxEdits past s ∧ s.Stops a b maxEdits ∧ s.edits = d) ∧
    ∃ least, IsLeast {n | ∃ i r, Edits a.data.toList b.data.toList i r ∧ n = i + r} least ∧
      (search a b maxEdits = none ↔ maxEdits < least) ∧
      ∀ d, search a b maxEdits = some d → d = least := by
  refine ⟨fun past s h => ⟨h.inRange, h.search_eq⟩, fun d => search_eq_some_iff, ?_⟩
  refine ⟨distance a.data.toList b.data.toList, distance_isLeast _ _, ?_⟩
  rw [search_eq]
  split
  · rename_i hle
    exact ⟨⟨nofun, fun hlt => absurd hle (Nat.not_le.mpr hlt)⟩, fun d hd => (Option.some.inj hd).symm⟩
  · rename_i hgt
    exact ⟨⟨fun _ => Nat.not_le.mp hgt, fun _ => rfl⟩, nofun⟩

/-- A removal at the front and an insertion at the end are found in the second round, by a step that
    stores the length of the first string; with one edit allowed, nothing is found. -/
theorem search_stays_in_range_shifted :
    let a : ByteArray := ⟨#[1, 2, 3]⟩
    let b : ByteArray := ⟨#[2, 3, 4]⟩
    (∃ past s, Reaches a b 4 past s ∧ s.Stops a b 4 ∧ s.edits = 2 ∧ s.InRange a b 4 past ∧
      s.stored a b 4 = 3) ∧
    ∃ least, IsLeast {n | ∃ i r, Edits a.data.toList b.data.toList i r ∧ n = i + r} least ∧
      1 < least := by
  intro a b
  have hdistance : distance a.data.toList b.data.toList = 2 := by decide +kernel
  have hfound : search a b 4 = some 2 := by rw [search_eq, hdistance, if_pos (by decide)]
  have hnone : search a b 1 = none := by rw [search_eq, hdistance, if_neg (by decide)]
  obtain ⟨hsteps, hyields, -⟩ := search_stays_in_range a b 4
  obtain ⟨-, -, least, hleast, hexceeds, -⟩ := search_stays_in_range a b 1
  obtain ⟨past, s, hreaches, hstops, hedits⟩ := (hyields 2).mp hfound
  obtain ⟨hrange, -⟩ := hsteps past s hreaches
  obtain ⟨hx, hy⟩ := Step.stops_iff.mp hstops
  exact ⟨⟨past, s, hreaches, hstops, hedits, hrange, (hrange.ends hx hy).1⟩,
    least, hleast, hexceeds.mp hnone⟩

end

end ReleaseSeal.Edit
