import ReleaseSeal.MachO.Session

/-!
# Where an action leaves its reader

An action leaves the reader at an offset also when it fails. `Reading.StaysInside` says that an action
keeps the offset inside the window, whatever its outcome; it is closed under sequences and checks, so
that it holds of a parser by naming its parts. The elementary actions check before they move: their
equations tell that one that fails does not move at all.

## Key results

- `run_seek`, `run_fields`, `run_take`: the elementary actions, with outcome and offset
- `staysInside_classify`: recognising a binary, at whatever offset
- `Cursor.staysInside_action`: whatever a reader is asked to do
-/

namespace ReleaseSeal.MachO

namespace Reading

variable {α β : Type} {f : Frame} {i : Nat}

/-! ## Elementary actions -/

theorem run_seek {k : Int} :
    ((seek k).run f).run i =
      if 0 ≤ k ∧ k ≤ f.size then .ok () k.toNat else .error (.seekOutOfRange k f.size) i := by
  show ((if k < 0 || k > f.size then throw (.seekOutOfRange k f.size) else set k.toNat :
    Reading Unit).run f).run i = _
  by_cases h : 0 ≤ k ∧ k ≤ f.size
  · rw [if_pos h, if_neg (by simp; omega)]
    rfl
  · rw [if_neg h, if_pos (by simp; omega)]
    rfl

theorem run_record {what : String} {width : Nat} :
    ((record what width).run f).run i =
      if i + width ≤ f.size then .ok i (i + width)
      else .error (.insufficient what width i (f.size - i)) i := by
  show ((if i + width > f.size then throw (.insufficient what width i (f.size - i))
    else do set (i + width); return i : Reading Nat).run f).run i = _
  by_cases h : i + width ≤ f.size
  · rw [if_pos h, if_neg (by omega)]
    rfl
  · rw [if_neg h, if_pos (by omega)]
    rfl

theorem run_fields {what : String} {fields : List Field} :
    ((Reading.fields what fields).run f).run i =
      if i + Field.totalWidth fields ≤ f.size then
        .ok (Field.numbersAt f.order f.bytes i fields) (i + Field.totalWidth fields)
      else .error (.insufficient what (Field.totalWidth fields) i (f.size - i)) i := by
  unfold Reading.fields
  rw [ReaderT.run_bind, EStateM.run_bind, run_record]
  by_cases h : i + Field.totalWidth fields ≤ f.size
  · rw [if_pos h, if_pos h]
    rfl
  · rw [if_neg h, if_neg h]

theorem run_take {count : Int} :
    ((take count).run f).run i =
      if 0 ≤ count ∧ i + count ≤ f.size then .ok (slice f.bytes i count.toNat) (i + count.toNat)
      else .error (.insufficientBytes count i) i := by
  show ((if count < 0 || i + count > f.size then throw (.insufficientBytes count i)
    else do
      set (i + count.toNat)
      return slice f.bytes i count.toNat : Reading ByteArray).run f).run i = _
  by_cases h : 0 ≤ count ∧ i + count ≤ f.size
  · rw [if_pos h, if_neg (by simp; omega)]
    rfl
  · rw [if_neg h, if_pos (by simp; omega)]
    rfl

/-- Turning a result into another moves nothing. -/
theorem run_bind_pure {x : Reading α} {g : α → β} :
    ((do return g (← x) : Reading β).run f).run i =
      match (x.run f).run i with
      | .ok a j => .ok (g a) j
      | .error e j => .error e j := by
  rw [ReaderT.run_bind, EStateM.run_bind]
  cases (x.run f).run i <;> rfl

/-! ## Failing in place, and advancing -/

/-- If the action fails, the reader is where it was. -/
def FailsInPlace (f : Frame) (action : Reading α) : Prop :=
  ∀ i e j, (action.run f).run i = .error e j → j = i

/-- If the action has a result, the reader is a fixed distance behind where it was. -/
def Advances (f : Frame) (n : Nat) (action : Reading α) : Prop :=
  ∀ i a j, (action.run f).run i = .ok a j → j = i + n

theorem FailsInPlace.bind_pure {x : Reading α} {g : α → β} (hx : FailsInPlace f x) :
    FailsInPlace f (do return g (← x)) := by
  intro i e j h
  rw [run_bind_pure] at h
  cases hrun : (x.run f).run i with
  | ok a k =>
    rw [hrun] at h
    cases h
  | error e' k =>
    rw [hrun] at h
    cases h
    exact hx i _ _ hrun

theorem Advances.bind_pure {x : Reading α} {g : α → β} {n : Nat} (hx : Advances f n x) :
    Advances f n (do return g (← x)) := by
  intro i b j h
  rw [run_bind_pure] at h
  cases hrun : (x.run f).run i with
  | ok a k =>
    rw [hrun] at h
    cases h
    exact hx i _ _ hrun
  | error e k =>
    rw [hrun] at h
    cases h

theorem failsInPlace_seek {k : Int} : FailsInPlace f (seek k) := by
  intro i e j h
  rw [run_seek] at h
  split at h
  · cases h
  · cases h
    rfl

/-- A skip is a move to an offset that is counted from where the reader is. -/
theorem failsInPlace_skip {count : Int} : FailsInPlace f (skip count) :=
  fun i => failsInPlace_seek (k := i + count) i

theorem failsInPlace_fields {what : String} {fields : List Field} :
    FailsInPlace f (Reading.fields what fields) := by
  intro i e j h
  rw [run_fields] at h
  split at h
  · cases h
  · cases h
    rfl

theorem advances_fields {what : String} {fields : List Field} :
    Advances f (Field.totalWidth fields) (Reading.fields what fields) := by
  intro i a j h
  rw [run_fields] at h
  split at h
  · cases h
    rfl
  · cases h

theorem failsInPlace_take {count : Int} : FailsInPlace f (take count) := by
  intro i e j h
  rw [run_take] at h
  split at h
  · cases h
  · cases h
    rfl

theorem advances_take {count : Int} : Advances f count.toNat (take count) := by
  intro i a j h
  rw [run_take] at h
  split at h
  · cases h
    rfl
  · cases h

/-! ## Staying inside the window -/

/-- Where an action that is started at an offset leaves the reader, whether it fails or not. -/
def stop (f : Frame) (start : Nat) (action : Reading α) : Nat :=
  match (action.run f).run start with
  | .ok _ j => j
  | .error _ j => j

/-- A reader whose offset is inside the window keeps it there. -/
def StaysInside (f : Frame) (action : Reading α) : Prop :=
  ∀ i ≤ f.size, stop f i action ≤ f.size

/-- An action that ends where it started, whatever its outcome is. -/
theorem staysInside_of_stop_eq {action : Reading α} (h : ∀ i, stop f i action = i) :
    StaysInside f action := by
  intro i hi
  rwa [h]

theorem staysInside_pure {a : α} : StaysInside f (pure a) :=
  staysInside_of_stop_eq fun _ => rfl

theorem staysInside_tell : StaysInside f tell :=
  staysInside_of_stop_eq fun _ => rfl

theorem stop_ofOutcome {x : Except Error α} : stop f i (ofOutcome x) = i := by
  cases x <;> rfl

theorem staysInside_ofOutcome {x : Except Error α} : StaysInside f (ofOutcome x) :=
  staysInside_of_stop_eq fun _ => stop_ofOutcome

theorem StaysInside.bind {x : Reading α} {g : α → Reading β} (hx : StaysInside f x)
    (hg : ∀ a, StaysInside f (g a)) : StaysInside f (x >>= g) := by
  intro i hi
  have hfirst := hx i hi
  unfold stop at hfirst ⊢
  rw [ReaderT.run_bind, EStateM.run_bind]
  cases hrun : (x.run f).run i with
  | ok a j =>
    rw [hrun] at hfirst
    exact hg a j hfirst
  | error e j =>
    rw [hrun] at hfirst
    exact hfirst

/-- Behind a look at the frame, the action is about that frame. -/
theorem StaysInside.read_bind {g : Frame → Reading β} (h : StaysInside f (g f)) :
    StaysInside f (read >>= g) :=
  h

theorem staysInside_seek {k : Int} : StaysInside f (seek k) := by
  intro i hi
  unfold stop
  rw [run_seek]
  by_cases h : 0 ≤ k ∧ k ≤ f.size
  · rw [if_pos h]
    show k.toNat ≤ f.size
    omega
  · rw [if_neg h]
    exact hi

theorem staysInside_record {what : String} {width : Nat} : StaysInside f (record what width) := by
  intro i hi
  unfold stop
  rw [run_record]
  by_cases h : i + width ≤ f.size
  · rw [if_pos h]
    exact h
  · rw [if_neg h]
    exact hi

theorem staysInside_take {count : Int} : StaysInside f (take count) := by
  intro i hi
  unfold stop
  rw [run_take]
  by_cases h : 0 ≤ count ∧ i + count ≤ f.size
  · rw [if_pos h]
    show i + count.toNat ≤ f.size
    omega
  · rw [if_neg h]
    exact hi

end Reading

open Reading (StaysInside)

variable {f : Frame}

theorem staysInside_readHeader : StaysInside f Header.read := by
  refine .read_bind (Reading.staysInside_tell.bind fun i => ?_)
  refine Reading.staysInside_ofOutcome.bind fun magic => ?_
  split
  · exact Reading.staysInside_record.bind fun _ => Reading.staysInside_pure
  · exact Reading.staysInside_record.bind fun _ => Reading.staysInside_pure

/-- A fat header is read by a reader of its own, so only a thin one moves the reader. -/
theorem staysInside_classify {offset : Int} : StaysInside f (classify offset) := by
  refine Reading.staysInside_seek.bind fun _ => .read_bind ?_
  refine Reading.staysInside_ofOutcome.bind fun magic => ?_
  split
  · exact staysInside_readHeader.bind fun _ => Reading.staysInside_pure
  · exact Reading.staysInside_ofOutcome

/-- Whatever a reader is asked to do, its offset stays inside its window. -/
theorem Cursor.staysInside_action (op : Operation) : StaysInside f (Cursor.action op) := by
  cases op with
  | seek offset => exact Reading.staysInside_seek.bind fun _ => Reading.staysInside_pure
  | skip count =>
    have hskip : StaysInside f (Reading.skip count) :=
      Reading.staysInside_tell.bind fun _ => Reading.staysInside_seek
    exact hskip.bind fun _ => Reading.staysInside_pure
  | tell => exact Reading.staysInside_tell.bind fun _ => Reading.staysInside_pure
  | size => exact .read_bind Reading.staysInside_pure
  | order => exact .read_bind Reading.staysInside_pure
  | fields what fields =>
    have hfields : StaysInside f (Reading.fields what fields) :=
      Reading.staysInside_record.bind fun _ => .read_bind Reading.staysInside_pure
    exact hfields.bind fun _ => Reading.staysInside_pure
  | take count => exact Reading.staysInside_take.bind fun _ => Reading.staysInside_pure
  | peek offset order =>
    exact .read_bind (Reading.staysInside_ofOutcome.bind fun _ => Reading.staysInside_pure)
  | classify offset => exact staysInside_classify.bind fun _ => Reading.staysInside_pure
  | view start length order => exact Reading.staysInside_pure
  | withOrder order => exact Reading.staysInside_pure

end ReleaseSeal.MachO
