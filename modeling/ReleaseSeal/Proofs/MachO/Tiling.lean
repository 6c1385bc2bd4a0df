import ReleaseSeal.MachO.Signature
import ReleaseSeal.Proofs.MachO.Faults
import ReleaseSeal.Proofs.MachO.Offsets
import ReleaseSeal.Proofs.MachO.Signatures
import Mathlib.Data.List.Chain

/-!
# What a walk offers its visitor

A walk shares its reader with the visitor: the visitor reads on behind the head of a command, or moves
elsewhere, while the walk waits for it. Still the walk is one that is fixed beforehand. The frame and the
header alone tell which commands it offers, one after the other, and with which fault it ends, if it
does not come to the last one; a walk with a visitor is that offer, given to the visitor command by
command. So all visitors of one frame are offered the same commands at the same offsets, and where a
visitor fails, it has been offered the first of them.

If an offer ends without a fault, its commands are a table: they follow each other without gaps from the
end of the header on and are all inside the frame.

## Key results

- `LoadCommand.outcome_walk`: a walk is its offer, given to the visitor
- `LoadCommand.isTable_offer`: an offer that ends without a fault is a table
- `walk_tiles`: both, and what the offer means for reading entitlements and for stripping
-/

namespace ReleaseSeal.MachO

/-! ## Outcomes -/

namespace Reading

variable {α β : Type} {f : Frame} {i : Nat}

/-- The outcome of an action that starts at an offset, wherever it leaves the reader. -/
def outcome (f : Frame) (start : Nat) (action : Reading α) : Except Error α :=
  match (action.run f).run start with
  | .ok a _ => .ok a
  | .error e _ => .error e

theorem result_eq_outcome {action : Reading α} : result f action = outcome f 0 action := rfl

theorem outcome_tell_bind {g : Nat → Reading β} : outcome f i (tell >>= g) = outcome f i (g i) := rfl

theorem outcome_read_bind {g : Frame → Reading β} : outcome f i (read >>= g) = outcome f i (g f) := rfl

theorem outcome_guard {p : Prop} [Decidable p] {e : Error} {action : Reading α} :
    outcome f i (if p then throw e else action) =
      if p then .error e else outcome f i action := by
  split <;> rfl

theorem outcome_seek_bind {k : Nat} {g : Unit → Reading β} :
    outcome f i (seek k >>= g) =
      if k ≤ f.size then outcome f k (g ()) else .error (.seekOutOfRange k f.size) := by
  unfold outcome
  rw [ReaderT.run_bind, EStateM.run_bind, run_seek]
  by_cases h : k ≤ f.size
  · rw [if_pos h, if_pos (by omega)]
    rfl
  · rw [if_neg h, if_neg (by omega)]

theorem outcome_wordPair_bind {what : String} {g : UInt32 × UInt32 → Reading β} :
    outcome f i (wordPair what >>= g) =
      if i + 8 ≤ f.size then
        outcome f (i + 8) (g (wordAt f.order f.bytes i, wordAt f.order f.bytes (i + 4)))
      else .error (.insufficient what 8 i (f.size - i)) := by
  unfold outcome wordPair
  rw [ReaderT.run_bind, EStateM.run_bind, ReaderT.run_bind, EStateM.run_bind, run_record]
  by_cases h : i + 8 ≤ f.size
  · rw [if_pos h, if_pos h]
    rfl
  · rw [if_neg h, if_neg h]

theorem outcome_eq_ok_iff {x : Reading α} {a : α} :
    outcome f i x = .ok a ↔ ∃ j, Yields f i x a j := by
  unfold outcome Yields
  cases (x.run f).run i with
  | ok b j => simp
  | error e j => simp

/-- Where an action leaves the reader makes no difference to one that does not depend on it. -/
theorem outcome_bind_of_forall {x : Reading α} {g : α → Reading β} {r : α → Except Error β}
    (h : ∀ a j, outcome f j (g a) = r a) : outcome f i (x >>= g) = outcome f i x >>= r := by
  unfold outcome at h ⊢
  rw [ReaderT.run_bind, EStateM.run_bind]
  cases (x.run f).run i with
  | ok a j => exact h a j
  | error e j => rfl

end Reading

/-! ## Offers -/

/-- What a walk offers its visitor: commands, and the fault with which it ends if it does not come to
    the last one. -/
structure Offer where
  commands : List PlacedCommand
  fault? : Option Error

namespace Offer

/-- The offer of no command, with a fault. -/
def fail (e : Error) : Offer :=
  { commands := [], fault? := some e }

/-- The offer with one more command in front. -/
def cons (c : PlacedCommand) (o : Offer) : Offer :=
  { o with commands := c :: o.commands }

/-- The commands that locate signatures. -/
def signatures (o : Offer) : Offer :=
  { o with commands := o.commands.filter (·.IsSignature) }

/-- Gives the commands to a visitor, one after the other, each with the reader behind its head. The
    visitor's own faults come first, then that of the offer. -/
def run {σ : Type} (o : Offer) (f : Frame) (visit : Nat → LoadCommand → σ → Reading σ) (s : σ) :
    Except Error σ := do
  let s ← o.commands.foldlM (fun s c =>
    Reading.outcome f (c.start + LoadCommand.headSize) (visit c.start c.command s)) s
  match o.fault? with
  | none => return s
  | some e => throw e

variable {σ : Type} {f : Frame} {visit : Nat → LoadCommand → σ → Reading σ} {s : σ}

theorem fault?_cons {c : PlacedCommand} {o : Offer} : (o.cons c).fault? = o.fault? := rfl

theorem run_fail {e : Error} : (fail e).run f visit s = .error e := rfl

theorem run_cons {c : PlacedCommand} {o : Offer} :
    (o.cons c).run f visit s =
      Reading.outcome f (c.start + LoadCommand.headSize) (visit c.start c.command s) >>=
        o.run f visit := by
  unfold run cons
  rw [List.foldlM_cons, bind_assoc]

theorem run_ite {p : Prop} [Decidable p] {o o' : Offer} :
    (if p then o else o').run f visit s = if p then o.run f visit s else o'.run f visit s :=
  apply_ite (fun o : Offer => o.run f visit s) ..

theorem signatures_cons {c : PlacedCommand} {o : Offer} :
    (o.cons c).signatures = if c.IsSignature then o.signatures.cons c else o.signatures := by
  unfold signatures cons
  rw [List.filter_cons]
  by_cases hc : c.IsSignature <;> simp [hc]

/-- A visitor that only looks at the commands that locate signatures need be given no others. -/
theorem run_signatures {o : Offer}
    (hskip : ∀ c : PlacedCommand, ¬c.IsSignature → ∀ s i,
      Reading.outcome f i (visit c.start c.command s) = .ok s) :
    o.signatures.run f visit s = o.run f visit s := by
  obtain ⟨cs, fault?⟩ := o
  induction cs generalizing s with
  | nil => rfl
  | cons c rest ih =>
    show (Offer.cons c ⟨rest, fault?⟩).signatures.run f visit s =
      (Offer.cons c ⟨rest, fault?⟩).run f visit s
    rw [signatures_cons]
    split
    · rw [run_cons, run_cons]
      exact congrArg (_ >>= ·) (funext fun t => ih)
    · -- the command that is left out would have been looked at to no effect
      rename_i hc
      rw [run_cons, hskip c hc, ih]
      rfl

end Offer

/-- What a walk over `count` commands offers from an offset on; `index` numbers them. A command is offered
    before its end is sought. -/
def LoadCommand.offerFrom (f : Frame) : (count index start : Nat) → Offer
  | 0, _, _ => { commands := [], fault? := none }
  | count + 1, index, start =>
    let command := LoadCommand.at f start
    if start + 8 ≤ f.size then
      if command.size.toNat < headSize then .fail (.commandSize index command.size.toNat)
      else .cons { start, command } <|
        if start + command.size.toNat ≤ f.size then
          offerFrom f count (index + 1) (start + command.size.toNat)
        else .fail (.seekOutOfRange (start + command.size.toNat : Nat) f.size)
    else .fail (.insufficient "load command header" 8 start (f.size - start))

/-- What a walk offers behind a header. -/
def LoadCommand.offer (f : Frame) (h : Header) : Offer :=
  if h.commandCount.toNat > maxCommands then .fail (.tooManyCommands h.commandCount.toNat)
  else if h.size ≤ f.size then offerFrom f h.commandCount.toNat 0 h.size
  else .fail (.seekOutOfRange h.size f.size)

section Walk

variable {σ : Type} {f : Frame} {h : Header} {visit : Nat → LoadCommand → σ → Reading σ}

/-- A walk from an offset on is its offer, given to the visitor. -/
theorem LoadCommand.outcome_walkFrom {count index i : Nat} {s : σ} :
    Reading.outcome f i (walkFrom visit count index s) =
      (offerFrom f count index i).run f visit s := by
  -- by induction on the commands that are left, whatever state the visitor has reached
  induction count generalizing index i s with
  | zero => rfl
  | succ count ih =>
    rw [walkFrom, Reading.outcome_tell_bind, Reading.outcome_wordPair_bind, offerFrom]
    simp only [Offer.run_ite, Offer.run_fail, Offer.run_cons]
    refine if_congr Iff.rfl ?_ rfl
    rw [Reading.outcome_guard]
    refine if_congr Iff.rfl rfl ?_
    -- the end of the command is sought from wherever the visitor has left the reader
    refine Reading.outcome_bind_of_forall fun t j => ?_
    rw [Reading.outcome_seek_bind, ih, Offer.run_ite]
    rfl

/-- A walk is its offer, given to the visitor, wherever the reader is when it starts. -/
theorem LoadCommand.outcome_walk {i : Nat} {s : σ} :
    Reading.outcome f i (walk h visit s) = (offer f h).run f visit s := by
  unfold walk offer
  rw [Reading.outcome_guard, Reading.outcome_seek_bind, outcome_walkFrom, Offer.run_ite,
    Offer.run_ite]
  rfl

end Walk

/-! ## Faults of an offer -/

section Faults

variable {f : Frame} {h : Header} {e : Error}

theorem LoadCommand.isTyped_offerFrom {count index start : Nat}
    (he : (offerFrom f count index start).fault? = some e) : e.IsTyped := by
  fun_induction offerFrom f count index start with
  | case1 => cases he
  | case2 => cases he; rfl
  | case3 index start count command hhead hsize ih =>
    -- the command is offered either way; the fault is that of the offer behind it
    rw [Offer.fault?_cons] at he
    split at he
    · exact ih he
    · cases he
      rfl
  | case4 => cases he; rfl

/-- A walk itself only fails with a fault of a class. -/
theorem LoadCommand.isTyped_offer (he : (offer f h).fault? = some e) : e.IsTyped := by
  unfold offer at he
  split at he
  · cases he
    rfl
  · split at he
    · exact isTyped_offerFrom he
    · cases he
      rfl

end Faults

/-! ## Tables -/

namespace Tiles

variable {f : Frame} {i j : Nat} {cs : List PlacedCommand}

/-- The first command is where the table starts. -/
theorem start_head (h : Tiles f i cs j) : ∀ c ∈ cs.head?, c.start = i := by
  cases h with
  | nil _ => simp
  | cons _ _ _ => simp

/-- Each command starts where the one before it ends. -/
theorem isChain (h : Tiles f i cs j) :
    cs.IsChain fun c d => d.start = c.start + c.command.size.toNat := by
  induction h with
  | nil _ => exact .nil
  | cons _ _ hrest ih => exact List.isChain_cons.mpr ⟨fun c hc => hrest.start_head c hc, ih⟩

theorem ascending (h : Tiles f i cs j) : cs.Pairwise fun c d => c.start < d.start := by
  induction h with
  | nil _ => exact .nil
  | cons _ hsize hrest ih =>
    refine .cons (fun d hd => ?_) ih
    obtain ⟨-, -, hstart, -⟩ := hrest.of_mem hd
    unfold LoadCommand.headSize at hsize
    simp only
    omega

end Tiles

/-- The commands are all that a header promises, the first one at the end of the header, each other one
    at the end of its predecessor and none beyond the end of the frame. -/
structure IsTable (f : Frame) (h : Header) (cs : List PlacedCommand) : Prop where
  length_eq : cs.length = h.commandCount.toNat
  command_eq : ∀ c ∈ cs, c.command = .at f c.start
  first : ∀ c ∈ cs.head?, c.start = h.size
  next : cs.IsChain fun c d => d.start = c.start + c.command.size.toNat
  size_ge : ∀ c ∈ cs, 8 ≤ c.command.size.toNat
  ascending : cs.Pairwise fun c d => c.start < d.start
  inside : ∀ c ∈ cs, c.start + c.command.size.toNat ≤ f.size

theorem Tiles.isTable {f : Frame} {h : Header} {cs : List PlacedCommand} {j : Nat}
    (htiles : Tiles f h.size cs j) (hlength : cs.length = h.commandCount.toNat) : IsTable f h cs where
  length_eq := hlength
  command_eq _ hc := (htiles.of_mem hc).1
  first := htiles.start_head
  next := htiles.isChain
  size_ge _ hc := (htiles.of_mem hc).2.1
  ascending := htiles.ascending
  inside _ hc := Nat.le_trans (htiles.of_mem hc).2.2.2 htiles.stop_le

section Tables

variable {f : Frame} {h : Header}

/-- An offer without a fault has all commands, and they tile the frame from where it starts. -/
theorem LoadCommand.tiles_offerFrom {count index start : Nat} (hin : start ≤ f.size)
    (hfault : (offerFrom f count index start).fault? = none) :
    (offerFrom f count index start).commands.length = count ∧
      ∃ j, Tiles f start (offerFrom f count index start).commands j := by
  fun_induction offerFrom f count index start with
  | case1 _ start => exact ⟨rfl, start, .nil hin⟩
  | case2 => cases hfault
  | case3 index start count command hhead hsize ih =>
    rw [Offer.fault?_cons] at hfault
    split at hfault
    · rename_i hend
      rw [if_pos hend]
      obtain ⟨hlength, j, htiles⟩ := ih hend hfault
      exact ⟨congrArg Nat.succ hlength, j, .cons hhead (Nat.le_of_not_lt hsize) htiles⟩
    · cases hfault
  | case4 => cases hfault

theorem LoadCommand.isTable_offer (hfault : (offer f h).fault? = none) :
    IsTable f h (offer f h).commands := by
  unfold offer at hfault ⊢
  split at hfault
  · cases hfault
  · rename_i hcount
    split at hfault
    · rename_i hin
      rw [if_neg hcount, if_pos hin]
      obtain ⟨hlength, j, htiles⟩ := tiles_offerFrom hin hfault
      exact htiles.isTable hlength
    · cases hfault

end Tables

/-! ## What a visitor meets -/

/-- A visitor that also lists the commands that it is given. -/
def LoadCommand.recorded {σ : Type} (visit : Nat → LoadCommand → σ → Reading σ) (start : Nat)
    (command : LoadCommand) (s : σ × List PlacedCommand) : Reading (σ × List PlacedCommand) := do
  return (← visit start command s.1, s.2 ++ [⟨start, command⟩])

section Visits

variable {σ : Type} {f : Frame} {visit : Nat → LoadCommand → σ → Reading σ} {s t : σ}

/-- Visits that are recorded list the commands. -/
theorem Visits.recorded {cs met : List PlacedCommand} (h : Visits f visit cs s t) :
    Visits f (LoadCommand.recorded visit) cs (s, met) (t, met ++ cs) := by
  induction h generalizing met with
  | nil =>
    rw [List.append_nil]
    exact .nil
  | @cons c rest s t u k hvisit _ ih =>
    rw [List.append_cons]
    have hrecorded : Reading.Yields f (c.start + LoadCommand.headSize)
        (LoadCommand.recorded visit c.start c.command (s, met)) (t, met ++ [c]) k :=
      Reading.yields_bind.mpr ⟨t, k, hvisit, Reading.yields_pure.mpr ⟨rfl, rfl⟩⟩
    exact .cons hrecorded ih

/-- If no visit fails, an offer ends with its own fault or with what the visits have reached. -/
theorem Offer.run_of_visits {o : Offer} (h : Visits f visit o.commands s t) :
    o.run f visit s = match o.fault? with
      | none => .ok t
      | some e => .error e := by
  obtain ⟨cs, fault?⟩ := o
  change Visits f visit cs s t at h
  induction h with
  | nil => rfl
  | @cons c rest s t u k hvisit _ ih =>
    show (Offer.cons c ⟨rest, fault?⟩).run f visit s = _
    rw [run_cons, Reading.outcome_eq_ok_iff.mpr ⟨k, hvisit⟩]
    exact ih

/-- The visits to the commands of an offer that is run to a result. -/
theorem Offer.visits_of_run {o : Offer} (h : o.run f visit s = .ok t) :
    Visits f visit o.commands s t := by
  obtain ⟨cs, fault?⟩ := o
  induction cs generalizing s with
  | nil =>
    cases fault? with
    | none =>
      cases h
      exact .nil
    | some e => cases h
  | cons c rest ih =>
    change (Offer.cons c ⟨rest, fault?⟩).run f visit s = .ok t at h
    rw [run_cons] at h
    cases hvisit : Reading.outcome f (c.start + LoadCommand.headSize) (visit c.start c.command s) with
    | error e =>
      -- a visit that fails would have ended the run
      rw [hvisit] at h
      cases h
    | ok u =>
      rw [hvisit] at h
      obtain ⟨k, hyields⟩ := Reading.outcome_eq_ok_iff.mp hvisit
      exact .cons hyields (ih h)

end Visits

section Visitors

variable {f : Frame} {h : Header} {i : Nat}

/-- What a slice's entitlements are is told by the commands that locate signatures. -/
theorem outcome_sliceEntitlements [Host] {arch : Option String} :
    Reading.outcome f i (sliceEntitlements arch h) =
      (LoadCommand.offer f h).signatures.run f (collectEntitlements (some (sliceName arch h))) [] := by
  unfold sliceEntitlements
  rw [LoadCommand.outcome_walk, Offer.run_signatures]
  intro c hc found i
  unfold collectEntitlements
  rw [if_pos (show c.command.kind ≠ LoadCommand.codeSignature from hc)]
  rfl

/-- What stripping a slice blanks is told by the commands that locate signatures. -/
theorem outcome_stripSlice {base : Nat} {truncate : Bool} {bytes : ByteArray} :
    Reading.outcome f i (stripSlice base truncate h bytes) =
      (LoadCommand.offer f h).signatures.run f (stripCommand base truncate)
        { bytes, sliceEnd := base + f.size } := by
  unfold stripSlice
  rw [Reading.outcome_read_bind, LoadCommand.outcome_walk, Offer.run_signatures]
  intro c hc s i
  unfold stripCommand
  rw [if_pos (show c.command.kind ≠ LoadCommand.codeSignature from hc)]
  rfl

end Visitors

/-- Behind every header of every frame stands one offer, whatever visitor a walk has, whatever that
    visitor reads and wherever it moves the reader. It ends with a fault of a class, or it is a table.
    A walk gives it to its visitor command by command; if no visit fails, the walk ends with the fault of
    the offer, or the visitor has met the whole table. Reading a slice's entitlements and stripping the
    slice look at the same commands of it, which locate signatures. -/
theorem walk_tiles [Host] (f : Frame) (h : Header) :
    ∃ o : Offer,
      ((∃ e, o.fault? = some e ∧ e.IsTyped) ∨ (o.fault? = none ∧ IsTable f h o.commands)) ∧
      (∀ (σ : Type) (visit : Nat → LoadCommand → σ → Reading σ) (s : σ) (i : Nat),
        Reading.outcome f i (LoadCommand.walk h visit s) = o.run f visit s) ∧
      (∀ (σ : Type) (visit : Nat → LoadCommand → σ → Reading σ) (s t : σ) (i : Nat),
        Visits f visit o.commands s t →
          (∃ e, o.fault? = some e ∧
            Reading.outcome f i (LoadCommand.walk h visit s) = .error e) ∨
          (o.fault? = none ∧ Reading.outcome f i (LoadCommand.walk h (LoadCommand.recorded visit)
            (s, [])) = .ok (t, o.commands))) ∧
      (∀ (arch : Option String) (i : Nat),
        Reading.outcome f i (sliceEntitlements arch h) =
          o.signatures.run f (collectEntitlements (some (sliceName arch h))) []) ∧
      (∀ (base : Nat) (truncate : Bool) (bytes : ByteArray) (i : Nat),
        Reading.outcome f i (stripSlice base truncate h bytes) =
          o.signatures.run f (stripCommand base truncate) { bytes, sliceEnd := base + f.size }) := by
  refine ⟨LoadCommand.offer f h, ?_, fun _ _ _ _ => LoadCommand.outcome_walk, ?_,
    fun _ _ => outcome_sliceEntitlements, fun _ _ _ _ => outcome_stripSlice⟩
  · -- the fault of the offer decides, for all visitors at once
    cases hfault : (LoadCommand.offer f h).fault? with
    | none => exact .inr ⟨rfl, LoadCommand.isTable_offer hfault⟩
    | some e => exact .inl ⟨e, rfl, LoadCommand.isTyped_offer hfault⟩
  · -- a visitor that takes all commands is not stopped before the offer ends
    intro σ visit s t i hvisits
    have hrecorded : Visits f (LoadCommand.recorded visit) (LoadCommand.offer f h).commands (s, [])
        (t, (LoadCommand.offer f h).commands) := hvisits.recorded
    cases hfault : (LoadCommand.offer f h).fault? with
    | none =>
      refine .inr ⟨rfl, ?_⟩
      rw [LoadCommand.outcome_walk, Offer.run_of_visits hrecorded, hfault]
    | some e =>
      refine .inl ⟨e, rfl, ?_⟩
      rw [LoadCommand.outcome_walk, Offer.run_of_visits hvisits, hfault]

/-- A visitor that adds the sizes of commands and leaves the reader where the frame starts. -/
def rewinding (_ : Nat) (command : LoadCommand) (total : Nat) : Reading Nat := do
  Reading.seek 0
  return total + command.size.toNat

/-- The visitor that leaves the reader elsewhere still meets the one command of a signed file. -/
theorem walk_tiles_rewinding :
    let f := Frame.ofBytes none (signedFile [1, 2, 3, 4])
    IsTable f signedHeader [signedCommand] ∧
      Reading.result f (LoadCommand.walk signedHeader (LoadCommand.recorded rewinding) (0, [])) =
        .ok (16, [signedCommand]) := by
  intro f
  obtain ⟨o, hends, hrun, hmet, -, -⟩ := walk_tiles f signedHeader
  have hwalk : Reading.outcome f 0 (LoadCommand.walk signedHeader rewinding 0) = .ok 16 := by
    decide +kernel
  have hrecorded : Reading.outcome f 0 (LoadCommand.walk signedHeader
      (LoadCommand.recorded rewinding) (0, [])) = .ok (16, [signedCommand]) := by decide +kernel
  -- the walk has a result, so the offer has no fault, and what is recorded is all of it
  have hvisits : Visits f rewinding o.commands 0 16 :=
    Offer.visits_of_run ((hrun Nat rewinding 0 0).symm.trans hwalk)
  obtain ⟨e, -, herror⟩ | ⟨hfault, hall⟩ := hmet Nat rewinding 0 16 0 hvisits
  · exact nomatch hwalk.symm.trans herror
  obtain ⟨e, he, -⟩ | ⟨-, htable⟩ := hends
  · exact nomatch hfault.symm.trans he
  obtain ⟨-, hcommands⟩ := Prod.mk.inj (Except.ok.inj (hall.symm.trans hrecorded))
  rw [hcommands] at htable
  exact ⟨htable, Reading.result_eq_outcome.trans hrecorded⟩

end ReleaseSeal.MachO
