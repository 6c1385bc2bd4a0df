import ReleaseSeal.MachO.LoadCommand
import ReleaseSeal.Proofs.MachO.Header
import Mathlib.Data.List.Forall2

/-!
# Tables of load commands

The load commands of a thin binary tile the region behind its header: each starts where the one before
it ends, and all are inside the frame. A `ThinBinary` is a header with such a table. A walk visits the
commands of the table in order and has a result exactly if each visit has one, whatever a visit reads
and wherever it leaves the reader (`ThinBinary.walk_eq_ok_iff`); so all walks of one frame meet the same
commands at the same offsets.

## Key results

- `Tiles.unique`: a frame has one table of a given number of commands
- `ThinBinary.walk_eq_ok_iff`: the result of a walk
- `exists_thinBinary`: a walk that has a result has met a table
-/

namespace ReleaseSeal.MachO

/-- A load command and the offset at which it starts. -/
structure PlacedCommand where
  start : Nat
  command : LoadCommand
deriving DecidableEq, Repr

/-- The command whose head stands at an offset. -/
def LoadCommand.at (f : Frame) (offset : Nat) : LoadCommand :=
  { kind := wordAt f.order f.bytes offset, size := wordAt f.order f.bytes (offset + 4) }

/-- The words of a command's head stand at an offset exactly if it is the command there. -/
theorem LoadCommand.holdsWords_iff {f : Frame} {offset : Nat} {c : LoadCommand} :
    HoldsWords f.order f.bytes offset [c.kind, c.size] ↔ offset + headSize ≤ f.size ∧ c = .at f offset := by
  obtain ⟨kind, size⟩ := c
  simp only [HoldsWords, LoadCommand.at, LoadCommand.mk.injEq, and_true, Frame.size, headSize]
  constructor
  · rintro ⟨-, rfl, hin, rfl⟩
    exact ⟨hin, rfl, rfl⟩
  · rintro ⟨hin, rfl, rfl⟩
    exact ⟨by omega, rfl, hin, rfl⟩

/-- The command at an offset is the same in another frame exactly if the bytes of its head are. -/
theorem LoadCommand.at_eq_iff {f g : Frame} {offset : Nat} (horder : g.order = f.order)
    (hg : offset + headSize ≤ g.size) (hf : offset + headSize ≤ f.size) :
    LoadCommand.at g offset = .at f offset ↔
      ∀ k < headSize, byteAt g.bytes (offset + k) = byteAt f.bytes (offset + k) := by
  have hwords := holdsWords_iff.mpr ⟨hf, rfl⟩
  have hle : offset ≤ g.bytes.size := Nat.le_trans (Nat.le_add_right ..) hg
  have hiff := hwords.iff_byteAt_eq hle
  rw [← horder, holdsWords_iff] at hiff
  constructor
  · intro hat k hk
    exact (hiff.mp ⟨hg, hat.symm⟩).2 (offset + k) (Nat.le_add_right ..) (Nat.add_lt_add_left hk _)
  · intro hbytes
    refine (hiff.mpr ⟨hg, fun k hle hlt => ?_⟩).2.symm
    obtain ⟨d, rfl⟩ := Nat.exists_eq_add_of_le hle
    exact hbytes d (Nat.lt_of_add_lt_add_left hlt)

/-- The commands follow each other without gaps, from one offset to another. -/
inductive Tiles (f : Frame) : Nat → List PlacedCommand → Nat → Prop
  | nil {start : Nat} : start ≤ f.size → Tiles f start [] start
  | cons {start stop : Nat} {rest : List PlacedCommand} :
      start + LoadCommand.headSize ≤ f.size →
      LoadCommand.headSize ≤ (LoadCommand.at f start).size.toNat →
      Tiles f (start + (LoadCommand.at f start).size.toNat) rest stop →
      Tiles f start ({ start, command := .at f start } :: rest) stop

/-- A thin binary at the start of a frame: its header, and its load commands up to where they end. -/
structure ThinBinary (f : Frame) where
  header : Header
  commands : List PlacedCommand
  stop : Nat
  opens : HoldsWords f.order f.bytes 0 header.words
  length_commands : commands.length = header.commandCount.toNat
  length_le : commands.length ≤ maxCommands
  tiles : Tiles f header.size commands stop

namespace Tiles

variable {f : Frame} {i j : Nat} {cs : List PlacedCommand}

theorem stop_le (h : Tiles f i cs j) : j ≤ f.size := by
  induction h with
  | nil hin => exact hin
  | cons _ _ _ ih => exact ih

theorem start_le_stop (h : Tiles f i cs j) : i ≤ j := by
  induction h with
  | nil _ => exact Nat.le_refl _
  | cons _ _ _ ih => omega

/-- Every command is the one at its offset, has room for its head and lies inside the table. -/
theorem of_mem (h : Tiles f i cs j) {c : PlacedCommand} (hc : c ∈ cs) :
    c.command = .at f c.start ∧ LoadCommand.headSize ≤ c.command.size.toNat ∧
      i ≤ c.start ∧ c.start + c.command.size.toNat ≤ j := by
  induction h with
  | nil _ => exact absurd hc List.not_mem_nil
  | cons _ hsize hrest ih =>
    obtain rfl | hc := List.mem_cons.mp hc
    · exact ⟨rfl, hsize, Nat.le_refl _, hrest.start_le_stop⟩
    · obtain ⟨hat, hhead, hstart, hstop⟩ := ih hc
      exact ⟨hat, hhead, by omega, hstop⟩

/-- Two commands of a table are the same, or one ends before the other starts. -/
theorem disjoint (h : Tiles f i cs j) {c d : PlacedCommand} (hc : c ∈ cs) (hd : d ∈ cs) :
    c = d ∨ c.start + c.command.size.toNat ≤ d.start ∨ d.start + d.command.size.toNat ≤ c.start := by
  induction h with
  | nil _ => exact absurd hc List.not_mem_nil
  | cons _ _ hrest ih =>
    obtain rfl | hc := List.mem_cons.mp hc
    · obtain rfl | hd := List.mem_cons.mp hd
      · exact .inl rfl
      · exact .inr (.inl (hrest.of_mem hd).2.2.1)
    · obtain rfl | hd := List.mem_cons.mp hd
      · exact .inr (.inr (hrest.of_mem hc).2.2.1)
      · exact ih hc hd

/-- A frame has one table of a given number of commands from an offset on. -/
theorem unique {cs' : List PlacedCommand} {j' : Nat} (h : Tiles f i cs j) (h' : Tiles f i cs' j')
    (hlength : cs.length = cs'.length) : cs = cs' ∧ j = j' := by
  induction h generalizing cs' with
  | nil _ =>
    cases h' with
    | nil _ => exact ⟨rfl, rfl⟩
    | cons _ _ _ => exact nomatch hlength
  | cons _ _ _ ih =>
    cases h' with
    | nil _ => exact nomatch hlength
    | cons _ _ hrest' =>
      obtain ⟨rfl, rfl⟩ := ih hrest' (Nat.succ.inj hlength)
      exact ⟨rfl, rfl⟩

/-- A table ends in the same place wherever it stands. -/
theorem stop_eq {g : Frame} {i' j' : Nat} (h : Tiles f i cs j) (h' : Tiles g i' cs j')
    (hstart : i' = i) : j' = j := by
  induction h generalizing i' with
  | nil _ =>
    cases h'
    exact hstart
  | @cons start stop rest _ _ _ ih =>
    -- the first command is fixed by the offset in one frame only, so the list is matched by hand
    generalize hcs : ({ start, command := .at f start } : PlacedCommand) :: rest = cs at h'
    cases h' with
    | nil _ => exact nomatch hcs
    | cons _ _ hrest' =>
      obtain ⟨hfirst, rfl⟩ := List.cons.inj hcs
      obtain ⟨rfl, hat⟩ := PlacedCommand.mk.inj hfirst
      exact ih hrest' (by rw [hat])

/-- A table is also one of another frame that has the same heads of commands in the same places. -/
theorem congr {g : Frame} (h : Tiles f i cs j) (horder : g.order = f.order) (hstop : j ≤ g.size)
    (hheads : ∀ c ∈ cs, ∀ k < LoadCommand.headSize,
      byteAt g.bytes (c.start + k) = byteAt f.bytes (c.start + k)) : Tiles g i cs j := by
  induction h with
  | nil _ => exact .nil hstop
  | @cons start stop rest hhead hsize hrest ih =>
    have hrest' := ih hstop fun c hc => hheads c (List.mem_cons_of_mem _ hc)
    -- the rest of the table starts behind this head, so that the head is inside
    have hin : start + LoadCommand.headSize ≤ g.size := by
      have hle := hrest'.start_le_stop
      omega
    have hat := (LoadCommand.at_eq_iff horder hin hhead).mpr (hheads _ List.mem_cons_self)
    rw [← hat] at hsize hrest' ⊢
    exact .cons hin hsize hrest'

end Tiles

/-! ## Walks -/

/-- The visits to commands in order. A visit starts behind the command's head and may leave the reader
    anywhere. -/
inductive Visits {σ : Type} (f : Frame) (visit : Nat → LoadCommand → σ → Reading σ) :
    List PlacedCommand → σ → σ → Prop
  | nil {s : σ} : Visits f visit [] s s
  | cons {c : PlacedCommand} {rest : List PlacedCommand} {s t u : σ} {k : Nat} :
      Reading.Yields f (c.start + LoadCommand.headSize) (visit c.start c.command s) t k →
      Visits f visit rest t u → Visits f visit (c :: rest) s u

section Walk

variable {σ : Type} {f : Frame} {visit : Nat → LoadCommand → σ → Reading σ}

theorem visits_nil_iff {s t : σ} : Visits f visit [] s t ↔ t = s := by
  constructor
  · rintro ⟨⟩
    rfl
  · rintro rfl
    exact .nil

theorem visits_cons_iff {c : PlacedCommand} {rest : List PlacedCommand} {s t : σ} :
    Visits f visit (c :: rest) s t ↔
      ∃ u, (∃ k, Reading.Yields f (c.start + LoadCommand.headSize) (visit c.start c.command s) u k) ∧
        Visits f visit rest u t := by
  constructor
  · intro h
    cases h with
    | cons hvisit hrest => exact ⟨_, ⟨_, hvisit⟩, hrest⟩
  · rintro ⟨u, ⟨k, hvisit⟩, hrest⟩
    exact .cons hvisit hrest

/-- A walk from an offset has a result exactly if the commands tile the frame from there on and each
    visit has a result. -/
theorem yields_walkFrom_iff {count index i j : Nat} {s t : σ} (hi : i ≤ f.size) :
    Reading.Yields f i (LoadCommand.walkFrom visit count index s) t j ↔
      ∃ cs, cs.length = count ∧ Tiles f i cs j ∧ Visits f visit cs s t := by
  -- by induction on the commands that are left, from wherever the last one has ended
  induction count generalizing index i s with
  | zero =>
    simp only [LoadCommand.walkFrom, Reading.yields_pure]
    constructor
    · rintro ⟨rfl, rfl⟩
      exact ⟨[], rfl, .nil hi, .nil⟩
    · rintro ⟨cs, hlength, htiles, hvisits⟩
      obtain rfl := List.length_eq_zero_iff.mp hlength
      cases htiles
      cases hvisits
      exact ⟨rfl, rfl⟩
  | succ count ih =>
    have hstep : Reading.Yields f i (LoadCommand.walkFrom visit (count + 1) index s) t j ↔
        i + LoadCommand.headSize ≤ f.size ∧
          LoadCommand.headSize ≤ (LoadCommand.at f i).size.toNat ∧
          ∃ u k, Reading.Yields f (i + LoadCommand.headSize) (visit i (.at f i) s) u k ∧
            i + (LoadCommand.at f i).size.toNat ≤ f.size ∧
            Reading.Yields f (i + (LoadCommand.at f i).size.toNat)
              (LoadCommand.walkFrom visit count (index + 1) u) t j := by
      simp only [LoadCommand.walkFrom, Reading.yields_bind, Reading.yields_tell,
        Reading.yields_wordPair, Reading.yields_guard, Reading.yields_seek_natCast, Nat.not_lt,
        and_assoc, exists_and_left, ↓existsAndEq, true_and, exists_const, exists_and_right,
        exists_eq_left]
      rfl
    rw [hstep]
    -- the visit stops at `k`, but the next command is sought where this one ends
    constructor
    · rintro ⟨hin, hsize, u, k, hvisit, hseek, hrest⟩
      obtain ⟨cs, hlength, htiles, hvisits⟩ := (ih hseek).mp hrest
      exact ⟨_ :: cs, congrArg Nat.succ hlength, .cons hin hsize htiles, .cons hvisit hvisits⟩
    · rintro ⟨cs, hlength, htiles, hvisits⟩
      cases htiles with
      | nil _ => exact absurd hlength.symm (Nat.succ_ne_zero _)
      | cons hin hsize htiles =>
        cases hvisits with
        | cons hvisit hvisits =>
          have hle := Nat.le_trans htiles.start_le_stop htiles.stop_le
          exact ⟨hin, hsize, _, _, hvisit, hle,
            (ih hle).mpr ⟨_, Nat.succ.inj hlength, htiles, hvisits⟩⟩

theorem yields_walk_iff {h : Header} {i j : Nat} {s t : σ} :
    Reading.Yields f i (LoadCommand.walk h visit s) t j ↔
      h.commandCount.toNat ≤ maxCommands ∧ h.size ≤ f.size ∧
        ∃ cs, cs.length = h.commandCount.toNat ∧ Tiles f h.size cs j ∧ Visits f visit cs s t := by
  simp only [LoadCommand.walk, Reading.yields_guard, Reading.yields_bind, Reading.yields_seek_natCast,
    Nat.not_lt]
  constructor
  · rintro ⟨hcount, -, _, ⟨hin, rfl⟩, hwalk⟩
    exact ⟨hcount, hin, (yields_walkFrom_iff hin).mp hwalk⟩
  · rintro ⟨hcount, hin, hcommands⟩
    exact ⟨hcount, (), h.size, ⟨hin, rfl⟩, (yields_walkFrom_iff hin).mpr hcommands⟩

/-- Visits that leave the state as it is can be left out. -/
theorem visits_filter_iff {P : PlacedCommand → Prop} [DecidablePred P]
    (hskip : ∀ c, ¬P c → ∀ s t, (∃ k, Reading.Yields f (c.start + LoadCommand.headSize)
      (visit c.start c.command s) t k) ↔ t = s)
    {cs : List PlacedCommand} {s t : σ} :
    Visits f visit cs s t ↔ Visits f visit (cs.filter P) s t := by
  induction cs generalizing s with
  | nil => rfl
  | cons c rest ih =>
    by_cases hc : P c
    · rw [List.filter_cons_of_pos (by simpa using hc), visits_cons_iff, visits_cons_iff]
      exact exists_congr fun u => and_congr_right fun _ => ih
    · rw [List.filter_cons_of_neg (by simpa using hc), visits_cons_iff, ← ih]
      simp only [hskip c hc, exists_eq_left]

/-- If each visit has some outcome by a relation and adds it to the state, the visits to all commands
    add the outcomes in order. -/
theorem visits_iff {α : Type} {R : PlacedCommand → α → Prop} {add : σ → α → σ}
    {cs : List PlacedCommand} {s t : σ}
    (hstep : ∀ c ∈ cs, ∀ s t, (∃ k, Reading.Yields f (c.start + LoadCommand.headSize)
      (visit c.start c.command s) t k) ↔ ∃ a, R c a ∧ t = add s a) :
    Visits f visit cs s t ↔ ∃ as, List.Forall₂ R cs as ∧ t = as.foldl add s := by
  induction cs generalizing s with
  | nil => simp [visits_nil_iff]
  | cons c rest ih =>
    obtain ⟨hc, hrest⟩ := List.forall_mem_cons.mp hstep
    rw [visits_cons_iff]
    simp only [hc, ih hrest]
    constructor
    · rintro ⟨_, ⟨a, ha, rfl⟩, as, has, rfl⟩
      exact ⟨a :: as, .cons ha has, rfl⟩
    · rintro ⟨as, has, rfl⟩
      cases has with
      | cons ha has => exact ⟨_, ⟨_, ha, rfl⟩, _, has, rfl⟩

/-- If each visit to a command that is admitted changes the state by a function, and no other visit has a
    result, the visits to admitted commands change it one after the other. -/
theorem visits_iff_foldl {P : PlacedCommand → Prop} {change : σ → PlacedCommand → σ}
    {cs : List PlacedCommand} {s t : σ}
    (hstep : ∀ c ∈ cs, ∀ s t, (∃ k, Reading.Yields f (c.start + LoadCommand.headSize)
      (visit c.start c.command s) t k) ↔ P c ∧ t = change s c) :
    Visits f visit cs s t ↔ (∀ c ∈ cs, P c) ∧ t = cs.foldl change s := by
  induction cs generalizing s with
  | nil => simp [visits_nil_iff]
  | cons c rest ih =>
    obtain ⟨hc, hrest⟩ := List.forall_mem_cons.mp hstep
    rw [visits_cons_iff, List.forall_mem_cons, List.foldl_cons]
    simp only [hc, ih hrest]
    constructor
    · rintro ⟨_, ⟨hc, rfl⟩, hrest, rfl⟩
      exact ⟨⟨hc, hrest⟩, rfl⟩
    · rintro ⟨⟨hc, hrest⟩, rfl⟩
      exact ⟨_, ⟨hc, rfl⟩, hrest, rfl⟩

end Walk

/-! ## Thin binaries -/

namespace ThinBinary

variable {σ : Type} {f : Frame} {visit : Nat → LoadCommand → σ → Reading σ} {s t : σ}

theorem classify_eq (B : ThinBinary f) : Reading.result f (classify 0) = .ok (.thin B.header) :=
  classify_eq_thin_iff.mpr B.opens

theorem header_size_le (B : ThinBinary f) : B.header.size ≤ B.stop :=
  B.tiles.start_le_stop

theorem header_size_le_size (B : ThinBinary f) : B.header.size ≤ f.size :=
  Nat.le_trans B.header_size_le B.tiles.stop_le

/-- A walk has a result exactly if the visits to the commands of the table have one. -/
theorem walk_eq_ok_iff (B : ThinBinary f) :
    Reading.result f (LoadCommand.walk B.header visit s) = .ok t ↔ Visits f visit B.commands s t := by
  rw [Reading.result_eq_ok_iff]
  simp only [yields_walk_iff]
  constructor
  · rintro ⟨j, -, -, cs, hlength, htiles, hvisits⟩
    obtain ⟨rfl, -⟩ := B.tiles.unique htiles (B.length_commands.trans hlength.symm)
    exact hvisits
  · intro hvisits
    exact ⟨B.stop, B.length_commands ▸ B.length_le, B.header_size_le_size,
      B.commands, B.length_commands, B.tiles, hvisits⟩

/-- There is only one thin binary at the start of a frame. -/
instance : Subsingleton (ThinBinary f) where
  allEq B B' := by
    have hheader : B.header = B'.header :=
      Binary.thin.inj (Except.ok.inj (B.classify_eq.symm.trans B'.classify_eq))
    have hlength : B.commands.length = B'.commands.length := by
      rw [B.length_commands, B'.length_commands, hheader]
    obtain ⟨hcommands, hstop⟩ := B.tiles.unique (hheader ▸ B'.tiles) hlength
    cases B
    cases B'
    cases hheader
    cases hcommands
    cases hstop
    rfl

end ThinBinary

/-- A walk behind a recognised header that has a result has met a table of commands. -/
theorem exists_thinBinary {σ : Type} {f : Frame} {visit : Nat → LoadCommand → σ → Reading σ} {s t : σ}
    {h : Header} (hclassify : Reading.result f (classify 0) = .ok (.thin h))
    (hwalk : Reading.result f (LoadCommand.walk h visit s) = .ok t) :
    ∃ B : ThinBinary f, B.header = h ∧ Visits f visit B.commands s t := by
  obtain ⟨j, hyields⟩ := Reading.result_eq_ok_iff.mp hwalk
  obtain ⟨hcount, -, cs, hlength, htiles, hvisits⟩ := yields_walk_iff.mp hyields
  let B : ThinBinary f :=
    { header := h, commands := cs, stop := j, opens := classify_eq_thin_iff.mp hclassify,
      length_commands := hlength, length_le := hlength ▸ hcount, tiles := htiles }
  exact ⟨B, rfl, hvisits⟩

end ReleaseSeal.MachO
