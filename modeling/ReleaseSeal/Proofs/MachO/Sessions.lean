import Mathlib
import ReleaseSeal.Proofs.Bytes.Listing
import ReleaseSeal.Proofs.MachO.Offsets

/-!
# What readers of one byte string see

The readers of a session look at windows of one byte string, each made of an earlier one. Whatever is
asked of them and in whatever order, the window of a reader is the range of the bytes that the starts of
its views add up to, its offset stays inside it, and nothing outside it has an influence on what it
answers. An operation moves its own reader only, and a checked one that fails moves nothing.

## Key results

- `Session.performs_of_perform?`: what an operation does to the readers
- `History.showsAll_of`: the window and the offset of each reader, after any requests
- `History.alike_of`: two byte strings that agree on a window look the same through it
- `readers_stay_in_windows`: all of it for every reader that requests make
-/

namespace ReleaseSeal.MachO

/-! ## One operation of one reader -/

namespace Operation

/-- The operation moves or reads on only if all of its range is inside the window. -/
def isChecked : Operation → Bool
  | seek _ | skip _ | fields .. | take _ => true
  | tell | size | order | peek .. | classify _ | view .. | withOrder _ => false

/-- How far the operation advances its reader if it succeeds, for those that read on. -/
def advance? : Operation → Option Nat
  | fields _ record => some (Field.totalWidth record)
  | take count => some count.toNat
  | seek _ | skip _ | tell | size | order | peek .. | classify _ | view .. | withOrder _ => none

/-- The operation adds a reader if it succeeds. -/
def addsReader : Operation → Bool
  | view .. | withOrder _ => true
  | seek _ | skip _ | tell | size | order | fields .. | take _ | peek .. | classify _ => false

end Operation

theorem failsInPlace_action {f : Frame} {op : Operation} (hop : op.isChecked = true) :
    Reading.FailsInPlace f (Cursor.action op) := by
  cases op with
  | seek offset => exact Reading.failsInPlace_seek.bind_pure
  | skip count => exact Reading.failsInPlace_skip.bind_pure
  | fields what record => exact Reading.failsInPlace_fields.bind_pure
  | take count => exact Reading.failsInPlace_take.bind_pure
  | _ => cases hop

theorem advances_action {f : Frame} {op : Operation} {n : Nat} (hop : op.advance? = some n) :
    Reading.Advances f n (Cursor.action op) := by
  cases op with
  | fields what record =>
    cases hop
    exact Reading.advances_fields.bind_pure
  | take count =>
    cases hop
    exact Reading.advances_take.bind_pure
  | _ => cases hop

theorem stop_action_peek {f : Frame} {i : Nat} {offset : Int} {order : Option ByteOrder} :
    Reading.stop f i (Cursor.action (.peek offset order)) = i := by
  show Reading.stop f i
    (do return Outcome.number (← Reading.ofOutcome (f.peek offset order)).toNat) = i
  unfold Reading.stop
  rw [Reading.run_bind_pure]
  cases f.peek offset order <;> rfl

namespace Cursor

variable {α : Type} {c : Cursor} {action : Reading α}

/-- Running an action changes the offset of a reader, and nothing else. -/
theorem run_snd (c : Cursor) (action : Reading α) :
    (c.run action).2 = { c with offset := Reading.stop c.frame c.offset action } := by
  unfold run Reading.stop
  cases (action.run c.frame).run c.offset <;> rfl

theorem run_of_failsInPlace {e : Error} (haction : Reading.FailsInPlace c.frame action)
    (h : (c.run action).1 = .error e) : (c.run action).2 = c := by
  unfold run at h ⊢
  cases hrun : (action.run c.frame).run c.offset with
  | ok a j =>
    rw [hrun] at h
    cases h
  | error e' j => rw [haction c.offset e' j hrun]

theorem run_of_advances {n : Nat} {a : α} (haction : Reading.Advances c.frame n action)
    (h : (c.run action).1 = .ok a) : (c.run action).2 = { c with offset := c.offset + n } := by
  unfold run at h ⊢
  cases hrun : (action.run c.frame).run c.offset with
  | ok a' j => rw [haction c.offset a' j hrun]
  | error e j =>
    rw [hrun] at h
    cases h

end Cursor

/-! ## One operation in a session -/

namespace Session

/-- What an operation on a reader does to the readers of a session. -/
inductive Performs (s : Session) (i : Nat) : Operation → Except Error Outcome → Session → Prop where
  /-- A view adds a reader at the head of its window. -/
  | viewed {c : Cursor} {g : Frame} {start length : Int} {order : Option ByteOrder}
      (reader : s[i]? = some c) (made : c.frame.view start length order = .ok g) :
      Performs s i (.view start length order) (.ok (.reader s.size g)) (s.push { frame := g, offset := 0 })
  /-- A view that leaves the window adds nothing. -/
  | refused {c : Cursor} {e : Error} {start length : Int} {order : Option ByteOrder}
      (reader : s[i]? = some c) (fault : c.frame.view start length order = .error e) :
      Performs s i (.view start length order) (.error e) s
  /-- A reader in another order stands where the first one does. -/
  | reordered {c : Cursor} {order : Option ByteOrder} (reader : s[i]? = some c) :
      Performs s i (.withOrder order) (.ok (.reader s.size (c.frame.withOrder order)))
        (s.push { frame := c.frame.withOrder order, offset := c.offset })
  /-- Any other operation is an action of the reader itself. -/
  | acted {c : Cursor} {op : Operation} (reader : s[i]? = some c) (adds : op.addsReader = false) :
      Performs s i op (c.run (Cursor.action op)).1 (s.setIfInBounds i (c.run (Cursor.action op)).2)

variable {s s' : Session} {i : Nat} {op : Operation} {answer : Except Error Outcome}

theorem performs_of_perform? (h : s.perform? i op = some (answer, s')) :
    Performs s i op answer s' := by
  unfold perform? at h
  cases hc : s[i]? with
  | none =>
    rw [hc] at h
    cases h
  | some c =>
    rw [hc, Option.map_some, Option.some.injEq] at h
    cases op with
    | view start length order =>
      cases hview : c.frame.view start length order with
      | ok g =>
        simp only [hview] at h
        cases h
        exact .viewed hc hview
      | error e =>
        simp only [hview] at h
        cases h
        exact .refused hc hview
    | withOrder order =>
      cases h
      exact .reordered hc
    | _ =>
      cases h
      exact .acted hc rfl

/-- Putting a reader back where it is changes nothing. -/
theorem setIfInBounds_eq_self {c : Cursor} (h : s[i]? = some c) : s.setIfInBounds i c = s := by
  apply Array.ext_getElem?
  intro j
  rw [Array.getElem?_setIfInBounds]
  by_cases hij : i = j
  · subst hij
    rw [if_pos rfl, h, if_pos (Array.getElem?_eq_some_iff.mp h).1]
  · rw [if_neg hij]

/-- A checked operation that fails changes no reader. -/
theorem Performs.eq_of_error (h : Performs s i op answer s') {e : Error} (hanswer : answer = .error e)
    (hop : op.isChecked = true) : s' = s := by
  cases h with
  | viewed reader made => cases hop
  | refused reader fault => cases hop
  | reordered reader => cases hop
  | acted reader adds =>
    rw [Cursor.run_of_failsInPlace (failsInPlace_action hop) hanswer]
    exact setIfInBounds_eq_self reader

/-- What is read advances the reader that reads it. -/
theorem Performs.eq_of_advance (h : Performs s i op answer s') {a : Outcome} (hanswer : answer = .ok a)
    {n : Nat} (hop : op.advance? = some n) :
    ∃ c, s[i]? = some c ∧ s' = s.setIfInBounds i { c with offset := c.offset + n } := by
  cases h with
  | viewed reader made => cases hop
  | refused reader fault => cases hop
  | reordered reader => cases hop
  | acted reader adds =>
    exact ⟨_, reader, by rw [Cursor.run_of_advances (advances_action hop) hanswer]⟩

/-- A look ahead changes no reader. -/
theorem Performs.eq_of_peek {offset : Int} {order : Option ByteOrder}
    (h : Performs s i (.peek offset order) answer s') : s' = s := by
  cases h with
  | acted reader adds =>
    rw [Cursor.run_snd, stop_action_peek]
    exact setIfInBounds_eq_self reader

/-- A view changes no reader that is there. -/
theorem Performs.eq_of_view {start length : Int} {order : Option ByteOrder}
    (h : Performs s i (.view start length order) answer s') :
    s' = s ∨ ∃ frame, s' = s.push { frame, offset := 0 } := by
  cases h with
  | viewed reader made => exact .inr ⟨_, rfl⟩
  | refused reader fault => exact .inl rfl
  | acted reader adds => cases adds

end Session

/-! ## Windows -/

/-- A reader whose window is the range of the data that starts where some starts add up to, and whose
    offset is inside the window. -/
structure Cursor.Shows (data : ByteArray) (starts : List Int) (c : Cursor) : Prop where
  starts_nonneg : ∀ start ∈ starts, 0 ≤ start
  inside : starts.sum + c.frame.size ≤ data.size
  bytes_eq : c.frame.bytes = slice data starts.sum.toNat c.frame.size
  offset_le : c.offset ≤ c.frame.size

/-- A window inside a frame is a range of its bytes. -/
theorem Frame.range_of_view {f g : Frame} {start length : Int} {order : Option ByteOrder}
    (h : f.view start length order = .ok g) :
    0 ≤ start ∧ 0 ≤ length ∧ start + length ≤ f.size ∧
      g = .ofBytes order (slice f.bytes start.toNat length.toNat) := by
  unfold Frame.view at h
  split at h
  · cases h
  · rename_i hrange
    cases h
    have hin : 0 ≤ start ∧ 0 ≤ length ∧ start + length ≤ f.size := by
      simpa [and_assoc] using hrange
    exact ⟨hin.1, hin.2.1, hin.2.2, rfl⟩

/-- Whether a range is inside a frame is told by the frame's size. -/
theorem Frame.view_ne_error {f g f' : Frame} (hsize : f.size = g.size) {start length : Int}
    {order : Option ByteOrder} (hf : f.view start length order = .ok f') (e : Error) :
    g.view start length order ≠ .error e := by
  obtain ⟨hstart, hlength, hin, -⟩ := Frame.range_of_view hf
  intro hg
  unfold Frame.view at hg
  rw [if_neg (by simp; omega)] at hg
  cases hg

namespace Cursor.Shows

variable {data : ByteArray} {starts : List Int} {c : Cursor}

/-- A view shows the range behind its own start. -/
theorem view (h : c.Shows data starts) {g : Frame} {start length : Int} {order : Option ByteOrder}
    (hview : c.frame.view start length order = .ok g) :
    Cursor.Shows data (starts ++ [start]) { frame := g, offset := 0 } := by
  obtain ⟨hstart, hlength, hin, rfl⟩ := Frame.range_of_view hview
  have hsum : 0 ≤ starts.sum := List.sum_nonneg h.starts_nonneg
  have hinside := h.inside
  have hrange : start.toNat + length.toNat ≤ c.frame.size := by omega
  have hsize : (Frame.ofBytes order (slice c.frame.bytes start.toNat length.toNat)).size =
      length.toNat := size_slice hrange
  constructor
  · intro k hk
    obtain hk | hk := List.mem_append.mp hk
    · exact h.starts_nonneg k hk
    · rw [List.mem_singleton.mp hk]
      exact hstart
  · rw [List.sum_append, List.sum_singleton, hsize]
    omega
  · have hoffset : (starts ++ [start]).sum.toNat = starts.sum.toNat + start.toNat := by
      rw [List.sum_append, List.sum_singleton]
      omega
    rw [hsize, hoffset]
    show slice c.frame.bytes start.toNat length.toNat = _
    rw [h.bytes_eq, slice_slice hrange]
  · exact Nat.zero_le _

/-- The byte order has nothing to do with what is shown. -/
theorem withOrder (h : c.Shows data starts) (order : Option ByteOrder) :
    Cursor.Shows data starts { frame := c.frame.withOrder order, offset := c.offset } where
  starts_nonneg := h.starts_nonneg
  inside := h.inside
  bytes_eq := h.bytes_eq
  offset_le := h.offset_le

/-- An action of the reader keeps its window. -/
theorem run (h : c.Shows data starts) (op : Operation) :
    (c.run (Cursor.action op)).2.Shows data starts := by
  rw [Cursor.run_snd]
  exact {
    starts_nonneg := h.starts_nonneg
    inside := h.inside
    bytes_eq := h.bytes_eq
    offset_le := Cursor.staysInside_action op c.offset h.offset_le }

end Cursor.Shows

/-! ## Requests and answers -/

/-- A request to a reader, with its answer. -/
structure Exchange where
  index : Nat
  op : Operation
  answer : Except Error Outcome

/-- The starts of the views through which each reader looks, outermost first, after one more exchange:
    a reader that is made looks through those of the reader that it is made of, and a view has its own
    start behind them. -/
def Exchange.extend (starts : List (List Int)) (x : Exchange) : List (List Int) :=
  match x.op, x.answer with
  | .view start _ _, .ok _ => starts ++ [starts.getD x.index [] ++ [start]]
  | .withOrder _, .ok _ => starts ++ [starts.getD x.index []]
  | _, _ => starts

theorem Exchange.extend_of_addsReader {starts : List (List Int)} {x : Exchange}
    (h : x.op.addsReader = false) : x.extend starts = starts := by
  obtain ⟨i, op, answer⟩ := x
  cases op with
  | view start length order => cases h
  | withOrder order => cases h
  | _ => rfl

namespace Session

/-- Every reader shows the range where its starts add up to. -/
structure ShowsAll (data : ByteArray) (starts : List (List Int)) (s : Session) : Prop where
  length_eq : starts.length = s.size
  shows_of_reader : ∀ (i : Nat) (c : Cursor), s[i]? = some c → c.Shows data (starts.getD i [])

namespace ShowsAll

variable {data : ByteArray} {starts : List (List Int)} {s s' : Session} {i : Nat} {c : Cursor}

theorem push (h : s.ShowsAll data starts) {chain : List Int} (hc : c.Shows data chain) :
    ShowsAll data (starts ++ [chain]) (s.push c) where
  length_eq := by rw [List.length_append, List.length_singleton, Array.size_push, h.length_eq]
  shows_of_reader := by
    intro j d hd
    rw [Array.getElem?_push] at hd
    by_cases hj : j = s.size
    · -- the new reader is the last one, and so are its starts
      rw [if_pos hj, Option.some.injEq] at hd
      rw [hj, ← h.length_eq, List.getD_eq_getElem?_getD, List.getElem?_concat_length, ← hd]
      exact hc
    · rw [if_neg hj] at hd
      have hlt : j < starts.length := h.length_eq ▸ (Array.getElem?_eq_some_iff.mp hd).1
      rw [List.getD_eq_getElem?_getD, List.getElem?_append_left hlt, ← List.getD_eq_getElem?_getD]
      exact h.shows_of_reader j d hd

theorem setIfInBounds (h : s.ShowsAll data starts) (hc : c.Shows data (starts.getD i [])) :
    ShowsAll data starts (s.setIfInBounds i c) where
  length_eq := by rw [Array.size_setIfInBounds, h.length_eq]
  shows_of_reader := by
    intro j d hd
    rw [Array.getElem?_setIfInBounds] at hd
    by_cases hij : i = j
    · subst hij
      rw [if_pos rfl] at hd
      split at hd
      · cases hd
        exact hc
      · cases hd
    · rw [if_neg hij] at hd
      exact h.shows_of_reader j d hd

/-- An operation keeps what the readers show. -/
theorem performs (h : s.ShowsAll data starts) {op : Operation} {answer : Except Error Outcome}
    (hperforms : Performs s i op answer s') :
    s'.ShowsAll data (Exchange.extend starts { index := i, op, answer }) := by
  cases hperforms with
  | viewed reader made => exact h.push ((h.shows_of_reader i _ reader).view made)
  | refused reader fault => exact h
  | reordered reader => exact h.push ((h.shows_of_reader i _ reader).withOrder _)
  | acted reader adds =>
    rw [Exchange.extend_of_addsReader adds]
    exact h.setIfInBounds ((h.shows_of_reader i _ reader).run op)

end ShowsAll

end Session

/-! ## Two byte strings -/

/-- Two readers that were made alike onto two byte strings: their windows have the same size, and if
    they see the same bytes there, they are the same. -/
structure Cursor.Alike (c d : Cursor) : Prop where
  size_eq : c.frame.size = d.frame.size
  eq_of_bytes_eq : c.frame.bytes = d.frame.bytes → c = d

namespace Cursor.Alike

variable {c d : Cursor}

/-- The same range of two byte strings: the byte order is given, or told by the bytes. -/
theorem of_slice {bytes bytes' : ByteArray} {start size : Nat} {order : Option ByteOrder}
    (h : start + size ≤ bytes.size) (h' : start + size ≤ bytes'.size) :
    Cursor.Alike { frame := .ofBytes order (slice bytes start size), offset := 0 }
      { frame := .ofBytes order (slice bytes' start size), offset := 0 } where
  size_eq := by
    show (slice bytes start size).size = (slice bytes' start size).size
    rw [size_slice h, size_slice h']
  eq_of_bytes_eq hbytes := congrArg (fun bytes => Cursor.mk (Frame.ofBytes order bytes) 0) hbytes

theorem view {f g f' g' : Frame} {start length : Int} {order : Option ByteOrder}
    (hf : f.view start length order = .ok f') (hg : g.view start length order = .ok g') :
    Cursor.Alike { frame := f', offset := 0 } { frame := g', offset := 0 } := by
  obtain ⟨hstart, hlength, hin, rfl⟩ := Frame.range_of_view hf
  obtain ⟨-, -, hin', rfl⟩ := Frame.range_of_view hg
  have hin : start.toNat + length.toNat ≤ f.size := by omega
  have hin' : start.toNat + length.toNat ≤ g.size := by omega
  exact of_slice hin hin'

theorem withOrder (h : Cursor.Alike c d) (order : Option ByteOrder) :
    Cursor.Alike { frame := c.frame.withOrder order, offset := c.offset }
      { frame := d.frame.withOrder order, offset := d.offset } where
  size_eq := h.size_eq
  eq_of_bytes_eq hbytes := by rw [h.eq_of_bytes_eq hbytes]

theorem run (h : Cursor.Alike c d) (action : Reading Outcome) :
    Cursor.Alike (c.run action).2 (d.run action).2 := by
  rw [Cursor.run_snd, Cursor.run_snd]
  constructor
  · exact h.size_eq
  · intro hbytes
    rw [h.eq_of_bytes_eq hbytes]

end Cursor.Alike

namespace Session

/-- The readers of two sessions are alike, each to the one of its index. -/
structure Alike (s t : Session) : Prop where
  size_eq : s.size = t.size
  alike_of_readers : ∀ (i : Nat) (c d : Cursor), s[i]? = some c → t[i]? = some d → Cursor.Alike c d

namespace Alike

variable {s s' t t' : Session} {i : Nat} {c d : Cursor}

theorem push (h : Alike s t) (hcd : Cursor.Alike c d) : Alike (s.push c) (t.push d) where
  size_eq := by rw [Array.size_push, Array.size_push, h.size_eq]
  alike_of_readers := by
    intro j c' d' hc hd
    rw [Array.getElem?_push] at hc hd
    rw [← h.size_eq] at hd
    by_cases hj : j = s.size
    · rw [if_pos hj, Option.some.injEq] at hc hd
      rwa [← hc, ← hd]
    · rw [if_neg hj] at hc hd
      exact h.alike_of_readers j c' d' hc hd

theorem setIfInBounds (h : Alike s t) (hcd : Cursor.Alike c d) :
    Alike (s.setIfInBounds i c) (t.setIfInBounds i d) where
  size_eq := by rw [Array.size_setIfInBounds, Array.size_setIfInBounds, h.size_eq]
  alike_of_readers := by
    intro j c' d' hc hd
    rw [Array.getElem?_setIfInBounds] at hc hd
    rw [← h.size_eq] at hd
    by_cases hij : i = j
    · rw [if_pos hij] at hc hd
      split at hc
      · rename_i hin
        rw [if_pos hin] at hd
        cases hc
        cases hd
        exact hcd
      · cases hc
    · rw [if_neg hij] at hc hd
      exact h.alike_of_readers j c' d' hc hd

/-- The same operation keeps readers alike, and the new ones look through the same starts. -/
theorem performs (h : Alike s t) {op : Operation} {a b : Except Error Outcome}
    (hs : Performs s i op a s') (ht : Performs t i op b t') (starts : List (List Int)) :
    Alike s' t' ∧ Exchange.extend starts { index := i, op, answer := a } =
      Exchange.extend starts { index := i, op, answer := b } := by
  cases hs with
  | viewed reader made =>
    cases ht with
    | viewed reader' made' =>
      exact ⟨h.push (Cursor.Alike.view made made'), rfl⟩
    | refused reader' fault =>
      have hsize := (h.alike_of_readers i _ _ reader reader').size_eq
      exact absurd fault (Frame.view_ne_error hsize made _)
    | acted reader' adds => cases adds
  | refused reader fault =>
    cases ht with
    | viewed reader' made =>
      have hsize := (h.alike_of_readers i _ _ reader reader').size_eq
      exact absurd fault (Frame.view_ne_error hsize.symm made _)
    | refused reader' fault' => exact ⟨h, rfl⟩
    | acted reader' adds => cases adds
  | reordered reader =>
    cases ht with
    | reordered reader' =>
      exact ⟨h.push ((h.alike_of_readers i _ _ reader reader').withOrder _), rfl⟩
    | acted reader' adds => cases adds
  | acted reader adds =>
    cases ht with
    | viewed reader' made => cases adds
    | refused reader' fault => cases adds
    | reordered reader' => cases adds
    | acted reader' adds' =>
      rw [Exchange.extend_of_addsReader adds, Exchange.extend_of_addsReader adds]
      exact ⟨h.setIfInBounds ((h.alike_of_readers i _ _ reader reader').run _), rfl⟩

end Alike

theorem perform?_eq_none_iff {s : Session} {i : Nat} {op : Operation} :
    s.perform? i op = none ↔ s.size ≤ i := by
  rw [perform?, Option.map_eq_none_iff, Array.getElem?_eq_none_iff]

/-- What is answered is told by the reader, and by how many readers there are. -/
theorem perform?_congr {s t : Session} (hsize : s.size = t.size) {i : Nat} (h : s[i]? = t[i]?)
    (op : Operation) : (s.perform? i op).map Prod.fst = (t.perform? i op).map Prod.fst := by
  unfold perform?
  rw [h]
  cases t[i]? with
  | none => rfl
  | some c =>
    cases op with
    | view start length order =>
      simp only [Option.map_some]
      cases c.frame.view start length order with
      | ok frame =>
        show some (Except.ok (Outcome.reader s.size frame)) = some (.ok (.reader t.size frame))
        rw [hsize]
      | error e => rfl
    | withOrder order =>
      show some (Except.ok (Outcome.reader s.size _)) = some (.ok (.reader t.size _))
      rw [hsize]
    | _ => rfl

end Session

/-! ## Whole runs -/

/-- A session, with what its readers were asked and what they answered, oldest first. -/
structure History where
  session : Session
  log : List Exchange

namespace History

/-- One reader at the head of a frame, not asked anything yet. -/
def start (frame : Frame) : History :=
  { session := .start frame, log := [] }

/-- One more request; a request to a reader that is not there is not made. -/
def ask (h : History) (request : Nat × Operation) : History :=
  match h.session.perform? request.1 request.2 with
  | none => h
  | some (answer, session) =>
    { session, log := h.log ++ [{ index := request.1, op := request.2, answer }] }

/-- The history of some requests, one after the other. -/
def of (frame : Frame) (requests : List (Nat × Operation)) : History :=
  requests.foldl ask (start frame)

/-- The starts of the views through which each reader looks, if the first one starts at `root`. -/
def starts (root : Int) (h : History) : List (List Int) :=
  h.log.foldl Exchange.extend [[root]]

/-- Where the window of a reader starts: at the sum of the starts of its views. -/
def base (root : Int) (h : History) (i : Nat) : Int :=
  ((h.starts root).getD i []).sum

variable {data data' : ByteArray} {root : Int} {h : History} {f f' : Frame}
  {length : Option Int} {order : Option ByteOrder}

theorem of_concat (requests : List (Nat × Operation)) (request : Nat × Operation) :
    of f (requests ++ [request]) = (of f requests).ask request := by
  rw [of, List.foldl_append]
  rfl

theorem starts_concat (s : Session) (x : Exchange) :
    starts root { session := s, log := h.log ++ [x] } = x.extend (h.starts root) := by
  rw [starts, List.foldl_append]
  rfl

/-- One request keeps what the readers show. -/
theorem showsAll_ask (hshows : h.session.ShowsAll data (h.starts root)) (request : Nat × Operation) :
    (h.ask request).session.ShowsAll data ((h.ask request).starts root) := by
  unfold ask
  cases hperform : h.session.perform? request.1 request.2 with
  | none => exact hshows
  | some result =>
    show result.2.ShowsAll data (starts root { session := result.2, log := h.log ++ [_] })
    rw [starts_concat]
    exact hshows.performs (Session.performs_of_perform? hperform)

/-- The first reader is made of a range of the data. -/
theorem range_of_ofRange (hf : Frame.ofRange data root length order = .ok f) :
    0 ≤ root ∧ ∃ size : Nat, (length.getD (data.size - root)).toNat = size ∧
      root + size ≤ data.size ∧ f = .ofBytes order (slice data root.toNat size) := by
  unfold Frame.ofRange at hf
  generalize length.getD (data.size - root) = size at hf ⊢
  by_cases hin : 0 ≤ root ∧ 0 ≤ size ∧ root + size ≤ data.size
  · obtain ⟨hroot, hsize, hle⟩ := hin
    simp only [Int.not_lt.mpr hroot, Int.not_lt.mpr hsize, Int.not_lt.mpr hle,
      decide_false, Bool.or_false, Bool.false_eq_true, if_false] at hf
    cases hf
    exact ⟨hroot, _, rfl, by omega, rfl⟩
  · have hout : (decide (root < 0) || decide (size < 0) || decide (root + size > data.size)) = true := by
      simp
      omega
    simp only [hout, if_true] at hf
    cases hf

/-- The window of the first reader is that range, and its offset is the head of it. -/
theorem shows_of_ofRange (hf : Frame.ofRange data root length order = .ok f) :
    Cursor.Shows data [root] { frame := f, offset := 0 } := by
  obtain ⟨hroot, size, -, hle, rfl⟩ := range_of_ofRange hf
  have hsize : (Frame.ofBytes order (slice data root.toNat size)).size = size :=
    size_slice (show root.toNat + size ≤ data.size by omega)
  constructor
  · simpa using hroot
  · rw [List.sum_singleton, hsize]
    exact hle
  · rw [List.sum_singleton, hsize]
    rfl
  · exact Nat.zero_le _

theorem reader_start {i : Nat} {c : Cursor} (h : (start f).session[i]? = some c) :
    i = 0 ∧ c = { frame := f, offset := 0 } := by
  cases i with
  | zero => exact ⟨rfl, (Option.some.inj h).symm⟩
  | succ i => cases h

theorem showsAll_start (hf : Frame.ofRange data root length order = .ok f) :
    (start f).session.ShowsAll data ((start f).starts root) where
  length_eq := rfl
  shows_of_reader := by
    intro i c hc
    obtain ⟨rfl, rfl⟩ := reader_start hc
    exact shows_of_ofRange hf

/-- After any requests, every reader shows the range where its starts add up to. -/
theorem showsAll_of (hf : Frame.ofRange data root length order = .ok f)
    (requests : List (Nat × Operation)) :
    (of f requests).session.ShowsAll data ((of f requests).starts root) := by
  induction requests using List.reverseRecOn with
  | nil => exact showsAll_start hf
  | append_singleton requests request ih =>
    rw [of_concat]
    exact showsAll_ask ih request

/-- The same range of two byte strings of one size makes first readers that are alike. -/
theorem alike_start (hsize : data'.size = data.size) (hf : Frame.ofRange data root length order = .ok f)
    (hf' : Frame.ofRange data' root length order = .ok f') :
    (start f).session.Alike (start f').session where
  size_eq := rfl
  alike_of_readers := by
    intro i c d hc hd
    obtain ⟨-, rfl⟩ := reader_start hc
    obtain ⟨-, rfl⟩ := reader_start hd
    obtain ⟨hroot, size, hlength, hle, rfl⟩ := range_of_ofRange hf
    obtain ⟨-, size', hlength', hle', rfl⟩ := range_of_ofRange hf'
    obtain rfl : size = size' := by rw [← hlength, ← hlength', hsize]
    exact Cursor.Alike.of_slice (by omega) (by omega)

/-- One request keeps readers alike. -/
theorem alike_ask {h' : History} (halike : h.session.Alike h'.session)
    (hstarts : h.starts root = h'.starts root) (request : Nat × Operation) :
    (h.ask request).session.Alike (h'.ask request).session ∧
      (h.ask request).starts root = (h'.ask request).starts root := by
  unfold ask
  cases hperform : h.session.perform? request.1 request.2 with
  | none =>
    have hnone : h'.session.perform? request.1 request.2 = none := by
      rw [Session.perform?_eq_none_iff] at hperform ⊢
      rwa [← halike.size_eq]
    rw [hnone]
    exact ⟨halike, hstarts⟩
  | some result =>
    cases hperform' : h'.session.perform? request.1 request.2 with
    | none =>
      rw [Session.perform?_eq_none_iff, ← halike.size_eq, ← Session.perform?_eq_none_iff, hperform]
        at hperform'
      cases hperform'
    | some result' =>
      obtain ⟨hnext, hextend⟩ := halike.performs (Session.performs_of_perform? hperform)
        (Session.performs_of_perform? hperform') (h.starts root)
      show result.2.Alike result'.2 ∧ starts root { session := result.2, log := h.log ++ [_] } =
        starts root { session := result'.2, log := h'.log ++ [_] }
      rw [starts_concat, starts_concat, ← hstarts]
      exact ⟨hnext, hextend⟩

/-- The same requests to two byte strings of one size make readers that are alike. -/
theorem alike_of (hsize : data'.size = data.size) (hf : Frame.ofRange data root length order = .ok f)
    (hf' : Frame.ofRange data' root length order = .ok f') (requests : List (Nat × Operation)) :
    (of f requests).session.Alike (of f' requests).session ∧
      (of f requests).starts root = (of f' requests).starts root := by
  induction requests using List.reverseRecOn with
  | nil => exact ⟨alike_start hsize hf hf', rfl⟩
  | append_singleton requests request ih =>
    rw [of_concat, of_concat]
    exact alike_ask ih.1 ih.2 request

/-- What a reader looks at after some requests: a range of the data, with the offset inside it. -/
theorem window_of (hf : Frame.ofRange data root length order = .ok f)
    (requests : List (Nat × Operation)) {i : Nat} {c : Cursor}
    (hc : (of f requests).session[i]? = some c) :
    c.offset ≤ c.frame.size ∧ 0 ≤ (of f requests).base root i ∧
      (of f requests).base root i + c.frame.size ≤ data.size ∧
      c.frame.bytes = slice data ((of f requests).base root i).toNat c.frame.size := by
  have hshows := (showsAll_of hf requests).shows_of_reader i c hc
  exact ⟨hshows.offset_le, List.sum_nonneg hshows.starts_nonneg, hshows.inside, hshows.bytes_eq⟩

/-- Bytes outside the window of a reader have no influence on where it stands and what it answers. -/
theorem answers_of (hf : Frame.ofRange data root length order = .ok f)
    (hsize : data'.size = data.size) (hf' : Frame.ofRange data' root length order = .ok f')
    (requests : List (Nat × Operation)) {i : Nat} {c : Cursor}
    (hc : (of f requests).session[i]? = some c)
    (hagree : ∀ k < c.frame.size, byteAt data' (((of f requests).base root i).toNat + k) =
      byteAt data (((of f requests).base root i).toNat + k)) (op : Operation) :
    (of f' requests).session[i]? = some c ∧
      ((of f' requests).session.perform? i op).map Prod.fst =
        ((of f requests).session.perform? i op).map Prod.fst := by
  obtain ⟨halike, hstarts⟩ := alike_of hsize hf hf' requests
  have hlt : i < (of f' requests).session.size := by
    rw [← halike.size_eq]
    exact (Array.getElem?_eq_some_iff.mp hc).1
  obtain ⟨d, hd⟩ : ∃ d, (of f' requests).session[i]? = some d :=
    ⟨_, Array.getElem?_eq_getElem hlt⟩
  have hcd := halike.alike_of_readers i c d hc hd
  -- the two windows are the same range of the two byte strings
  obtain ⟨-, hbase, hin, hbytes⟩ := window_of hf requests hc
  obtain ⟨-, -, hin', hbytes'⟩ := window_of hf' requests hd
  have hrange : (of f' requests).base root i = (of f requests).base root i := by
    rw [base, base, hstarts]
  rw [hrange, ← hcd.size_eq] at hin' hbytes'
  have hsame : c.frame.bytes = d.frame.bytes := by
    rw [hbytes, hbytes']
    exact ((slice_eq_iff (by omega) (by omega)).mpr hagree).symm
  rw [hcd.eq_of_bytes_eq hsame] at hc ⊢
  exact ⟨hd, Session.perform?_congr halike.size_eq.symm (hd.trans hc.symm) op⟩

end History

/-- After any requests to the readers of some data, in whatever order they are made: every reader's offset
    is inside its window, and the window is the range of the data that starts at the sum of the starts of
    its views; data of the same size that agrees on that range makes the same reader, with the same answer
    to every operation. And an operation that is made then changes no reader if it is a checked one that
    fails; it moves its own reader over what it reads, and no other; a look ahead changes none, and a view
    at most adds one. -/
theorem readers_stay_in_windows {data : ByteArray} {root : Int} {length : Option Int}
    {order : Option ByteOrder} {f : Frame} (hf : Frame.ofRange data root length order = .ok f)
    (requests : List (Nat × Operation)) :
    (∀ (i : Nat) (c : Cursor), (History.of f requests).session[i]? = some c →
      (c.offset ≤ c.frame.size ∧ 0 ≤ (History.of f requests).base root i ∧
        (History.of f requests).base root i + c.frame.size ≤ data.size ∧
        c.frame.bytes = slice data ((History.of f requests).base root i).toNat c.frame.size) ∧
      ∀ (data' : ByteArray) (f' : Frame), data'.size = data.size →
        Frame.ofRange data' root length order = .ok f' →
        (∀ k < c.frame.size, byteAt data' (((History.of f requests).base root i).toNat + k) =
          byteAt data (((History.of f requests).base root i).toNat + k)) →
        ∀ op : Operation, (History.of f' requests).session[i]? = some c ∧
          ((History.of f' requests).session.perform? i op).map Prod.fst =
            ((History.of f requests).session.perform? i op).map Prod.fst) ∧
    (∀ (i : Nat) (op : Operation) (answer : Except Error Outcome) (s' : Session),
      (History.of f requests).session.perform? i op = some (answer, s') →
      (op.isChecked = true → (∃ e, answer = .error e) → s' = (History.of f requests).session) ∧
      (∀ n : Nat, op.advance? = some n → (∃ a, answer = .ok a) →
        ∃ c, (History.of f requests).session[i]? = some c ∧
          s' = (History.of f requests).session.setIfInBounds i { c with offset := c.offset + n }) ∧
      (∀ offset order, op = .peek offset order → s' = (History.of f requests).session) ∧
      (∀ start length order, op = .view start length order →
        s' = (History.of f requests).session ∨
          ∃ frame, s' = (History.of f requests).session.push { frame, offset := 0 })) := by
  constructor
  · intro i c hc
    constructor
    · exact History.window_of hf requests hc
    · intro data' f' hsize hf' hagree op
      exact History.answers_of hf hsize hf' requests hc hagree op
  · intro i op answer s' hperform
    have hperforms := Session.performs_of_perform? hperform
    refine ⟨?checked, ?read, ?peek, ?view⟩
    case checked =>
      intro hop herror
      obtain ⟨e, he⟩ := herror
      exact hperforms.eq_of_error he hop
    case read =>
      intro n hop hok
      obtain ⟨a, ha⟩ := hok
      exact hperforms.eq_of_advance ha hop
    case peek =>
      intro offset order hop
      subst hop
      exact hperforms.eq_of_peek
    case view =>
      intro start length order hop
      subst hop
      exact hperforms.eq_of_view

/-- Twelve bytes from the third on, a view of eight of them that is moved into, the same view in another
    order, and a view of four bytes of that one: the last reader looks at what starts at the seventh. -/
theorem readers_stay_in_windows_nested :
    let data : ByteArray := ⟨#[0, 1, 2, 3, 4, 5, 6, 7, 8, 9, 10, 11, 12, 13]⟩
    let requests : List (Nat × Operation) := [(0, .view 1 8 none), (1, .seek 4),
      (1, .fields "word" [.unsigned32]), (1, .withOrder (some .little)), (2, .view 3 4 none),
      (3, .skip (-1)), (9, .tell)]
    ∃ f, Frame.ofRange data 2 none none = .ok f ∧
      ∃ c, (History.of f requests).session[3]? = some c ∧ c.frame.bytes = slice data 6 4 := by
  intro data requests
  have hf : Frame.ofRange data 2 none none = .ok (.ofBytes none (slice data 2 12)) := rfl
  have hreader : (History.of (.ofBytes none (slice data 2 12)) requests).session[3]?.map
      (fun c => c.frame.size) = some 4 := by decide +kernel
  obtain ⟨c, hc, hsize⟩ := Option.map_eq_some_iff.mp hreader
  have hbase : (History.of (.ofBytes none (slice data 2 12)) requests).base 2 3 = 6 := by
    decide +kernel
  obtain ⟨-, -, -, hbytes⟩ := ((readers_stay_in_windows hf requests).1 3 c hc).1
  rw [hbase, hsize] at hbytes
  exact ⟨_, hf, c, hc, hbytes⟩

end ReleaseSeal.MachO
