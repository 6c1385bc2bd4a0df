import Mathlib.Tactic.MkIffOfInductiveProp
import ReleaseSeal.Proofs.Bundle.Layout
import ReleaseSeal.Proofs.MachO.Embedded
import ReleaseSeal.Proofs.Plist.Objects

/-!
# Faulty property lists

Bytes that are no property list are malformed, and whoever asked for one is told so, or that there is none.
The faults are those failures that go past this: a date without the shape of one or without a day, a key or
the value of a key where no container is open, an encoding that is not known, and containers that nest too
deep for the call stack. A document in markup raises one if the builder comes to an event that does, whatever
follows there, or to the end of a document in such an encoding. One in the binary format nests too deep if an
object is reached for which there is no room.

## Key results

- `dateOfText_eq_fault_iff`: the texts of dates that raise a fault
- `Builder.step_eq_fault_iff`: the events that raise one
- `decode_eq_fault_iff`: the payloads that raise one
- `payload_outcomes`: what entitlements and the information of a bundle make of a payload
- `letterForDate_raises`: a payload of which they make nothing
-/

namespace ReleaseSeal.Plist

open Markup (Event)

/-! ## Dates -/

/-- The marks in front of the fields behind the year of a date. -/
def dateMarks : List Char := ['-', '-', 'T', ':', ':']

/-- A number of fields of two digits, each behind its mark, and then a `Z`. -/
def HasFields : (marks : List Char) → (count : Nat) → List Char → Prop
  | _, 0, cs => cs.head? = some 'Z'
  | [], _ + 1, _ => False
  | mark :: marks, count + 1, cs =>
    ∃ a b rest, cs = mark :: a :: b :: rest ∧ a.isDigit = true ∧ b.isDigit = true ∧
      HasFields marks count rest

/-- A text has the shape of a date with a number of fields behind the year. What follows the `Z` does not
    matter. -/
def IsDate (cs : List Char) (count : Nat) : Prop :=
  ∃ year rest, cs = year ++ rest ∧ year.length = 4 ∧ (∀ c ∈ year, c.isDigit = true) ∧
    HasFields dateMarks count rest

theorem datePart?_eq_some_iff {mark : Char} {cs rest : List Char} {n : Nat} :
    datePart? mark cs = some (n, rest) ↔
      ∃ a b, cs = mark :: a :: b :: rest ∧ a.isDigit = true ∧ b.isDigit = true ∧
        n = (a.toNat - 48) * 10 + (b.toNat - 48) := by
  unfold datePart?
  split
  · rename_i m a b rest'
    split
    · rename_i h
      simp only [Bool.and_eq_true, decide_eq_true_eq] at h
      grind
    · rename_i h
      simp only [Bool.and_eq_true, decide_eq_true_eq] at h
      grind
  · rename_i hno
    simp only [reduceCtorEq, false_iff]
    intro hpart
    obtain ⟨a, b, rfl, -⟩ := hpart
    exact hno _ _ _ _ rfl

/-- The fields are those that are read, since none of the marks is a `Z`. -/
theorem hasFields_iff {marks cs : List Char} {count : Nat} (hmarks : 'Z' ∉ marks) :
    HasFields marks count cs ↔
      (dateParts marks cs).1.length = count ∧ (dateParts marks cs).2.head? = some 'Z' := by
  -- by induction on the marks, each of which may have a field or not
  induction marks generalizing cs count with
  | nil => cases count <;> simp [HasFields, dateParts]
  | cons mark marks ih =>
    rw [List.mem_cons, not_or] at hmarks
    cases hpart : datePart? mark cs with
    | none =>
      -- no further field stands here
      have hno : ∀ a b rest, cs = mark :: a :: b :: rest → ¬(a.isDigit = true ∧ b.isDigit = true) := by
        intro a b rest hcs hdigits
        have hsome := datePart?_eq_some_iff.mpr ⟨a, b, hcs, hdigits.1, hdigits.2, rfl⟩
        rw [hpart] at hsome
        cases hsome
      cases count with
      | zero => simp [HasFields, dateParts, hpart]
      | succ count =>
        simp only [HasFields, dateParts, hpart, List.length_nil]
        grind
    | some part =>
      obtain ⟨n, rest⟩ := part
      obtain ⟨a, b, rfl, ha, hb, -⟩ := datePart?_eq_some_iff.mp hpart
      cases count with
      | zero =>
        -- a mark stands where the `Z` should
        simp [HasFields, dateParts, hpart, Ne.symm hmarks.1]
      | succ count =>
        simp only [HasFields, dateParts, hpart, List.length_cons, Nat.succ.injEq, ← ih hmarks.2]
        grind

theorem isDate_iff {cs : List Char} {count : Nat} :
    IsDate cs count ↔ (cs.take 4).length = 4 ∧ (cs.take 4).all Char.isDigit = true ∧
      HasFields dateMarks count (cs.drop 4) := by
  constructor
  · intro hdate
    obtain ⟨year, rest, rfl, hlength, hdigits, hfields⟩ := hdate
    rw [List.take_left' hlength, List.drop_left' hlength]
    exact ⟨hlength, List.all_eq_true.mpr hdigits, hfields⟩
  · intro hdate
    obtain ⟨hlength, hdigits, hfields⟩ := hdate
    exact ⟨cs.take 4, cs.drop 4, (List.take_append_drop 4 cs).symm, hlength,
      List.all_eq_true.mp hdigits, hfields⟩

/-- A text without the shape of a date raises a fault, and so does one that ends before the day. -/
theorem dateOfText_eq_fault_iff {cs : List Char} {fault : Fault} :
    dateOfText cs = .error (.fault fault) ↔
      (fault = .shapelessDate ∧ ∀ count, ¬IsDate cs count) ∨
        (fault = .incompleteDate ∧ ∃ count < 2, IsDate cs count) := by
  have hmarks : 'Z' ∉ dateMarks := by decide
  simp only [isDate_iff, hasFields_iff hmarks]
  unfold dateOfText
  rw [show ['-', '-', 'T', ':', ':'] = dateMarks from rfl]
  generalize dateParts dateMarks (cs.drop 4) = fields
  obtain ⟨parts, rest⟩ := fields
  dsimp only
  by_cases hshape : (cs.take 4).length = 4 ∧ (cs.take 4).all Char.isDigit = true ∧ rest.head? = some 'Z'
  · obtain ⟨hlength, hdigits, hend⟩ := hshape
    rw [if_pos (by simp [hlength, hdigits, hend])]
    simp only [hlength, hdigits, hend, and_true, true_and]
    by_cases hfew : parts.length < 2
    · rw [if_pos hfew]
      simp [hfew, eq_comm]
    · rw [if_neg hfew]
      -- what names no day is malformed, but no fault
      split
      · simp; omega
      · simp; omega
  · have hno : ∀ count, ¬((cs.take 4).length = 4 ∧ (cs.take 4).all Char.isDigit = true ∧
        parts.length = count ∧ rest.head? = some 'Z') := by
      rintro count ⟨hlength, hdigits, -, hend⟩
      exact hshape ⟨hlength, hdigits, hend⟩
    rw [if_neg (by simpa [and_assoc] using hshape)]
    simp only [hno, not_false_eq_true, implies_true, and_true, and_false, exists_false, or_false,
      Except.error.injEq, Failure.fault.injEq]
    exact eq_comm

/-! ## Events -/

namespace Builder

variable {b : Builder} {event : Event} {fault : Fault}

/-- The event adds a value or opens a container; a text that a value is read from is one of its kind. -/
def Places (b : Builder) : Event → Prop
  | .opened name => name = "dict" ∨ name = "array"
  | .closed name =>
    name = "true" ∨ name = "false" ∨ name = "string" ∨
      (name = "integer" ∧ (integerOfText b.text).isSome) ∨
      (name = "real" ∧ (Text.real? (String.ofList b.text)).isSome) ∨
      (name = "data" ∧ (Text.base64? b.text).isSome) ∨
      (name = "date" ∧ ∃ t, dateOfText b.text = .ok t)
  | .text _ => False

/-- An event raises a fault: a date has no shape, or none up to the day; or a key or a value of a key stands
    where no container is open, or a container ends there. -/
@[mk_iff]
inductive Raises (b : Builder) : Event → Fault → Prop
  | shapelessDate : (∀ count, ¬IsDate b.text count) → Raises b (.closed "date") .shapelessDate
  | incompleteDate {count : Nat} : count < 2 → IsDate b.text count →
      Raises b (.closed "date") .incompleteDate
  | value {event : Event} {key : String} : b.Places event → b.pending = some key → b.stack = [] →
      Raises b event .noContainer
  | key : b.expectsValue = false → b.stack = [] → Raises b (.closed "key") .noContainer
  | array : b.stack = [] → Raises b (.closed "array") .noContainer
  | dict : b.expectsValue = false → b.stack = [] → Raises b (.closed "dict") .noContainer

theorem slot_eq_fault_iff :
    b.slot = .error (.fault fault) ↔
      (∃ key, b.pending = some key) ∧ b.stack = [] ∧ fault = .noContainer := by
  unfold slot
  split <;> grind

theorem add_eq_fault_iff {value : Value} :
    b.add value = .error (.fault fault) ↔
      (∃ key, b.pending = some key) ∧ b.stack = [] ∧ fault = .noContainer := by
  rw [← slot_eq_fault_iff, add, bind_eq_error]
  exact or_iff_left fun ⟨_, _, hno⟩ => nomatch hno

theorem push_eq_fault_iff {contents : Contents} :
    b.push contents = .error (.fault fault) ↔
      (∃ key, b.pending = some key) ∧ b.stack = [] ∧ fault = .noContainer := by
  rw [← slot_eq_fault_iff, push, bind_eq_error]
  exact or_iff_left fun ⟨_, _, hno⟩ => nomatch hno

theorem pop_eq_fault_iff :
    b.pop = .error (.fault fault) ↔ b.stack = [] ∧ fault = .noContainer := by
  unfold pop
  split <;> grind

theorem key_eq_fault_iff :
    b.key = .error (.fault fault) ↔
      b.expectsValue = false ∧ b.stack = [] ∧ fault = .noContainer := by
  unfold key
  split
  · grind
  · split <;> grind

/-- A value that is read from a text raises a fault if it may not stand there, and the text is one of its
    kind. -/
theorem addRead_eq_fault_iff {α : Type} {x : Option α} {make : α → Value} :
    (do b.add (make (← wellFormed x))) = .error (.fault fault) ↔
      x.isSome ∧ (∃ key, b.pending = some key) ∧ b.stack = [] ∧ fault = .noContainer := by
  cases x with
  | none => simp [wellFormed, bind_eq_error]
  | some a =>
    simp only [wellFormed, bind_eq_error, reduceCtorEq, false_or, Except.ok.injEq, exists_eq_left',
      add_eq_fault_iff, Option.isSome_some, true_and]

/-- The builder fails with a fault exactly at an event that raises it. -/
theorem step_eq_fault_iff : b.step event = .error (.fault fault) ↔ b.Raises event fault := by
  rw [raises_iff]
  cases event with
  | text cs => simp [step, Places]
  | opened name =>
    simp only [step]
    split
    · rename_i hdict
      simp [push_eq_fault_iff, Places, hdict]
    · split
      · rename_i harray
        simp [push_eq_fault_iff, Places, harray]
      · rename_i hdict harray
        simp [Places, hdict, harray]
  | closed name =>
    simp only [step, close]
    -- by the names of the format, in the order in which the builder looks for them
    split
    · cases hexpects : b.expectsValue <;> simp [pop_eq_fault_iff, Places]
    · simp [pop_eq_fault_iff, Places]
    · simp [key_eq_fault_iff, Places]
    · simp [add_eq_fault_iff, Places]
    · simp [add_eq_fault_iff, Places]
    · simp [addRead_eq_fault_iff, Places]
    · simp [addRead_eq_fault_iff, Places]
    · simp [add_eq_fault_iff, Places]
    · simp [addRead_eq_fault_iff, Places]
    · -- a date may fail by itself, or where it is added
      simp only [bind_eq_error, dateOfText_eq_fault_iff, add_eq_fault_iff, Places]
      simp
      grind
    · simp [Places]
      grind

end Builder

/-! ## Documents -/

/-- A scanned document raises a fault: the builder comes to an event that does, or to the end of a document
    whose encoding is not known. -/
def RaisesIn (scan : Markup.Scan) (fault : Fault) : Prop :=
  (∃ before event after b, scan.events = before ++ event :: after ∧
    before.foldlM Builder.step Builder.empty = .ok b ∧ b.Raises event fault) ∨
  ∃ name, scan.ending = .unknownEncoding name ∧
    (∃ b, scan.events.foldlM Builder.step Builder.empty = .ok b) ∧ fault = .unknownEncoding name

/-- A payload raises a fault: it is a document in markup that does, or one in the binary format that nests
    too deep to be read. -/
inductive Faulty [Host] (payload : ByteArray) : Fault → Prop
  | markup {fault : Fault}
      (opens : (markupOpenings.any fun opening => opening.isPrefixOf (sliceList payload 0 32)) = true)
      (raises : RaisesIn (.ofBytes payload.data.toList) fault) : Faulty payload fault
  | binary
      (not_markup : (markupOpenings.any fun opening => opening.isPrefixOf (sliceList payload 0 32)) = false)
      (opens : binaryOpening.isPrefixOf (sliceList payload 0 32) = true)
      (nests : overflows payload = true) : Faulty payload .tooDeep

theorem ofMarkup_eq_fault_iff {bytes : ByteArray} {fault : Fault} :
    ofMarkup bytes = .error (.fault fault) ↔ RaisesIn (.ofBytes bytes.data.toList) fault := by
  unfold ofMarkup RaisesIn
  -- the first event that fails is the one that raises the fault, if there is one
  simp only [bind_eq_error, foldlM_eq_error, Builder.step_eq_fault_iff]
  apply or_congr_right
  cases (Markup.Scan.ofBytes bytes.data.toList).ending with
  | complete => simp [pure, Except.pure]
  | malformed => simp [throw_eq_error]
  | unknownEncoding name => simp [throw_eq_error, @eq_comm _ _ fault]

/-- Decoding fails with a fault exactly if the payload raises it. -/
theorem decode_eq_fault_iff [Host] {payload : ByteArray} {fault : Fault} :
    decode payload = .error (.fault fault) ↔ Faulty payload fault := by
  unfold decode
  dsimp only
  constructor
  · intro h
    split at h
    · rename_i hmarkup
      exact .markup hmarkup (ofMarkup_eq_fault_iff.mp h)
    · rename_i hmarkup
      split at h
      · rename_i hbinary
        split at h
        · rename_i hnests
          cases h
          exact .binary (Bool.not_eq_true _ ▸ hmarkup) hbinary hnests
        · -- what can be read is well formed or not, but raises nothing
          unfold wellFormed at h
          split at h
          · cases h
          · cases h
      · cases h
  · intro h
    cases h with
    | markup opens raises => rw [if_pos opens, ofMarkup_eq_fault_iff.mpr raises]
    | binary not_markup opens nests =>
      rw [if_neg (by rw [not_markup]; decide), if_pos opens, if_pos nests]

/-- A payload that nests too deep has containers that lead to an object for which there is no room. -/
theorem exists_reached_of_faulty [Host] {payload : ByteArray} (h : Faulty payload .tooDeep) :
    ∃ table top around i mark, ObjectTable.ofBytes? payload = some (table, top) ∧
      table.Reaches top around i ∧ (mark = none ∨ mark = table.mark? i) ∧
      Host.roomToRead table.referenceSize around mark = false := by
  cases h with
  | markup opens raises =>
    -- neither an event nor the end of a document is too deep
    obtain ⟨before, event, after, b, -, -, hraises⟩ | ⟨name, -, -, hno⟩ := raises
    · cases hraises
    · cases hno
  | binary not_markup opens nests => exact exists_reached_of_overflows nests

/-! ## Entitlements and information -/

/-- A document of a dictionary without a pair. -/
def bareDict : ByteArray :=
  ⟨#[60, 112, 108, 105, 115, 116, 62, 60, 100, 105, 99, 116, 47, 62, 60, 47, 112, 108, 105, 115, 116, 62]⟩

/-- A document of a date that has a letter for its text. -/
def letterForDate : ByteArray :=
  ⟨#[60, 112, 108, 105, 115, 116, 62, 60, 100, 97, 116, 101, 62, 120, 60, 47, 100, 97, 116, 101, 62, 60,
    47, 112, 108, 105, 115, 116, 62]⟩

theorem decode_bareDict : decode bareDict = .ok (.dict []) := by
  rfl

theorem decode_letterForDate : decode letterForDate = .error (.fault .shapelessDate) := by
  rfl

/-- The entry of information with a payload. -/
def informationWith (payload : ByteArray) : Archive.Entry :=
  { path := "A.app/Contents/Info.plist", size := payload.size, checksum := 0, isDir := false,
    payload := some (.pure (.ok payload)) }

theorem read_informationWith (payload : ByteArray) : (informationWith payload).read = .ok payload :=
  rfl

/-- What is made of a payload. Entitlements hold the dictionary that it decodes to; otherwise they cannot be
    read, or the payload raises a fault that has no class. The information of a bundle is that dictionary, or
    there is none, unless the payload raises a fault. It does not raise one for its depth unless its objects
    lead to one for which there is no room. -/
theorem payload_outcomes [Host] (payload : ByteArray) :
    (∀ arch e, Entitlements.ofPayload arch payload = .ok e ↔
      ∃ values, decode payload = .ok (.dict values) ∧ e = { values, arch }) ∧
    (∀ arch error, Entitlements.ofPayload arch payload = .error error →
      error.kind? = some .signatureReading ∨ ∃ fault, error = .payloadFault fault) ∧
    (∀ arch fault, Entitlements.ofPayload arch payload = .error (.payloadFault fault) ↔
      Faulty payload fault) ∧
    (Faulty payload .tooDeep → ∃ table top around i mark,
      ObjectTable.ofBytes? payload = some (table, top) ∧ table.Reaches top around i ∧
        (mark = none ∨ mark = table.mark? i) ∧
        Host.roomToRead table.referenceSize around mark = false) ∧
    ∀ entry : Archive.Entry, entry.read = .ok payload →
      (∀ info, Bundle.readInfo entry = .ok info ↔
        (∀ fault, ¬Faulty payload fault) ∧
          ∀ values, info = some values ↔ decode payload = .ok (.dict values)) ∧
      ∀ failure, Bundle.readInfo entry = .error failure ↔
        ∃ fault, failure = .faultyInformation fault ∧ Faulty payload fault := by
  refine ⟨fun arch e => Entitlements.ofPayload_eq_ok_iff, ?classes, ?faults, exists_reached_of_faulty,
    ?information⟩
  case classes =>
    intro arch error h
    obtain ⟨value, -, -, rfl⟩ | ⟨-, rfl⟩ | ⟨fault, -, rfl⟩ :=
      Entitlements.ofPayload_eq_error_iff.mp h
    · exact .inl rfl
    · exact .inl rfl
    · exact .inr ⟨fault, rfl⟩
  case faults =>
    intro arch fault
    simp [← decode_eq_fault_iff, Entitlements.ofPayload_eq_error_iff]
  case information =>
    intro entry hread
    rw [Bundle.readInfo_of_read hread]
    simp only [← decode_eq_fault_iff]
    refine ⟨fun info => Bundle.decodeInfo_eq_ok_iff, fun failure => ?_⟩
    simp only [Bundle.decodeInfo_eq_error_iff, and_comm]

/-- A dictionary without a pair makes entitlements as well as information. -/
theorem payload_outcomes_bareDict :
    (informationWith bareDict).read = .ok bareDict ∧
      Entitlements.ofPayload none bareDict = .ok { values := [], arch := none } ∧
        Bundle.readInfo (informationWith bareDict) = .ok (some []) := by
  obtain ⟨hresult, -, -, -, hinformation⟩ := payload_outcomes bareDict
  have hread := read_informationWith bareDict
  have hsound : ∀ fault, ¬Faulty bareDict fault := by
    intro fault hfaulty
    rw [← decode_eq_fault_iff, decode_bareDict] at hfaulty
    cases hfaulty
  refine ⟨hread, (hresult none _).mpr ⟨[], decode_bareDict, rfl⟩, ?_⟩
  refine ((hinformation _ hread).1 _).mpr ⟨hsound, fun values => ?_⟩
  simp [decode_bareDict]

/-- A date without the shape of one makes neither, and what is raised has no class. -/
theorem letterForDate_raises :
    (∃ error, Entitlements.ofPayload none letterForDate = .error error ∧
      error.kind? ≠ some .signatureReading) ∧
      ∀ info, Bundle.readInfo (informationWith letterForDate) ≠ .ok info := by
  refine ⟨⟨.payloadFault .shapelessDate, ?_, by decide⟩, ?_⟩
  · exact Entitlements.ofPayload_eq_error_iff.mpr (.inr (.inr ⟨_, decode_letterForDate, rfl⟩))
  · intro info hinfo
    rw [Bundle.readInfo_of_read (read_informationWith _), Bundle.decodeInfo_eq_ok_iff] at hinfo
    exact hinfo.1 _ decode_letterForDate

end ReleaseSeal.Plist
