import ReleaseSeal.Proofs.Entitlement.Policy
import ReleaseSeal.Report.Entitlements

/-!
# What keeps a report from being written

A report on entitlements lists dictionaries by their keys. If all keys are texts and nothing in them nests
too deep for the call stack, the only things that keep it from being written are a number with too many
digits and a container that is part of itself. Keys of other types may have no common order, or no form in
JSON.

## Key results

- `textFault?_eq_some`: why a value has no text
- `ofValue_eq_error`: why a value has no form in JSON
- `entitlementsJson_eq_error` / `entitlementsText_eq_error`: why a report is not finished
-/

namespace ReleaseSeal.Plist.Value

/-- The keys of the dictionary, and of all dictionaries in it, are texts. -/
inductive TextKeyed : Value → Prop where
  | null : TextKeyed .null
  | bool (b : Bool) : TextKeyed (.bool b)
  | int (n : Int) : TextKeyed (.int n)
  | real (x : Binary64) : TextKeyed (.real x)
  | text (s : String) : TextKeyed (.text s)
  | data (bytes : ByteArray) : TextKeyed (.data bytes)
  | date (t : Timestamp) : TextKeyed (.date t)
  | uid (n : Nat) : TextKeyed (.uid n)
  | array {items : List Value} (items_keyed : ∀ item ∈ items, TextKeyed item) : TextKeyed (.array items)
  | dict {pairs : Dict} (key_text : ∀ pair ∈ pairs, ∃ k, pair.1 = .text k)
      (values_keyed : ∀ pair ∈ pairs, TextKeyed pair.2) : TextKeyed (.dict pairs)
  | again (isDict : Bool) (levels : Nat) : TextKeyed (.again isDict levels)

/-- One key that is no text is enough. -/
theorem not_textKeyed_of_key {pairs : Dict} {pair : Value × Value} (hpair : pair ∈ pairs)
    (htext : ∀ k, pair.1 ≠ .text k) : ¬(Value.dict pairs).TextKeyed := by
  intro hkeyed
  cases hkeyed with
  | dict key_text values_keyed =>
    obtain ⟨k, hk⟩ := key_text pair hpair
    exact htext k hk

/-- There is no room for the value inside containers of some kinds, innermost first, or for something that
    stands in it. -/
inductive Overflows (room : List ValueKind → ValueKind → Bool) : List ValueKind → Value → Prop where
  | here {around : List ValueKind} {v : Value} (h : room around v.kind = false) : Overflows room around v
  | item {around : List ValueKind} {items : List Value} {item : Value} (mem : item ∈ items)
      (h : Overflows room (.array :: around) item) : Overflows room around (.array items)
  | key {around : List ValueKind} {pairs : Dict} {pair : Value × Value} (mem : pair ∈ pairs)
      (h : Overflows room (.dict :: around) pair.1) : Overflows room around (.dict pairs)
  | value {around : List ValueKind} {pairs : Dict} {pair : Value × Value} (mem : pair ∈ pairs)
      (h : Overflows room (.dict :: around) pair.2) : Overflows room around (.dict pairs)

section Overflows

variable {room : List ValueKind → ValueKind → Bool} {around : List ValueKind}

@[simp] theorem overflows_null : Value.null.Overflows room around ↔ room around .null = false :=
  ⟨fun h => by cases h; assumption, .here (v := .null)⟩

@[simp] theorem overflows_int {n : Int} :
    (Value.int n).Overflows room around ↔ room around .int = false :=
  ⟨fun h => by cases h; assumption, .here (v := .int n)⟩

@[simp] theorem overflows_text {s : String} :
    (Value.text s).Overflows room around ↔ room around .text = false :=
  ⟨fun h => by cases h; assumption, .here (v := .text s)⟩

@[simp] theorem overflows_array {items : List Value} :
    (Value.array items).Overflows room around ↔
      room around .array = false ∨ ∃ item ∈ items, item.Overflows room (.array :: around) := by
  constructor
  · intro h
    cases h with
    | here h => exact .inl h
    | item mem h => exact .inr ⟨_, mem, h⟩
  · intro h
    obtain h | ⟨item, mem, h⟩ := h
    · exact .here h
    · exact .item mem h

@[simp] theorem overflows_dict {pairs : Dict} :
    (Value.dict pairs).Overflows room around ↔
      room around .dict = false ∨ ∃ pair ∈ pairs,
        pair.1.Overflows room (.dict :: around) ∨ pair.2.Overflows room (.dict :: around) := by
  constructor
  · intro h
    cases h with
    | here h => exact .inl h
    | key mem h => exact .inr ⟨_, mem, .inl h⟩
    | value mem h => exact .inr ⟨_, mem, .inr h⟩
  · intro h
    obtain h | ⟨pair, mem, h | h⟩ := h
    · exact .here h
    · exact .key mem h
    · exact .value mem h

end Overflows

/-! ## The size of values -/

section Size

variable {v : Value} {items : List Value} {pairs : Dict} {item : Value} {pair : Value × Value}

theorem sizeOf_lt_of_item (hv : v = .array items) (hmem : item ∈ items) : sizeOf item < sizeOf v := by
  have hsize := List.sizeOf_lt_of_mem hmem
  rw [hv, array.sizeOf_spec]
  omega

theorem sizeOf_add_lt_of_pair (hv : v = .dict pairs) (hmem : pair ∈ pairs) :
    sizeOf pair.1 + sizeOf pair.2 < sizeOf v := by
  have hsize := List.sizeOf_lt_of_mem hmem
  obtain ⟨key, value⟩ := pair
  rw [Prod.mk.sizeOf_spec] at hsize
  rw [hv, dict.sizeOf_spec]
  dsimp only
  omega

theorem sizeOf_lt_of_key (hv : v = .dict pairs) (hmem : pair ∈ pairs) : sizeOf pair.1 < sizeOf v :=
  Nat.lt_of_le_of_lt (Nat.le_add_right ..) (sizeOf_add_lt_of_pair hv hmem)

theorem sizeOf_lt_of_value (hv : v = .dict pairs) (hmem : pair ∈ pairs) : sizeOf pair.2 < sizeOf v :=
  Nat.lt_of_le_of_lt (Nat.le_add_left ..) (sizeOf_add_lt_of_pair hv hmem)

end Size

/-! ## Texts -/

section Text

variable [Host] {around : List ValueKind} {fault : TextFault}

theorem ifRoom_eq_some {kind : ValueKind} {fault? : Option TextFault}
    (h : ifRoom around kind fault? = some fault) :
    fault? = some fault ∨ (fault = .tooDeep ∧ Host.roomToShow around kind = false) := by
  unfold ifRoom at h
  split at h
  · exact .inl h
  · rename_i hroom
    exact .inr ⟨(Option.some.inj h).symm, Bool.not_eq_true _ ▸ hroom⟩

theorem itemsFault?_eq_some {items : List Value} (h : itemsFault? around items = some fault) :
    ∃ item ∈ items, textFault? around item = some fault := by
  induction items with
  | nil => cases h
  | cons item items ih =>
    obtain hitem | ⟨-, hitems⟩ := (Option.orElse_eq_some _ _ _).mp h
    · exact ⟨item, List.mem_cons_self, hitem⟩
    · obtain ⟨other, hmem, hother⟩ := ih hitems
      exact ⟨other, List.mem_cons_of_mem _ hmem, hother⟩

theorem pairFault?_eq_some {pair : Value × Value} (h : pairFault? around pair = some fault) :
    textFault? around pair.1 = some fault ∨ textFault? around pair.2 = some fault := by
  obtain ⟨key, value⟩ := pair
  obtain hkey | ⟨-, hvalue⟩ := (Option.orElse_eq_some _ _ _).mp h
  · exact .inl hkey
  · exact .inr hvalue

theorem pairsFault?_eq_some {pairs : Dict} (h : pairsFault? around pairs = some fault) :
    ∃ pair ∈ pairs, pairFault? around pair = some fault := by
  induction pairs with
  | nil => cases h
  | cons pair pairs ih =>
    obtain hpair | ⟨-, hpairs⟩ := (Option.orElse_eq_some _ _ _).mp h
    · exact ⟨pair, List.mem_cons_self, hpair⟩
    · obtain ⟨other, hmem, hother⟩ := ih hpairs
      exact ⟨other, List.mem_cons_of_mem _ hmem, hother⟩

/-- Why a value has no text: a number in it is too long, or there is no room for something in it. -/
theorem textFault?_eq_some {around : List ValueKind} (v : Value) (h : textFault? around v = some fault) :
    fault = .longNumeral ∨ (fault = .tooDeep ∧ v.Overflows Host.roomToShow around) := by
  cases v with
  | array items =>
    obtain hitems | ⟨hdeep, hroom⟩ := ifRoom_eq_some h
    · -- the item stands inside one more array
      obtain ⟨item, hmem, hitem⟩ := itemsFault?_eq_some hitems
      obtain hlong | ⟨hdeep, hover⟩ := textFault?_eq_some item hitem
      · exact .inl hlong
      · exact .inr ⟨hdeep, .item hmem hover⟩
    · exact .inr ⟨hdeep, .here hroom⟩
  | dict pairs =>
    obtain hpairs | ⟨hdeep, hroom⟩ := ifRoom_eq_some h
    · obtain ⟨pair, hmem, hpair⟩ := pairsFault?_eq_some hpairs
      obtain hkey | hvalue := pairFault?_eq_some hpair
      · obtain hlong | ⟨hdeep, hover⟩ := textFault?_eq_some pair.1 hkey
        · exact .inl hlong
        · exact .inr ⟨hdeep, .key hmem hover⟩
      · obtain hlong | ⟨hdeep, hover⟩ := textFault?_eq_some pair.2 hvalue
        · exact .inl hlong
        · exact .inr ⟨hdeep, .value hmem hover⟩
    · exact .inr ⟨hdeep, .here hroom⟩
  | int n =>
    obtain hlong | ⟨hdeep, hroom⟩ := ifRoom_eq_some h
    · split at hlong
      · exact .inl (Option.some.inj hlong).symm
      · cases hlong
    · exact .inr ⟨hdeep, .here hroom⟩
  | _ =>
    obtain hno | ⟨hdeep, hroom⟩ := ifRoom_eq_some h
    · cases hno
    · exact .inr ⟨hdeep, .here hroom⟩
termination_by sizeOf v
decreasing_by
  · exact sizeOf_lt_of_item ‹_› hmem
  · exact sizeOf_lt_of_key ‹_› hmem
  · exact sizeOf_lt_of_value ‹_› hmem

end Text

end ReleaseSeal.Plist.Value

namespace ReleaseSeal.Report

open Plist (Value Dict)

section Value

variable [Host] {around : List ValueKind} {e : Failure}

/-- Why a value inside containers of some kinds has no form in JSON: a number is too long, a container is
    part of itself, some key is no text, or there is no room for something in it. -/
inductive WritingFault (around : List ValueKind) (v : Value) : Failure → Prop
  | numeral : WritingFault around v .numeralTooLong
  | selfContaining : WritingFault around v .selfContaining
  | unordered (h : ¬v.TextKeyed) : WritingFault around v .unorderedKeys
  | unwritable (h : ¬v.TextKeyed) : WritingFault around v .unwritableKey
  | tooDeep (h : v.Overflows (Host.roomToWrite false) around) : WritingFault around v .tooDeep

namespace WritingFault

variable {v w : Value}

/-- What keeps a part of a value from being written is about the value too. -/
theorem mono {inner : List ValueKind} (h : WritingFault inner v e) (hkeyed : w.TextKeyed → v.TextKeyed)
    (hover : v.Overflows (Host.roomToWrite false) inner →
      w.Overflows (Host.roomToWrite false) around) : WritingFault around w e := by
  cases h with
  | numeral => exact .numeral
  | selfContaining => exact .selfContaining
  | unordered h => exact .unordered fun hw => h (hkeyed hw)
  | unwritable h => exact .unwritable fun hw => h (hkeyed hw)
  | tooDeep h => exact .tooDeep (hover h)

end WritingFault

/-! ## Values -/

theorem ifRoom_eq_error {α : Type} {kind : ValueKind} {result : Except Failure α}
    (h : ifRoom around kind result = .error e) :
    result = .error e ∨ (e = .tooDeep ∧ Host.roomToWrite false around kind = false) := by
  unfold ifRoom at h
  split at h
  · exact .inl h
  · rename_i hroom
    exact .inr ⟨(Except.error.inj h).symm, Bool.not_eq_true _ ▸ hroom⟩

theorem ofItems_eq_error {items : List Value} (h : ofItems around items = .error e) :
    ∃ item ∈ items, ofValue around item = .error e := by
  induction items with
  | nil => cases h
  | cons item items ih =>
    rw [ofItems] at h
    obtain hitem | ⟨json, -, h⟩ := bind_eq_error.mp h
    · exact ⟨item, List.mem_cons_self, hitem⟩
    · obtain hrest | ⟨rest, -, hno⟩ := bind_eq_error.mp h
      · obtain ⟨other, hmem, hother⟩ := ih hrest
        exact ⟨other, List.mem_cons_of_mem _ hmem, hother⟩
      · cases hno

theorem ofPairs_eq_map (pairs : Dict) :
    ofPairs around pairs = pairs.map fun pair => (pair.1, ofValue around pair.2) := by
  induction pairs with
  | nil => rfl
  | cons pair pairs ih =>
    rw [ofPairs, ih, List.map_cons, ofPair]

/-- Why a key is no name of a field. -/
theorem fieldName_eq_error {key : Value} (h : fieldName around key = .error e) :
    e = .numeralTooLong ∨ (e = .unwritableKey ∧ ∀ k, key ≠ .text k) ∨
      (e = .tooDeep ∧ Host.roomToWrite false around key.kind = false) := by
  obtain hkey | hdeep := ifRoom_eq_error h
  · unfold keyText at hkey
    split at hkey
    · cases hkey
    · split at hkey
      · cases hkey
        exact .inl rfl
      · cases hkey
    · cases hkey
    · cases hkey
    · cases hkey
    all_goals
      cases hkey
      exact .inr (.inl ⟨rfl, by intro k hk; cases hk⟩)
  · exact .inr (.inr hdeep)

/-- Why the items of a dictionary are no fields: of a key, or of a value. -/
theorem fieldsOf_eq_error {items : List (Value × Except Failure Json)}
    (h : fieldsOf around items = .error e) :
    e = .numeralTooLong ∨
      ((e = .unorderedKeys ∨ e = .unwritableKey) ∧ ∃ item ∈ items, ∀ k, item.1 ≠ .text k) ∨
      (e = .tooDeep ∧ ∃ item ∈ items, Host.roomToWrite false around item.1.kind = false) ∨
      ∃ item ∈ items, item.2 = .error e := by
  unfold fieldsOf at h
  split at h
  · rename_i hsort
    cases h
    exact .inr (.inl ⟨.inl rfl, Plist.exists_of_sortByKey?_eq_none hsort⟩)
  · rename_i sorted hsort
    obtain ⟨item, hitem, hfault⟩ := exists_of_mapM_eq_error h
    have hmem := (Plist.sortByKey?_eq_some hsort).mem_iff.mp hitem
    obtain hname | ⟨name, -, hvalue⟩ := bind_eq_error.mp hfault
    · obtain hlong | ⟨hkey, htext⟩ | ⟨hdeep, hroom⟩ := fieldName_eq_error hname
      · exact .inl hlong
      · exact .inr (.inl ⟨.inr hkey, item, hmem, htext⟩)
      · exact .inr (.inr (.inl ⟨hdeep, item, hmem, hroom⟩))
    · obtain hvalue | ⟨json, -, hno⟩ := bind_eq_error.mp hvalue
      · exact .inr (.inr (.inr ⟨item, hmem, hvalue⟩))
      · cases hno

/-- Why a value has no form in JSON. -/
theorem ofValue_eq_error {around : List ValueKind} (v : Value) (h : ofValue around v = .error e) :
    WritingFault around v e := by
  rw [ofValue.eq_def] at h
  cases v with
  | int n =>
    obtain hlong | ⟨rfl, hroom⟩ := ifRoom_eq_error h
    · split at hlong
      · cases hlong
        exact .numeral
      · cases hlong
    · exact .tooDeep (.here hroom)
  | array items =>
    obtain hitems | ⟨rfl, hroom⟩ := ifRoom_eq_error h
    · obtain hitems | ⟨json, -, hno⟩ := bind_eq_error.mp hitems
      · -- what keeps an item from being written keeps the array from it
        obtain ⟨item, hmem, hitem⟩ := ofItems_eq_error hitems
        apply (ofValue_eq_error item hitem).mono
        · intro hkeyed
          cases hkeyed with
          | array items_keyed => exact items_keyed item hmem
        · exact .item hmem
      · cases hno
    · exact .tooDeep (.here hroom)
  | dict pairs =>
    obtain hfields | ⟨rfl, hroom⟩ := ifRoom_eq_error h
    · obtain hfields | ⟨json, -, hno⟩ := bind_eq_error.mp hfields
      · rw [ofPairs_eq_map] at hfields
        obtain rfl | ⟨he, item, hitem, htext⟩ | ⟨rfl, item, hitem, hroom⟩ | ⟨item, hitem, hvalue⟩ :=
          fieldsOf_eq_error hfields
        · exact .numeral
        · -- a key that is no text is one of the dictionary itself
          obtain ⟨pair, hpair, rfl⟩ := List.mem_map.mp hitem
          have hno : ¬(Value.dict pairs).TextKeyed := Plist.Value.not_textKeyed_of_key hpair htext
          obtain rfl | rfl := he
          · exact .unordered hno
          · exact .unwritable hno
        · obtain ⟨pair, hpair, rfl⟩ := List.mem_map.mp hitem
          exact .tooDeep (.key hpair (.here hroom))
        · obtain ⟨pair, hpair, rfl⟩ := List.mem_map.mp hitem
          apply (ofValue_eq_error pair.2 hvalue).mono
          · intro hkeyed
            cases hkeyed with
            | dict key_text values_keyed => exact values_keyed pair hpair
          · exact .value hpair
      · cases hno
    · exact .tooDeep (.here hroom)
  | again isDict levels =>
    obtain hself | ⟨rfl, hroom⟩ := ifRoom_eq_error h
    · cases hself
      exact .selfContaining
    · exact .tooDeep (.here hroom)
  | _ =>
    obtain hno | ⟨rfl, hroom⟩ := ifRoom_eq_error h
    · cases hno
    · exact .tooDeep (.here hroom)
termination_by sizeOf v
decreasing_by
  · exact Value.sizeOf_lt_of_item ‹_› hmem
  · exact Value.sizeOf_lt_of_value ‹_› hpair

end Value

/-! ## Merged entitlements -/

/-- Merging a dictionary into another adds nothing that is in neither of them. -/
theorem mem_or_mem_of_mem_mergeInto {merged values : Dict} {pair : Value × Value}
    (h : pair ∈ Entitlements.mergeInto merged values) : pair ∈ merged ∨ pair ∈ values := by
  induction values generalizing merged with
  | nil => exact .inl h
  | cons first values ih =>
    obtain hmerged | hvalues := ih h
    · -- the first pair is added at the end, or not at all
      dsimp only at hmerged
      split at hmerged
      · exact .inl hmerged
      · obtain hmerged | hfirst := List.mem_append.mp hmerged
        · exact .inl hmerged
        · exact .inr (List.mem_singleton.mp hfirst ▸ List.mem_cons_self)
    · exact .inr (List.mem_cons_of_mem _ hvalues)

/-- Merging slices into a dictionary adds nothing that no slice has. -/
theorem mem_or_exists_slice_of_mem_foldl {slices : List Entitlements} {merged : Dict}
    {pair : Value × Value}
    (h : pair ∈ slices.foldl (fun merged e => Entitlements.mergeInto merged e.values) merged) :
    pair ∈ merged ∨ ∃ slice ∈ slices, pair ∈ slice.values := by
  induction slices generalizing merged with
  | nil => exact .inl h
  | cons slice slices ih =>
    obtain hmerged | ⟨later, hlater, hmem⟩ := ih h
    · obtain hmerged | hvalues := mem_or_mem_of_mem_mergeInto hmerged
      · exact .inl hmerged
      · exact .inr ⟨slice, List.mem_cons_self, hvalues⟩
    · exact .inr ⟨later, List.mem_cons_of_mem _ hlater, hmem⟩

/-- Merging adds nothing that no slice has. -/
theorem exists_slice_of_mem_merge {slices : List Entitlements} {pair : Value × Value}
    (h : pair ∈ (Entitlements.merge slices).values) : ∃ slice ∈ slices, pair ∈ slice.values := by
  obtain hno | hslice := mem_or_exists_slice_of_mem_foldl h
  · cases hno
  · exact hslice

/-- If the declared entitlements of all slices have no common order, some slice has a key that is no
    text. -/
theorem exists_of_declaredKeys?_merge_eq_none {slices : List Entitlements}
    (h : Entitlement.declaredKeys? (Entitlements.merge slices).values = none) :
    ∃ slice ∈ slices, ¬(Value.dict slice.values).TextKeyed := by
  obtain ⟨key, hkey, htext⟩ := Plist.exists_of_sortKeys?_eq_none h
  obtain ⟨pair, hpair, rfl⟩ := List.mem_map.mp hkey
  obtain ⟨slice, hmem, hslice⟩ := exists_slice_of_mem_merge (List.mem_filter.mp hpair).1
  exact ⟨slice, hmem, Plist.Value.not_textKeyed_of_key hslice htext⟩

/-! ## Reports -/

/-- The general information of a file is listed under texts, and holds no other dictionary. -/
theorem textKeyed_info (f : MachO.File) : (Value.dict f.info).TextKeyed := by
  have hname : (((f.path.map Files.baseName).map Value.text).getD .null).TextKeyed := by
    cases f.path with
    | none => exact .null
    | some path => exact .text _
  have harches : (Value.array (f.image.architectures.map Value.text)).TextKeyed := by
    apply Value.TextKeyed.array
    intro item hitem
    obtain ⟨name, -, rfl⟩ := List.mem_map.mp hitem
    exact .text name
  constructor
  · simp [MachO.File.info]
  · simp only [MachO.File.info, List.forall_mem_cons, List.not_mem_nil, false_imp_iff, forall_const,
      and_true]
    exact ⟨hname, .int _, .text _, harches⟩

section Depth

variable {room : List ValueKind → ValueKind → Bool}
  (hroom : ∀ around kind, around.length ≤ 16 → room around kind = true)
include hroom

/-- There is room for the general information of a file. -/
theorem not_overflows_of_mem_info {f : MachO.File} {pair : Value × Value} (hpair : pair ∈ f.info)
    (around : List ValueKind) (haround : around.length ≤ 2) :
    ¬pair.1.Overflows room around ∧ ¬pair.2.Overflows room around := by
  have hinner (inner : List ValueKind) (kind : ValueKind) (hinner : inner.length ≤ 3) :
      room inner kind = true := hroom inner kind (by omega)
  have hname : ¬(((f.path.map Files.baseName).map Value.text).getD .null).Overflows room around := by
    cases f.path <;> simp [-Option.map_map, hinner _ _ (Nat.le_succ_of_le haround)]
  have harches : ¬(Value.array (f.image.architectures.map Value.text)).Overflows room around := by
    rw [Plist.Value.overflows_array, hinner _ _ (Nat.le_succ_of_le haround)]
    intro h
    obtain h | ⟨item, hitem, h⟩ := h
    · cases h
    · obtain ⟨name, -, rfl⟩ := List.mem_map.mp hitem
      have hname := hinner (.array :: around) .text (Nat.succ_le_succ haround)
      cases hname.symm.trans (Plist.Value.overflows_text.mp h)
  have hscalar (kind : ValueKind) : room around kind = true := hinner _ kind (Nat.le_succ_of_le haround)
  simp only [MachO.File.info, List.mem_cons, List.not_mem_nil, or_false] at hpair
  obtain rfl | rfl | rfl | rfl := hpair
  · exact ⟨by simp [hscalar], hname⟩
  · simp [hscalar]
  · simp [hscalar]
  · exact ⟨by simp [hscalar], harches⟩

/-- If there is no room for a report, there is none for the entitlements of some slice. -/
theorem exists_of_overflows_entitlementsValue {f : MachO.File} {slices : List Entitlements}
    (h : (entitlementsValue f slices).Overflows room []) :
    ∃ slice ∈ slices, (Value.dict slice.values).Overflows room [.dict, .array, .dict] := by
  have hshallow (around : List ValueKind) (kind : ValueKind) (h : around.length ≤ 4) :
      room around kind ≠ false := by
    rw [hroom around kind (by omega)]
    decide
  -- the way to what overflows leads through the list of the slices
  obtain h | ⟨pair, hpair, h⟩ := Plist.Value.overflows_dict.mp h
  · exact absurd h (hshallow _ _ (by decide))
  simp only [List.mem_cons, List.not_mem_nil, or_false] at hpair
  obtain rfl | rfl := hpair
  · simp only [Plist.Value.overflows_text, Plist.Value.overflows_dict] at h
    obtain h | h | ⟨pair, hpair, h⟩ := h
    · exact absurd h (hshallow _ _ (by decide))
    · exact absurd h (hshallow _ _ (by decide))
    · have hno := not_overflows_of_mem_info hroom hpair [.dict, .dict] (by decide)
      exact (h.elim hno.1 hno.2).elim
  simp only [Plist.Value.overflows_text, Plist.Value.overflows_array] at h
  obtain h | h | ⟨item, hitem, h⟩ := h
  · exact absurd h (hshallow _ _ (by decide))
  · exact absurd h (hshallow _ _ (by decide))
  obtain ⟨slice, hslice, rfl⟩ := List.mem_map.mp hitem
  obtain h | ⟨pair, hpair, h⟩ := Plist.Value.overflows_dict.mp h
  · exact absurd h (hshallow _ _ (by decide))
  simp only [List.mem_cons, List.not_mem_nil, or_false] at hpair
  obtain rfl | rfl := hpair
  · have harch : ¬((slice.arch.map Value.text).getD .null).Overflows room [.dict, .array, .dict] := by
      cases slice.arch <;> simp [hroom]
    simp only [Plist.Value.overflows_text] at h
    exact (h.elim (hshallow _ _ (by decide)) harch).elim
  · obtain h | h := h
    · exact absurd (Plist.Value.overflows_text.mp h) (hshallow _ _ (by decide))
    · exact ⟨slice, hslice, h⟩

end Depth

/-- If some key of a report is no text, one of the entitlements of some slice is none. -/
theorem exists_of_not_textKeyed {f : MachO.File} {slices : List Entitlements}
    (h : ¬(entitlementsValue f slices).TextKeyed) :
    ∃ slice ∈ slices, ¬(Value.dict slice.values).TextKeyed := by
  by_contra hall
  simp only [not_exists, not_and, not_not] at hall
  have hslice (slice : Entitlements) (hmem : slice ∈ slices) : (sliceValue slice).TextKeyed := by
    have harch : ((slice.arch.map Value.text).getD .null).TextKeyed := by
      cases slice.arch with
      | none => exact .null
      | some name => exact .text name
    exact .dict (by simp) (by simpa using ⟨harch, hall slice hmem⟩)
  have hslices : (Value.array (slices.map sliceValue)).TextKeyed := .array (by simpa using hslice)
  exact h (.dict (by simp) (by simpa using ⟨textKeyed_info f, hslices⟩))

/-- Drafts that are put together fail as one of them does. -/
theorem failure_or_exists_of_foldl_append {drafts : List Draft} {front : Draft} {e : Failure}
    (h : (drafts.foldl Draft.append front).failure = some e) :
    front.failure = some e ∨ ∃ draft ∈ drafts, draft.failure = some e := by
  induction drafts generalizing front with
  | nil => exact .inl h
  | cons draft drafts ih =>
    obtain hfront | ⟨later, hlater, hfailure⟩ := ih h
    · -- behind a failure nothing is added
      unfold Draft.append at hfront
      split at hfront
      · exact .inl hfront
      · exact .inr ⟨draft, List.mem_cons_self, hfront⟩
    · exact .inr ⟨later, List.mem_cons_of_mem _ hlater, hfailure⟩

/-- A report that consists of several fails as one of them does. -/
theorem exists_of_failure_join {drafts : List Draft} {e : Failure}
    (h : (Draft.join drafts).failure = some e) : ∃ draft ∈ drafts, draft.failure = some e := by
  obtain hno | hdraft := failure_or_exists_of_foldl_append h
  · cases hno
  · exact hdraft

section Report

variable [Host] {e : Failure}

/-- Why a dictionary is not listed in a report: a number is too long, its keys have no common order, or
    there is no room to show some pair. -/
inductive ListingFault (d : Dict) : Failure → Prop
  | numeral : ListingFault d .numeralTooLong
  | unordered (h : ¬(Value.dict d).TextKeyed) : ListingFault d .unorderedKeys
  | unshown {pair : Value × Value} (mem : pair ∈ d)
      (h : pair.1.Overflows Host.roomToShow [] ∨ pair.2.Overflows Host.roomToShow []) :
      ListingFault d .tooDeep

/-- Why the entitlements of some slices are not written: for one of the slices. -/
theorem entitlementsJson_eq_error {f : MachO.File} {slices : List Entitlements}
    (h : entitlementsJson f slices = .error e) :
    e = .numeralTooLong ∨ e = .selfContaining ∨
      ∃ slice ∈ slices, WritingFault [.dict, .array, .dict] (.dict slice.values) e := by
  obtain hvalue | ⟨json, -, hno⟩ := bind_eq_error.mp h
  · cases ofValue_eq_error _ hvalue with
    | numeral => exact .inl rfl
    | selfContaining => exact .inr (.inl rfl)
    | unordered hkeyed =>
      obtain ⟨slice, hmem, hslice⟩ := exists_of_not_textKeyed hkeyed
      exact .inr (.inr ⟨slice, hmem, .unordered hslice⟩)
    | unwritable hkeyed =>
      obtain ⟨slice, hmem, hslice⟩ := exists_of_not_textKeyed hkeyed
      exact .inr (.inr ⟨slice, hmem, .unwritable hslice⟩)
    | tooDeep hover =>
      obtain ⟨slice, hmem, hslice⟩ := exists_of_overflows_entitlementsValue
        (Host.roomToWrite_of_le false) hover
      exact .inr (.inr ⟨slice, hmem, .tooDeep hslice⟩)
  · cases hno

/-- Why a section with a dictionary is not finished. -/
theorem dictSection_eq_error {title : String} {d : Dict}
    (h : (dictSection title d).failure = some e) : ListingFault d e := by
  unfold dictSection at h
  split at h
  · rename_i hsort
    cases h
    obtain ⟨pair, hpair, htext⟩ := Plist.exists_of_sortByKey?_eq_none hsort
    exact .unordered (Plist.Value.not_textKeyed_of_key hpair htext)
  · rename_i pairs hsort
    obtain ⟨fault, hfault, rfl⟩ := Option.map_eq_some_iff.mp h
    obtain ⟨pair, hpair, hfault⟩ := List.exists_of_findSome?_eq_some hfault
    have hmem := (Plist.sortByKey?_eq_some hsort).mem_iff.mp hpair
    obtain hkey | hvalue := Value.pairFault?_eq_some hfault
    · obtain rfl | ⟨rfl, hover⟩ := Value.textFault?_eq_some _ hkey
      · exact .numeral
      · exact .unshown hmem (.inl hover)
    · obtain rfl | ⟨rfl, hover⟩ := Value.textFault?_eq_some _ hvalue
      · exact .numeral
      · exact .unshown hmem (.inr hover)

/-- The general information of a file is listed unless a number in it is too long. -/
theorem eq_numeralTooLong_of_listingFault_info {f : MachO.File} (h : ListingFault f.info e) :
    e = .numeralTooLong := by
  cases h with
  | numeral => rfl
  | unordered hkeyed => exact absurd (textKeyed_info f) hkeyed
  | unshown mem hover =>
    have hno := not_overflows_of_mem_info Host.roomToShow_of_le mem [] (by decide)
    exact (hover.elim hno.1 hno.2).elim

/-- Why the entitlements of some slices are not written as text: for one of the slices, or because the
    declared ones among all of them have no common order. -/
theorem entitlementsText_eq_error {f : MachO.File} {slices : List Entitlements}
    (h : (entitlementsText f slices).failure = some e) :
    e = .numeralTooLong ∨ ∃ slice ∈ slices, ListingFault slice.values e := by
  obtain ⟨draft, hdraft, hfailure⟩ := exists_of_failure_join h
  simp only [List.mem_cons, List.not_mem_nil, or_false] at hdraft
  obtain rfl | rfl | rfl := hdraft
  · exact .inl (eq_numeralTooLong_of_listingFault_info (dictSection_eq_error hfailure))
  · unfold sliceSections at hfailure
    split at hfailure
    · cases hfailure
    · obtain ⟨draft, hdraft, hslice⟩ := exists_of_failure_join hfailure
      obtain ⟨slice, hmem, rfl⟩ := List.mem_map.mp hdraft
      exact .inr ⟨slice, hmem, dictSection_eq_error hslice⟩
  · unfold categorySections at hfailure
    split at hfailure
    · rename_i hkeys
      cases hfailure
      obtain ⟨slice, hmem, hno⟩ := exists_of_declaredKeys?_merge_eq_none hkeys
      exact .inr ⟨slice, hmem, .unordered hno⟩
    · cases hfailure

end Report

end ReleaseSeal.Report
