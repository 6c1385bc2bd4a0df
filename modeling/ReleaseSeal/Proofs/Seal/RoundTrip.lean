import Mathlib.Algebra.Ring.Int.Defs
import Mathlib.Algebra.Ring.Nat
import ReleaseSeal.Proofs.Json.RoundTrip
import ReleaseSeal.Proofs.Json.Writing
import ReleaseSeal.Proofs.Outcome
import ReleaseSeal.Seal.Record

/-!
# Seal records survive their text

A record whose numbers are not too long is written, and read back as it was, in any layout, so records that
differ have different texts. And a record is read from a JSON object whatever the order of its fields: the
order makes no difference to the text in which the record is written again.

## Key results

- `Record.ofJson_toJson`: the object of a record is read as the record
- `Record.ofJson_sorted`: reading does not depend on the order of fields
- `Record.survives_rendering`: a record survives its text
-/

namespace ReleaseSeal.Seal

open Json (IsDistinct IsExact Same Style)

/-- A text or an integer. -/
def IsScalar (v : Json) : Prop :=
  (∃ s, v = .text s) ∨ ∃ n, v = .int n

/-- A value is no integer that is too long to be written. -/
def IsShort (v : Json) : Prop :=
  ∀ n, v = .int n → ¬Text.isLongNumeral n

/-- The values in a record are of some kind, its tint as well if there is one. -/
structure Record.Holds (S : Json → Prop) (r : Record) : Prop where
  assets : ∀ a ∈ r.assets, S a.url ∧ S a.size ∧ S a.digest
  permissions : ∀ p ∈ r.permissions, S p.key ∧ S p.justification
  coreSize : S r.coreSize
  generatorVersion : S r.generatorVersion
  tint : r.tint = .null ∨ S r.tint

instance : DecidablePred IsShort
  | .int n => decidable_of_iff (¬Text.isLongNumeral n) (by simp [IsShort])
  | .null | .bool _ | .real _ | .text _ | .array _ | .object _ => .isTrue (by simp [IsShort])

instance {S : Json → Prop} [DecidablePred S] (r : Record) : Decidable (r.Holds S) :=
  have : Decidable (r.tint = .null) :=
    match r.tint with
    | .null => .isTrue rfl
    | .bool _ | .int _ | .real _ | .text _ | .array _ | .object _ => .isFalse Json.noConfusion
  decidable_of_iff
    ((∀ a ∈ r.assets, S a.url ∧ S a.size ∧ S a.digest) ∧
      (∀ p ∈ r.permissions, S p.key ∧ S p.justification) ∧ S r.coreSize ∧ S r.generatorVersion ∧
      (r.tint = .null ∨ S r.tint))
    ⟨fun ⟨assets, permissions, coreSize, generatorVersion, tint⟩ =>
        { assets, permissions, coreSize, generatorVersion, tint },
      fun h => ⟨h.assets, h.permissions, h.coreSize, h.generatorVersion, h.tint⟩⟩

/-- An indentation by a number of spaces; without one, everything is on one line. -/
def indentation : (indent : Option Nat) → Json.Indent
  | none => .none
  | some count => .spaces count

/-- The spaces of an indentation fit in a text. -/
def IndentFits (indent : Option Nat) : Prop :=
  ∀ count, indent = some count → count < Json.textLimit

variable {d d' v : Json} {name : String} {r : Record} {α : Type}

/-- An indentation that fits in a text leads to a layout by white space. -/
theorem IndentFits.exists_style {indent : Option Nat} (h : IndentFits indent) :
    ∃ style, (indentation indent).style? = some style ∧ style.IsBlank := by
  cases indent with
  | none => exact ⟨.inline, rfl, trivial⟩
  | some count =>
    refine ⟨.indented (List.replicate count ' '), if_pos (h count rfl), ?_⟩
    intro c hc
    rw [List.eq_of_mem_replicate hc]
    rfl

/-! ## Reading what was written -/

/-- Reads the items of a list. -/
def readItems (read : Json → Except RecordError α) (list : Option Json) :
    Except RecordError (List α) :=
  Record.items list >>= List.mapM read

theorem Record.ofJson_object (fields : List (String × Json)) :
    Record.ofJson (.object fields) = (do
      let assets ← readItems AssetItem.ofJson (fields.lookup "assets")
      let permissions ← readItems PermissionItem.ofJson (fields.lookup "permissions")
      return {
        assets, permissions,
        coreSize := (fields.lookup "coreSize").getD (.int 0),
        tint := (fields.lookup "tint").getD .null,
        generatorVersion := (fields.lookup "generatorVersion").getD (.text Seal.generatorVersion) }) := by
  simp only [Record.ofJson, readItems, bind_assoc]

/-- Items that were written are read back. -/
theorem readItems_map {read : Json → Except RecordError α} {write : α → Json}
    (h : ∀ a, read (write a) = .ok a) (as : List α) :
    readItems read (some (.array (as.map write))) = .ok as := by
  apply mapM_eq_ok.mpr
  rw [List.forall₂_map_left_iff, List.forall₂_same]
  exact fun a _ => h a

theorem AssetItem.ofJson_toJson (a : AssetItem) : AssetItem.ofJson a.toJson = .ok a := rfl

theorem PermissionItem.ofJson_toJson (p : PermissionItem) :
    PermissionItem.ofJson p.toJson = .ok p := rfl

/-- The object of a record is read as the record. -/
theorem Record.ofJson_toJson (r : Record) : Record.ofJson r.toJson = .ok r := by
  obtain ⟨assets, permissions, coreSize, tint, generatorVersion⟩ := r
  have hassets := readItems_map AssetItem.ofJson_toJson assets
  have hpermissions := readItems_map PermissionItem.ofJson_toJson permissions
  -- a missing tint has no field, and is what is read in its place
  cases tint <;>
    simp [toJson, ofJson_object, List.lookup_cons, hassets, hpermissions] <;> rfl

/-! ## The order of fields -/

/-- An item whose values are sorted. -/
def AssetItem.sorted (a : AssetItem) : AssetItem :=
  { url := a.url.sorted, size := a.size.sorted, digest := a.digest.sorted }

/-- A permission whose values are sorted. -/
def PermissionItem.sorted (p : PermissionItem) : PermissionItem :=
  { key := p.key.sorted, justification := p.justification.sorted }

/-- A record whose values are sorted. -/
def Record.sorted (r : Record) : Record :=
  { assets := r.assets.map AssetItem.sorted,
    permissions := r.permissions.map PermissionItem.sorted,
    coreSize := r.coreSize.sorted,
    tint := r.tint.sorted,
    generatorVersion := r.generatorVersion.sorted }

theorem itemField_sorted (h : v.IsDistinct) (name : String) :
    itemField name v.sorted = (itemField name v).map Json.sorted := by
  cases h with
  | null | bool _ | int _ | real _ | text _ => rfl
  | array _ =>
    rw [Json.sorted_array]
    rfl
  | @object fields hnames _ =>
    rw [Json.sorted_object, itemField, Json.lookup_sorted hnames, itemField]
    cases fields.lookup name <;> rfl

theorem AssetItem.ofJson_sorted (h : v.IsDistinct) :
    AssetItem.ofJson v.sorted = (AssetItem.ofJson v).map AssetItem.sorted := by
  simp only [ofJson, itemField_sorted h]
  cases itemField "url" v with
  | error e => rfl
  | ok url =>
    cases itemField "size" v with
    | error e => rfl
    | ok size => cases itemField "sha256" v <;> rfl

theorem PermissionItem.ofJson_sorted (h : v.IsDistinct) :
    PermissionItem.ofJson v.sorted = (PermissionItem.ofJson v).map PermissionItem.sorted := by
  simp only [ofJson, itemField_sorted h]
  cases itemField "key" v with
  | error e => rfl
  | ok key => cases itemField "justification" v <;> rfl

theorem items_object (fields : List (String × Json)) :
    Record.items (some (.object fields)) =
      if fields.isEmpty then .ok [] else .error .wrongType := by
  cases fields <;> rfl

/-- A list has the items of an array, or none. -/
theorem items_eq_ok {list : Option Json} {items : List Json} (h : Record.items list = .ok items) :
    items = [] ∨ list = some (.array items) := by
  unfold Record.items at h
  split at h
  · exact .inl (Except.ok.inj h).symm
  · exact .inr (by rw [Except.ok.inj h])
  · exact .inl (Except.ok.inj h).symm
  · split at h
    · exact .inl (Except.ok.inj h).symm
    · cases h
  · cases h

theorem items_sorted (list : Option Json) :
    Record.items (list.map Json.sorted) = (Record.items list).map (List.map Json.sorted) := by
  cases list with
  | none => rfl
  | some v =>
    cases v with
    | null | bool _ | int _ | real _ => rfl
    | text s =>
      show Record.items (some (.text s)) = _
      simp only [Record.items]
      split <;> rfl
    | array items =>
      rw [Option.map_some, Json.sorted_array]
      rfl
    | object fields =>
      rw [Option.map_some, Json.sorted_object, items_object, items_object, Json.isEmpty_sortFields]
      split <;> rfl

/-- Items are read from a sorted list as from the list, if each of them is. -/
theorem readItems_sorted {read : Json → Except RecordError α} {sorted : α → α}
    (h : ∀ v : Json, v.IsDistinct → read v.sorted = (read v).map sorted) {list : Option Json}
    (hlist : ∀ v, list = some v → v.IsDistinct) :
    readItems read (list.map Json.sorted) = (readItems read list).map (List.map sorted) := by
  rw [readItems, readItems, items_sorted]
  cases hitems : Record.items list with
  | error e => rfl
  | ok items =>
    apply mapM_map_eq_map
    intro item hitem
    obtain rfl | harray := items_eq_ok hitems
    · cases hitem
    · exact h item ((hlist _ harray).of_mem_array item hitem)

theorem getD_map_sorted (value : Option Json) {default : Json} (h : default.sorted = default) :
    (value.map Json.sorted).getD default = (value.getD default).sorted := by
  cases value with
  | none => exact h.symm
  | some value => rfl

/-- Reading does not depend on the order of fields. -/
theorem Record.ofJson_sorted (h : d.IsDistinct) :
    Record.ofJson d.sorted = (Record.ofJson d).map Record.sorted := by
  cases h with
  | null | bool _ | int _ | real _ | text _ => rfl
  | array _ =>
    rw [Json.sorted_array]
    rfl
  | @object fields hnames hfields =>
    have hdistinct := IsDistinct.object hnames hfields
    have hassets : readItems AssetItem.ofJson ((fields.lookup "assets").map Json.sorted) = _ :=
      readItems_sorted (fun v => AssetItem.ofJson_sorted) fun v => hdistinct.of_lookup
    have hpermissions :
        readItems PermissionItem.ofJson ((fields.lookup "permissions").map Json.sorted) = _ :=
      readItems_sorted (fun v => PermissionItem.ofJson_sorted) fun v => hdistinct.of_lookup
    rw [Json.sorted_object, ofJson_object, ofJson_object]
    simp only [Json.lookup_sorted hnames, hassets, hpermissions]
    cases readItems AssetItem.ofJson (fields.lookup "assets") with
    | error e => rfl
    | ok assets =>
      cases readItems PermissionItem.ofJson (fields.lookup "permissions") with
      | error e => rfl
      | ok permissions =>
        rw [getD_map_sorted _ rfl, getD_map_sorted _ rfl, getD_map_sorted _ rfl]
        rfl

theorem AssetItem.sorted_toJson_sorted (a : AssetItem) : a.sorted.toJson.sorted = a.toJson.sorted := by
  simp [toJson, AssetItem.sorted, Json.sortedField_eq, Json.sorted_sorted]

theorem PermissionItem.sorted_toJson_sorted (p : PermissionItem) :
    p.sorted.toJson.sorted = p.toJson.sorted := by
  simp [toJson, PermissionItem.sorted, Json.sortedField_eq, Json.sorted_sorted]

/-- The field of a tint, if there is one. -/
def tintField (tint : Json) : List (String × Json) :=
  match tint with
  | .null => []
  | tint => [("tint", tint)]

theorem Record.toJson_eq (r : Record) :
    r.toJson = .object
      ([("assets", .array (r.assets.map AssetItem.toJson)),
        ("permissions", .array (r.permissions.map PermissionItem.toJson)),
        ("coreSize", r.coreSize), ("generatorVersion", r.generatorVersion)] ++ tintField r.tint) := rfl

theorem tintField_of_ne_null {tint : Json} (h : tint ≠ .null) : tintField tint = [("tint", tint)] := by
  cases tint with
  | null => exact absurd rfl h
  | bool _ | int _ | real _ | text _ | array _ | object _ => rfl

theorem sorted_ne_null {tint : Json} (h : tint ≠ .null) : tint.sorted ≠ .null := by
  cases tint with
  | null => exact absurd rfl h
  | bool _ | int _ | real _ | text _ => exact h
  | array items => simp
  | object fields => simp

theorem map_sortedField_tintField (tint : Json) :
    (tintField tint.sorted).map Json.sortedField = (tintField tint).map Json.sortedField := by
  by_cases h : tint = .null
  · subst h
    rfl
  · simp [tintField_of_ne_null h, tintField_of_ne_null (sorted_ne_null h), Json.sortedField_eq,
      Json.sorted_sorted]

/-- The order of fields in a record's values makes no difference to its text. -/
theorem Record.render_sorted [Host] (r : Record) (indent : Json.Indent) :
    r.sorted.render indent = r.render indent := by
  have hjson : r.sorted.toJson.sorted = r.toJson.sorted := by
    simp [toJson_eq, Record.sorted, Json.sortedField_eq, Json.sorted_sorted, Function.comp_def,
      AssetItem.sorted_toJson_sorted, PermissionItem.sorted_toJson_sorted, map_sortedField_tintField]
  simp only [render, Json.dump, Json.render, hjson]

/-! ## Plain records -/

theorem IsScalar.isDistinct (h : IsScalar v) : v.IsDistinct := by
  obtain ⟨s, rfl⟩ | ⟨n, rfl⟩ := h
  · exact .text s
  · exact .int n

theorem IsScalar.isExact (h : IsScalar v) : v.IsExact := by
  obtain ⟨s, rfl⟩ | ⟨n, rfl⟩ := h
  · exact .text s
  · exact .int n

theorem IsScalar.sorted_eq (h : IsScalar v) : v.sorted = v := by
  obtain ⟨s, rfl⟩ | ⟨n, rfl⟩ := h <;> rfl

theorem Record.Holds.sorted_eq (h : r.Holds IsScalar) : r.sorted = r := by
  obtain ⟨assets, permissions, coreSize, tint, generatorVersion⟩ := r
  have hassets : assets.map AssetItem.sorted = assets := by
    rw [List.map_congr_left (g := id), List.map_id]
    intro a ha
    obtain ⟨hurl, hsize, hdigest⟩ := h.assets a ha
    simp only [AssetItem.sorted, hurl.sorted_eq, hsize.sorted_eq, hdigest.sorted_eq, id]
  have hpermissions : permissions.map PermissionItem.sorted = permissions := by
    rw [List.map_congr_left (g := id), List.map_id]
    intro p hp
    obtain ⟨hkey, hjustification⟩ := h.permissions p hp
    simp only [PermissionItem.sorted, hkey.sorted_eq, hjustification.sorted_eq, id]
  have htint : tint.sorted = tint := by
    obtain rfl | htint := h.tint
    · rfl
    · exact htint.sorted_eq
  simp only [Record.sorted, hassets, hpermissions, htint, h.coreSize.sorted_eq,
    h.generatorVersion.sorted_eq]

theorem Record.Holds.and {S T : Json → Prop} (hS : r.Holds S) (hT : r.Holds T) :
    r.Holds fun v => S v ∧ T v where
  assets a ha := by
    obtain ⟨hurl, hsize, hdigest⟩ := hS.assets a ha
    obtain ⟨hurl', hsize', hdigest'⟩ := hT.assets a ha
    exact ⟨⟨hurl, hurl'⟩, ⟨hsize, hsize'⟩, hdigest, hdigest'⟩
  permissions p hp := by
    obtain ⟨hkey, hjustification⟩ := hS.permissions p hp
    obtain ⟨hkey', hjustification'⟩ := hT.permissions p hp
    exact ⟨⟨hkey, hkey'⟩, hjustification, hjustification'⟩
  coreSize := ⟨hS.coreSize, hT.coreSize⟩
  generatorVersion := ⟨hS.generatorVersion, hT.generatorVersion⟩
  tint := by
    by_cases hnull : r.tint = .null
    · exact .inl hnull
    · exact .inr ⟨hS.tint.resolve_left hnull, hT.tint.resolve_left hnull⟩

theorem AssetItem.isScalar_ofAsset (a : Asset) :
    IsScalar (ofAsset a).url ∧ IsScalar (ofAsset a).size ∧ IsScalar (ofAsset a).digest :=
  ⟨.inl ⟨_, rfl⟩, .inr ⟨_, rfl⟩, .inl ⟨_, rfl⟩⟩

theorem PermissionItem.isScalar_ofPermission (p : Entitlement.Permission) :
    IsScalar (ofPermission p).key ∧ IsScalar (ofPermission p).justification :=
  ⟨.inl ⟨_, rfl⟩, .inl ⟨_, rfl⟩⟩

/-- A record that is made holds texts and integers. -/
theorem Record.holds_make (coreSize : Int) (permissions : List Entitlement.Permission)
    (assets : List Asset) (tint : Option String) :
    (make coreSize permissions assets tint).Holds IsScalar where
  assets := List.forall_mem_map.mpr fun a _ => AssetItem.isScalar_ofAsset a
  permissions := List.forall_mem_map.mpr fun p _ => PermissionItem.isScalar_ofPermission p
  coreSize := .inr ⟨_, rfl⟩
  generatorVersion := .inl ⟨_, rfl⟩
  tint := by
    cases tint with
    | none => exact .inl rfl
    | some tint => exact .inr (.inl ⟨tint, rfl⟩)

/-- What holds of the values in a record, and of containers one level up if it holds of what is in them,
    holds of the object of the record, which has three levels. -/
theorem Record.Holds.toJson_of_parts {S : Json → Prop} {P : Nat → Json → Prop} (h : r.Holds S)
    (hvalue : ∀ level v, S v → P level v)
    (harray : ∀ level items, (∀ item ∈ items, P level item) → P (level + 1) (.array items))
    (hobject : ∀ (level : Nat) (fields : List (String × Json)), (fields.map (·.1)).Nodup →
      (∀ field ∈ fields, P level field.2) → P (level + 1) (.object fields)) : P 3 r.toJson := by
  -- the levels are those of the values, of the assets and permissions, and of their arrays
  have hassets : ∀ a ∈ r.assets, P 1 a.toJson := by
    intro a ha
    obtain ⟨hurl, hsize, hdigest⟩ := h.assets a ha
    exact hobject 0 _ (by simp) (by simp [hvalue 0 _ hurl, hvalue 0 _ hsize, hvalue 0 _ hdigest])
  have hpermissions : ∀ p ∈ r.permissions, P 1 p.toJson := by
    intro p hp
    obtain ⟨hkey, hjustification⟩ := h.permissions p hp
    exact hobject 0 _ (by simp) (by simp [hvalue 0 _ hkey, hvalue 0 _ hjustification])
  have htint : ((tintField r.tint).map (·.1)).Sublist ["tint"] ∧
      ∀ field ∈ tintField r.tint, P 2 field.2 := by
    by_cases hnull : r.tint = .null
    · simp [hnull, tintField]
    · simpa [tintField_of_ne_null hnull] using hvalue 2 _ (h.tint.resolve_left hnull)
  rw [toJson_eq]
  apply hobject 2
  · have hnames : ["assets", "permissions", "coreSize", "generatorVersion", "tint"].Nodup := by decide
    refine hnames.sublist ?_
    rw [List.map_append]
    exact (List.Sublist.refl _).append htint.1
  · rw [List.forall_mem_append]
    simp only [List.forall_mem_cons]
    exact ⟨⟨harray 1 _ (List.forall_mem_map.mpr hassets),
      harray 1 _ (List.forall_mem_map.mpr hpermissions), hvalue 2 _ h.coreSize,
      hvalue 2 _ h.generatorVersion, by simp⟩, htint.2⟩

theorem Record.Holds.isDistinct (h : r.Holds IsScalar) : r.toJson.IsDistinct :=
  h.toJson_of_parts (P := fun _ => IsDistinct) (fun _ _ => IsScalar.isDistinct)
    (fun _ _ => .array) fun _ _ => .object

theorem Record.Holds.isExact (h : r.Holds IsScalar) : r.toJson.IsExact :=
  h.toJson_of_parts (P := fun _ => IsExact) (fun _ _ => IsScalar.isExact)
    (fun _ _ => .array) fun _ _ _ => .object

/-! ## Writing -/

section Writing

variable [Host]

/-- The text of a record, by the fault in its object and its layout. -/
theorem Record.render_eq {indent : Json.Indent} {style : Style} (h : indent.style? = some style) :
    r.render indent = (r.toJson.dump style).mapError .ofText := by
  rw [render, h]

/-- No record nests too deep: what is at fault is one of its values. -/
theorem Record.Holds.of_fault {S : Json → Prop} {Q : TextFault → Prop} {isInline : Bool}
    {fault : TextFault} (h : r.Holds S)
    (hvalue : ∀ (v : Json) (around : List ValueKind) (fault : TextFault), S v → around.length ≤ 16 →
      v.sorted.fault? isInline around = some fault → Q fault)
    (hfault : r.toJson.sorted.fault? isInline [] = some fault) : Q fault := by
  -- the levels that a part has below it are those that it may still have around it
  let P (level : Nat) (v : Json) : Prop := ∀ (around : List ValueKind) (fault : TextFault),
    around.length + level ≤ 16 → v.sorted.fault? isInline around = some fault → Q fault
  have hrecord : P 3 r.toJson := by
    apply h.toJson_of_parts
    · exact fun level v hv around fault haround => hvalue v around fault hv (by omega)
    · intro level items hitems around fault haround hfault
      obtain ⟨item, hitem, hfault⟩ := Json.fault?_sorted_array_eq_some (by omega) hfault
      exact hitems item hitem _ _ (by simp only [List.length_cons]; omega) hfault
    · intro level fields _ hfields around fault haround hfault
      obtain ⟨field, hfield, hfault⟩ := Json.fault?_sorted_object_eq_some (by omega) hfault
      exact hfields field hfield _ _ (by simp only [List.length_cons]; omega) hfault
  exact hrecord [] fault (by simp) hfault

/-- A record of texts and integers has no text only for a number in it that is too long, or for its
    indentation. -/
theorem Record.Holds.render_eq_error {indent : Json.Indent} {e : Failure}
    (h : r.Holds IsScalar) (he : r.render indent = .error e) :
    e = .numeralTooLong ∨ (e = .indentTooWide ∧ indent.style? = none) := by
  cases hstyle : indent.style? with
  | none =>
    rw [render, hstyle] at he
    exact .inr ⟨(Except.error.inj he).symm, rfl⟩
  | some style =>
    rw [render_eq hstyle] at he
    cases hdump : r.toJson.dump style with
    | ok s =>
      rw [hdump] at he
      cases he
    | error fault =>
      have hfault : fault = .longNumeral := by
        refine h.of_fault (Q := (· = .longNumeral)) ?_ (Json.dump_eq_error.mp hdump)
        intro v around fault hv haround hfault
        obtain ⟨s, rfl⟩ | ⟨n, rfl⟩ := hv
        · rw [Json.sorted, Json.fault?_text haround] at hfault
          cases hfault
        · rw [Json.sorted, Json.fault?_int haround] at hfault
          split at hfault
          · exact (Option.some.inj hfault).symm
          · cases hfault
      rw [hdump, hfault] at he
      exact .inl (Except.error.inj he).symm

/-- A record of texts and integers is written in any layout if no integer in it is too long. -/
theorem Record.Holds.exists_render {indent : Json.Indent} {style : Style} (h : r.Holds IsScalar)
    (hshort : r.Holds IsShort) (hstyle : indent.style? = some style) :
    ∃ text, r.render indent = .ok text := by
  cases hrender : r.render indent with
  | ok text => exact ⟨text, rfl⟩
  | error e =>
    rw [render_eq hstyle] at hrender
    cases hdump : r.toJson.dump style with
    | ok s =>
      rw [hdump] at hrender
      cases hrender
    | error fault =>
      refine ((h.and hshort).of_fault (Q := fun _ => False) ?_ (Json.dump_eq_error.mp hdump)).elim
      intro v around fault hv haround hfault
      obtain ⟨⟨s, rfl⟩ | ⟨n, rfl⟩, hn⟩ := hv
      · rw [Json.sorted, Json.fault?_text haround] at hfault
        cases hfault
      · rw [Json.sorted, Json.fault?_int haround, if_neg (hn n rfl)] at hfault
        cases hfault

/-- A record of texts and integers is read back from its text, if it has one. -/
theorem Record.Holds.parse_of_render {indent : Json.Indent} {style : Style} {text : String}
    (h : r.Holds IsScalar) (hstyle : indent.style? = some style) (hblank : style.IsBlank)
    (hrender : r.render indent = .ok text) :
    ∃ w, Json.parse? text = some w ∧ w.Same r.toJson ∧ Record.ofJson w = .ok r := by
  rw [render_eq hstyle, mapError_eq_ok] at hrender
  obtain ⟨-, rfl⟩ := Json.dump_eq_ok.mp hrender
  refine ⟨r.toJson.sorted, Json.parse?_render hblank h.isExact h.isDistinct, h.isDistinct.sorted_same, ?_⟩
  rw [ofJson_sorted h.isDistinct, ofJson_toJson, Except.map, h.sorted_eq]

/-- A record of texts and short integers is read back from its text, in any layout. -/
theorem Record.Holds.exists_parse {indent : Option Nat} (h : r.Holds IsScalar)
    (hshort : r.Holds IsShort) (hindent : IndentFits indent) :
    ∃ text w, r.render (indentation indent) = .ok text ∧ Json.parse? text = some w ∧
      w.Same r.toJson ∧ Record.ofJson w = .ok r := by
  obtain ⟨style, hstyle, hblank⟩ := hindent.exists_style
  obtain ⟨text, htext⟩ := h.exists_render hshort hstyle
  obtain ⟨w, hw, hsame, hr⟩ := h.parse_of_render hstyle hblank htext
  exact ⟨text, w, htext, hw, hsame, hr⟩

/-- What comes of writing a record that was read does not depend on the order of fields in what it was read
    from. -/
theorem Record.map_render_eq_of_same (hd : d.IsDistinct) (h : d.Same d') (indent : Json.Indent) :
    (Record.ofJson d).map (render indent) = (Record.ofJson d').map (render indent) := by
  have hsorted : ∀ e : Json, e.IsDistinct →
      (Record.ofJson e.sorted).map (render indent) = (Record.ofJson e).map (render indent) := by
    intro e he
    rw [ofJson_sorted he]
    cases Record.ofJson e with
    | error _ => rfl
    | ok r => exact congrArg Except.ok (render_sorted r indent)
  rw [← hsorted d hd, h.sorted_eq hd, hsorted d' (h.isDistinct hd)]

end Writing

/-- Records survive their text. In any layout a record of texts and of integers that are short enough has a
    text, which is read as a JSON value that is the same as the record's object and from which the record
    is read as it was; so two such records that differ have different texts, whatever their layouts. A
    record that was read from any JSON value is read from its own object as it is, and what comes of
    writing it does not depend on the order of fields in what it was read from. -/
theorem Record.survives_rendering [Host] :
    (∀ (r : Record) (indent : Option Nat), r.Holds IsScalar → r.Holds IsShort → IndentFits indent →
      ∃ text w, r.render (indentation indent) = .ok text ∧ Json.parse? text = some w ∧
        w.Same r.toJson ∧ Record.ofJson w = .ok r) ∧
      (∀ (r r' : Record) (indent indent' : Option Nat), r.Holds IsScalar → r.Holds IsShort →
        r'.Holds IsScalar → r'.Holds IsShort → IndentFits indent → IndentFits indent' → r ≠ r' →
        r.render (indentation indent) ≠ r'.render (indentation indent')) ∧
      (∀ (d : Json) (r : Record), Record.ofJson d = .ok r →
        Record.ofJson r.toJson = .ok r) ∧
      ∀ (d d' : Json) (indent : Option Nat), d.IsDistinct → d.Same d' →
        (Record.ofJson d).map (render (indentation indent)) =
          (Record.ofJson d').map (render (indentation indent)) := by
  refine ⟨fun r indent h hshort hindent => h.exists_parse hshort hindent, ?_, ?_, ?_⟩
  · intro r r' indent indent' h hshort h' hshort' hindent hindent' hne hrender
    obtain ⟨text, w, htext, hw, -, hr⟩ := h.exists_parse hshort hindent
    obtain ⟨text', w', htext', hw', -, hr'⟩ := h'.exists_parse hshort' hindent'
    -- one text is read back as one record
    rw [htext, htext'] at hrender
    obtain rfl := Except.ok.inj hrender
    obtain rfl := Option.some.inj (hw.symm.trans hw')
    exact hne (Except.ok.inj (hr.symm.trans hr'))
  · exact fun _ r _ => ofJson_toJson r
  · intro d d' indent hd h
    exact map_render_eq_of_same hd h _

/-- A record with quotes, control characters and characters beyond the basic plane in its texts. -/
def glyphs (tint : Json) : Record :=
  { assets := [{ url := .text "a/\"\\\u2028.zip", size := .int 12, digest := .text "😀" }],
    permissions := [{ key := .text "\x00\t\x7f", justification := .text "" }],
    coreSize := .int (-40), tint, generatorVersion := .text "é" }

/-- The record is read back, its text tells its tint, and it makes no difference whether a size or a tint
    comes first in what a record is read from. -/
theorem Record.survives_rendering_glyphs :
    (∃ text w, (glyphs (.text "00FF7F")).render (indentation (some 2)) = .ok text ∧
        Json.parse? text = some w ∧ w.Same (glyphs (.text "00FF7F")).toJson ∧
        Record.ofJson w = .ok (glyphs (.text "00FF7F"))) ∧
      (glyphs (.text "00FF7F")).render (indentation none) ≠
        (glyphs .null).render (indentation (some 0)) ∧
      Record.ofJson (glyphs .null).toJson = .ok (glyphs .null) ∧
      (Record.ofJson (.object [("coreSize", .int 1), ("tint", .text "00FF7F")])).map
          (render (indentation none)) =
        (Record.ofJson (.object [("tint", .text "00FF7F"), ("coreSize", .int 1)])).map
          (render (indentation none)) := by
  have hnumerals : ¬Text.isLongNumeral 12 ∧ ¬Text.isLongNumeral (-40) := by decide +kernel
  -- whatever the tint is, the other parts are texts and short numbers
  have hscalar : ∀ tint, tint = .null ∨ IsScalar tint → (glyphs tint).Holds IsScalar := by
    intro tint htint
    exact {
      assets := by simp [glyphs, IsScalar]
      permissions := by simp [glyphs, IsScalar]
      coreSize := .inr ⟨_, rfl⟩
      generatorVersion := .inl ⟨_, rfl⟩
      tint := htint }
  have hshort : ∀ tint, tint = .null ∨ IsShort tint → (glyphs tint).Holds IsShort := by
    intro tint htint
    exact {
      assets := by simp [glyphs, IsShort, hnumerals]
      permissions := by simp [glyphs, IsShort]
      coreSize := by simp [glyphs, IsShort, hnumerals]
      generatorVersion := by simp [glyphs, IsShort]
      tint := htint }
  have hgreen := hscalar (.text "00FF7F") (.inr (.inl ⟨_, rfl⟩))
  have hgreen' := hshort (.text "00FF7F") (.inr (by simp [IsShort]))
  have hnone := hscalar .null (.inl rfl)
  have hnone' := hshort .null (.inl rfl)
  have hne : glyphs (.text "00FF7F") ≠ glyphs .null := by simp [glyphs]
  have htwo : IndentFits (some 2) := by simp [IndentFits, Json.textLimit]
  have hzero : IndentFits (some 0) := by simp [IndentFits, Json.textLimit]
  have hinline : IndentFits none := by simp [IndentFits]
  have hdistinct : (Json.object [("coreSize", .int 1), ("tint", .text "00FF7F")]).IsDistinct :=
    .object (by simp) (by simp [Json.IsDistinct.int, Json.IsDistinct.text])
  -- the two fields in either order
  have hsame : (Json.object [("coreSize", .int 1), ("tint", .text "00FF7F")]).Same
      (.object [("tint", .text "00FF7F"), ("coreSize", .int 1)]) :=
    .object (.swap _ _ _) (by simp [Json.Same.refl])
  obtain ⟨hread, hdiffer, hfixed, horder⟩ := Record.survives_rendering
  exact ⟨hread _ (some 2) hgreen hgreen' htwo,
    hdiffer _ _ none (some 0) hgreen hgreen' hnone hnone' hinline hzero hne,
    hfixed (glyphs .null).toJson _ (ofJson_toJson _), horder _ _ none hdistinct hsame⟩

/-- The record of a core size alone. -/
def bare (coreSize : Int) : Record := Record.make coreSize [] [] none

theorem Record.render_bare_of_long [Host] {n : Int} {indent : Json.Indent} {style : Style}
    (hn : Text.isLongNumeral n) (hstyle : indent.style? = some style) :
    (bare n).render indent = .error .numeralTooLong := by
  cases hrender : (bare n).render indent with
  | error e =>
    obtain rfl | ⟨-, hnone⟩ := (holds_make n [] [] none).render_eq_error hrender
    · rfl
    · cases hstyle.symm.trans hnone
  | ok text =>
    -- the core size is one of the values that would have been written
    rw [render_eq hstyle, mapError_eq_ok] at hrender
    have hfields := Json.fault?_of_sorted_object_eq_none (by simp) (Json.dump_eq_ok.mp hrender).1
    have hcore := hfields ("coreSize", .int n) (by simp [bare, make])
    rw [Json.sorted, Json.fault?_int (by simp), if_pos hn] at hcore
    cases hcore

/-- A record has no text if a number in it has more digits than one may have, or if its indentation is
    wider than any text. -/
theorem Record.render_bare_eq_error :
    (bare (10 ^ Text.maxDecimalDigits)).render (indentation none) = .error .numeralTooLong ∧
      (bare 0).render (indentation (some (2 ^ 63))) = .error .indentTooWide := by
  constructor
  · apply render_bare_of_long ?_ rfl
    simp [Text.isLongNumeral, Int.natAbs_pow]
  · rfl

end ReleaseSeal.Seal
