import ReleaseSeal.Json.Printer
import ReleaseSeal.Proofs.Text.Listing

/-!
# Values up to the order of their fields

The order in which an object lists its fields is no part of what it holds. Sorting the fields of all the
objects in a value takes the order away: values that differ in nothing else become equal.

## Key results

- `sorted_sorted`: sorting once is enough
- `IsDistinct.sorted_same`: a value remains the same when it is sorted
- `Same.sorted_eq`: values that are the same are equal when they are sorted
- `lookup_sorted`: the fields of a sorted object
-/

namespace ReleaseSeal.Json

/-- The fields of each object in a value have distinct names. -/
inductive IsDistinct : Json → Prop where
  | null : IsDistinct null
  | bool (b : Bool) : IsDistinct (bool b)
  | int (n : Int) : IsDistinct (int n)
  | real (x : Binary64) : IsDistinct (real x)
  | text (s : String) : IsDistinct (text s)
  | array {items : List Json} (hitems : ∀ item ∈ items, IsDistinct item) : IsDistinct (array items)
  | object {fields : List (String × Json)} (hnames : (fields.map (·.1)).Nodup)
      (hfields : ∀ field ∈ fields, IsDistinct field.2) : IsDistinct (object fields)

/-- Two values are the same: they differ at most in the order of the fields of objects. -/
inductive Same : Json → Json → Prop where
  | refl (v : Json) : Same v v
  | array {items items' : List Json} (hlength : items.length = items'.length)
      (hitems : ∀ (i : Nat) item item', items[i]? = some item → items'[i]? = some item' →
        Same item item') : Same (array items) (array items')
  | object {fields fields' : List (String × Json)}
      (hnames : (fields.map (·.1)).Perm (fields'.map (·.1)))
      (hfields : ∀ field ∈ fields, ∀ field' ∈ fields', field.1 = field'.1 → Same field.2 field'.2) :
      Same (object fields) (object fields')

variable {v w : Json} {items : List Json} {fields fields' : List (String × Json)} {name : String}

/-! ## Sorting -/

theorem sortedItems_eq_map (items : List Json) : sortedItems items = items.map sorted := by
  induction items with
  | nil => rfl
  | cons item items ih => rw [sortedItems, ih, List.map_cons]

theorem sortedFields_eq_map (fields : List (String × Json)) :
    sortedFields fields = fields.map sortedField := by
  induction fields with
  | nil => rfl
  | cons field fields ih => rw [sortedFields, ih, List.map_cons]

theorem sortedField_eq (field : String × Json) : sortedField field = (field.1, field.2.sorted) := by
  obtain ⟨name, value⟩ := field
  rw [sortedField]

@[simp] theorem sorted_array (items : List Json) :
    (array items).sorted = array (items.map sorted) := by
  rw [sorted, sortedItems_eq_map]

@[simp] theorem sorted_object (fields : List (String × Json)) :
    (object fields).sorted = object (sortFields (fields.map sortedField)) := by
  rw [sorted, sortedFields_eq_map]

theorem sortFields_perm (fields : List (String × Json)) : (sortFields fields).Perm fields :=
  List.mergeSort_perm _ _

/-- Fields with distinct names have one order. -/
theorem sortFields_eq_of_perm (h : (fields.map (·.1)).Nodup) (hperm : fields.Perm fields') :
    sortFields fields = sortFields fields' := by
  have hascending := Text.pairwise_name_lt_mergeSort h
  have hascending' := Text.pairwise_name_lt_mergeSort ((hperm.map (·.1)).nodup_iff.mp h)
  apply List.Perm.eq_of_pairwise _ hascending hascending'
  · exact (sortFields_perm fields).trans (hperm.trans (sortFields_perm fields').symm)
  · intro a b _ _ hab hba
    exact absurd hab hba.asymm

theorem sortFields_sortFields (fields : List (String × Json)) :
    sortFields (sortFields fields) = sortFields fields :=
  Text.mergeSort_name_eq_self (Text.pairwise_name_le_mergeSort fields)

/-- Fields are in their places whatever becomes of their values. -/
theorem map_sortFields (fields : List (String × Json)) :
    (sortFields fields).map sortedField = sortFields (fields.map sortedField) := by
  apply List.map_mergeSort
  intro a _ b _
  rw [sortedField_eq, sortedField_eq]

/-- Sorting once is enough. -/
theorem sorted_sorted (v : Json) : v.sorted.sorted = v.sorted := by
  -- the parts of a value stand in lists, so the induction is on the size
  match v with
  | null | bool _ | int _ | real _ | text _ => rfl
  | array items =>
    have hitems : ∀ item ∈ items, item.sorted.sorted = item.sorted := fun item _ => sorted_sorted item
    simpa using hitems
  | object fields =>
    have hfields : ∀ field ∈ fields, (sortedField ∘ sortedField) field = sortedField field := by
      intro field hfield
      rw [Function.comp_apply, sortedField_eq field, sortedField_eq, sorted_sorted field.2]
    rw [sorted_object, sorted_object, map_sortFields, sortFields_sortFields, List.map_map,
      List.map_congr_left hfields]
termination_by sizeOf v
decreasing_by
  · have := List.sizeOf_lt_of_mem ‹item ∈ items›
    rw [array.sizeOf_spec]
    omega
  · have := List.sizeOf_lt_of_mem ‹field ∈ fields›
    have : sizeOf field.2 < sizeOf field := by cases field; simp
    rw [object.sizeOf_spec]
    omega

/-! ## Distinct names -/

theorem IsDistinct.of_mem_array (h : (Json.array items).IsDistinct) : ∀ item ∈ items, item.IsDistinct := by
  cases h with
  | array hitems => exact hitems

theorem IsDistinct.names (h : (Json.object fields).IsDistinct) : (fields.map (·.1)).Nodup := by
  cases h with
  | object hnames _ => exact hnames

theorem IsDistinct.of_mem_object (h : (Json.object fields).IsDistinct) :
    ∀ field ∈ fields, field.2.IsDistinct := by
  cases h with
  | object _ hfields => exact hfields

theorem map_name_sortedField (fields : List (String × Json)) :
    (fields.map sortedField).map (·.1) = fields.map (·.1) := by
  rw [List.map_map]
  apply List.map_congr_left
  intro field _
  rw [Function.comp_apply, sortedField_eq]

theorem nodup_map_sortedField (h : (fields.map (·.1)).Nodup) : (fields.map sortedField).Nodup := by
  apply List.Nodup.of_map (·.1)
  rwa [map_name_sortedField]

theorem nodup_names_sortFields (h : (fields.map (·.1)).Nodup) :
    ((sortFields (fields.map sortedField)).map (·.1)).Nodup := by
  rw [((sortFields_perm _).map _).nodup_iff, map_name_sortedField]
  exact h

theorem mem_sortFields_map : ∀ {field}, field ∈ sortFields (fields.map sortedField) ↔
    ∃ field' ∈ fields, sortedField field' = field := by
  intro field
  rw [(sortFields_perm _).mem_iff, List.mem_map]

theorem isEmpty_sortFields (fields : List (String × Json)) :
    (sortFields (fields.map sortedField)).isEmpty = fields.isEmpty := by
  rw [(sortFields_perm _).isEmpty_eq, List.isEmpty_map]

theorem IsDistinct.sorted (h : v.IsDistinct) : v.sorted.IsDistinct := by
  induction h with
  | null => exact .null
  | bool b => exact .bool b
  | int n => exact .int n
  | real x => exact .real x
  | text s => exact .text s
  | array _ ih =>
    rw [sorted_array]
    exact .array (List.forall_mem_map.mpr ih)
  | object hnames _ ih =>
    rw [sorted_object]
    refine .object (nodup_names_sortFields hnames) ?_
    intro field hfield
    obtain ⟨field, hmem, rfl⟩ := mem_sortFields_map.mp hfield
    rw [sortedField_eq]
    exact ih field hmem

/-- A value remains the same when it is sorted. -/
theorem IsDistinct.sorted_same (h : v.IsDistinct) : v.sorted.Same v := by
  induction h with
  | null | bool _ | int _ | real _ | text _ => exact .refl _
  | array _ ih =>
    rw [sorted_array]
    refine .array (List.length_map _) ?_
    intro i item item' hitem hitem'
    rw [List.getElem?_map, hitem'] at hitem
    obtain rfl := Option.some.inj hitem
    exact ih item' (List.mem_of_getElem? hitem')
  | @object fields hnames _ ih =>
    rw [sorted_object]
    refine .object ?_ ?_
    · have hperm := (sortFields_perm (fields.map sortedField)).map (·.1)
      rwa [map_name_sortedField] at hperm
    · intro field hfield field' hfield' hname
      obtain ⟨origin, horigin, rfl⟩ := mem_sortFields_map.mp hfield
      rw [sortedField_eq] at hname ⊢
      -- one field has the name
      obtain rfl := List.inj_on_of_nodup_map hnames horigin hfield' hname
      exact ih origin horigin

/-! ## Values that are the same -/

theorem exists_field_of_names (hnames : (fields.map (·.1)).Perm (fields'.map (·.1)))
    {field : String × Json} (hfield : field ∈ fields) : ∃ field' ∈ fields', field'.1 = field.1 :=
  List.mem_map.mp (hnames.mem_iff.mp (List.mem_map_of_mem hfield))

theorem Same.isDistinct (h : v.Same w) (hv : v.IsDistinct) : w.IsDistinct := by
  induction h with
  | refl v => exact hv
  | @array items items' hlength _ ih =>
    refine .array ?_
    intro item' hitem'
    obtain ⟨i, hi, rfl⟩ := List.getElem_of_mem hitem'
    have hi' : i < items.length := hlength ▸ hi
    exact ih i _ _ (List.getElem?_eq_getElem hi') (List.getElem?_eq_getElem hi)
      (hv.of_mem_array _ (List.getElem_mem hi'))
  | @object fields fields' hnames _ ih =>
    refine .object (hnames.nodup_iff.mp hv.names) ?_
    intro field' hfield'
    obtain ⟨field, hfield, hname⟩ := exists_field_of_names hnames.symm hfield'
    exact ih field hfield field' hfield' hname (hv.of_mem_object field hfield)

/-- Fields with distinct names that agree name by name differ only in their order. -/
theorem perm_map_sortedField (hdistinct : (fields.map (·.1)).Nodup)
    (hnames : (fields.map (·.1)).Perm (fields'.map (·.1)))
    (hagree : ∀ field ∈ fields, ∀ field' ∈ fields', field.1 = field'.1 →
      sortedField field = sortedField field') :
    (fields.map sortedField).Perm (fields'.map sortedField) := by
  have hdistinct' := hnames.nodup_iff.mp hdistinct
  rw [List.perm_ext_iff_of_nodup (nodup_map_sortedField hdistinct) (nodup_map_sortedField hdistinct')]
  intro field
  rw [List.mem_map, List.mem_map]
  constructor
  · rintro ⟨field, hfield, rfl⟩
    obtain ⟨field', hfield', hname⟩ := exists_field_of_names hnames hfield
    exact ⟨field', hfield', (hagree field hfield field' hfield' hname.symm).symm⟩
  · rintro ⟨field', hfield', rfl⟩
    obtain ⟨field, hfield, hname⟩ := exists_field_of_names hnames.symm hfield'
    exact ⟨field, hfield, hagree field hfield field' hfield' hname⟩

/-- Values that are the same are equal when they are sorted. -/
theorem Same.sorted_eq (h : v.Same w) (hv : v.IsDistinct) : v.sorted = w.sorted := by
  induction h with
  | refl v => rfl
  | @array items items' hlength _ ih =>
    rw [sorted_array, sorted_array]
    congr 1
    apply List.ext_getElem (by simpa using hlength)
    intro i hi hi'
    rw [List.length_map] at hi hi'
    rw [List.getElem_map, List.getElem_map]
    exact ih i _ _ (List.getElem?_eq_getElem hi) (List.getElem?_eq_getElem hi')
      (hv.of_mem_array _ (List.getElem_mem hi))
  | @object fields fields' hnames _ ih =>
    rw [sorted_object, sorted_object]
    congr 1
    have hdistinct := hv.names
    apply sortFields_eq_of_perm (by rwa [map_name_sortedField])
    apply perm_map_sortedField hdistinct hnames
    intro field hfield field' hfield' hname
    rw [sortedField_eq, sortedField_eq, hname,
      ih field hfield field' hfield' hname (hv.of_mem_object field hfield)]

/-! ## Looking up fields -/

theorem lookup_sortFields (h : (fields.map (·.1)).Nodup) :
    (sortFields fields).lookup name = fields.lookup name := by
  have hsorted := ((sortFields_perm fields).map (·.1)).nodup_iff.mpr h
  apply Option.ext
  intro value
  rw [Text.lookup_eq_some_iff_mem hsorted, Text.lookup_eq_some_iff_mem h,
    (sortFields_perm fields).mem_iff]

theorem lookup_map_sortedField (fields : List (String × Json)) :
    (fields.map sortedField).lookup name = (fields.lookup name).map sorted := by
  induction fields with
  | nil => rfl
  | cons field fields ih =>
    obtain ⟨first, value⟩ := field
    rw [List.map_cons, sortedField_eq, List.lookup_cons, List.lookup_cons, ih]
    cases name == first <;> rfl

/-- A field of a sorted object holds what it held, sorted. -/
theorem lookup_sorted (h : (fields.map (·.1)).Nodup) :
    (sortFields (fields.map sortedField)).lookup name = (fields.lookup name).map sorted := by
  rw [lookup_sortFields (by rwa [map_name_sortedField]), lookup_map_sortedField]

theorem IsDistinct.of_lookup (h : (Json.object fields).IsDistinct) {value : Json}
    (hvalue : fields.lookup name = some value) : value.IsDistinct :=
  h.of_mem_object _ ((Text.lookup_eq_some_iff_mem h.names).mp hvalue)

end ReleaseSeal.Json
