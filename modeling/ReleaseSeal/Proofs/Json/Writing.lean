import ReleaseSeal.Proofs.Json.FieldOrder

/-!
# What keeps a value from being written

Every stack has room for a few levels of containers. Up there the fault of a container is that of a part of
it, and a number with too many digits is the only thing that cannot be written.

## Key results

- `fault?_sorted_array_eq_some` / `fault?_sorted_object_eq_some`: which part of a container is at fault
- `dump_eq_ok`: what a written value looks like
-/

namespace ReleaseSeal.Json

variable [Host] {isInline : Bool} {around : List ValueKind} {fault : TextFault} {items : List Json}
  {fields : List (String × Json)}

theorem ifRoom_of_le (h : around.length ≤ 16) (kind : ValueKind) (fault? : Option TextFault) :
    ifRoom isInline around kind fault? = fault? :=
  if_pos (Host.roomToWrite_of_le isInline around kind h)

/-! ## Scalars -/

theorem fault?_text (h : around.length ≤ 16) (s : String) : (text s).fault? isInline around = none := by
  rw [fault?, ifRoom_of_le h]

theorem fault?_int (h : around.length ≤ 16) (n : Int) :
    (int n).fault? isInline around =
      if Text.isLongNumeral n then some .longNumeral else none := by
  rw [fault?, ifRoom_of_le h]

/-! ## Containers -/

theorem itemsFault?_eq_some (h : itemsFault? isInline around items = some fault) :
    ∃ item ∈ items, item.fault? isInline around = some fault := by
  induction items with
  | nil => cases h
  | cons item items ih =>
    obtain hitem | ⟨-, hitems⟩ := (Option.orElse_eq_some _ _ _).mp h
    · exact ⟨item, List.mem_cons_self, hitem⟩
    · obtain ⟨other, hmem, hother⟩ := ih hitems
      exact ⟨other, List.mem_cons_of_mem _ hmem, hother⟩

theorem fieldFault?_of_le (h : around.length ≤ 16) (field : String × Json) :
    fieldFault? isInline around field = field.2.fault? isInline around := by
  obtain ⟨name, value⟩ := field
  rw [fieldFault?, ifRoom_of_le h]
  rfl

theorem fieldsFault?_eq_some (haround : around.length ≤ 16)
    (h : fieldsFault? isInline around fields = some fault) :
    ∃ field ∈ fields, field.2.fault? isInline around = some fault := by
  induction fields with
  | nil => cases h
  | cons field fields ih =>
    obtain hfield | ⟨-, hfields⟩ := (Option.orElse_eq_some _ _ _).mp h
    · exact ⟨field, List.mem_cons_self, fieldFault?_of_le haround field ▸ hfield⟩
    · obtain ⟨other, hmem, hother⟩ := ih hfields
      exact ⟨other, List.mem_cons_of_mem _ hmem, hother⟩

theorem fieldsFault?_eq_none (haround : around.length ≤ 16) (h : fieldsFault? isInline around fields = none) :
    ∀ field ∈ fields, field.2.fault? isInline around = none := by
  induction fields with
  | nil => simp
  | cons field fields ih =>
    obtain ⟨hfield, hfields⟩ := (Option.orElse_eq_none _ _).mp h
    rw [List.forall_mem_cons, ← fieldFault?_of_le haround]
    exact ⟨hfield, ih hfields⟩

/-- An item of a sorted array is at fault. -/
theorem fault?_sorted_array_eq_some (haround : around.length ≤ 16)
    (h : (array items).sorted.fault? isInline around = some fault) :
    ∃ item ∈ items, item.sorted.fault? isInline (.array :: around) = some fault := by
  rw [sorted_array, fault?, ifRoom_of_le haround] at h
  obtain ⟨item, hitem, hfault⟩ := itemsFault?_eq_some h
  obtain ⟨unsorted, hmem, rfl⟩ := List.mem_map.mp hitem
  exact ⟨unsorted, hmem, hfault⟩

/-- The value of a field of a sorted object is at fault. -/
theorem fault?_sorted_object_eq_some (haround : around.length < 16)
    (h : (object fields).sorted.fault? isInline around = some fault) :
    ∃ field ∈ fields, field.2.sorted.fault? isInline (.dict :: around) = some fault := by
  have hinner : (ValueKind.dict :: around).length ≤ 16 := haround
  rw [sorted_object, fault?, ifRoom_of_le haround.le] at h
  obtain ⟨field, hfield, hfault⟩ := fieldsFault?_eq_some hinner h
  obtain ⟨unsorted, hmem, rfl⟩ := mem_sortFields_map.mp hfield
  rw [sortedField_eq] at hfault
  exact ⟨unsorted, hmem, hfault⟩

/-- If no part of a sorted object is at fault, then no value of a field is. -/
theorem fault?_of_sorted_object_eq_none (haround : around.length < 16)
    (h : (object fields).sorted.fault? isInline around = none) :
    ∀ field ∈ fields, field.2.sorted.fault? isInline (.dict :: around) = none := by
  have hinner : (ValueKind.dict :: around).length ≤ 16 := haround
  rw [sorted_object, fault?, ifRoom_of_le haround.le] at h
  intro field hfield
  have hsorted := fieldsFault?_eq_none hinner h (sortedField field)
    (mem_sortFields_map.mpr ⟨field, hfield, rfl⟩)
  rwa [sortedField_eq] at hsorted

/-! ## Texts -/

/-- A value is written as it is laid out, unless there is a fault in it. -/
theorem dump_eq_ok {style : Style} {v : Json} {s : String} :
    v.dump style = .ok s ↔ v.sorted.fault? style.isInline [] = none ∧ s = v.render style := by
  unfold dump
  cases v.sorted.fault? style.isInline [] <;> simp [eq_comm]

theorem dump_eq_error {style : Style} {v : Json} :
    v.dump style = .error fault ↔ v.sorted.fault? style.isInline [] = some fault := by
  unfold dump
  cases v.sorted.fault? style.isInline [] <;> simp

end ReleaseSeal.Json
