import Mathlib.Data.List.Perm.Subperm
import Mathlib.Logic.Relation
import ReleaseSeal.Plist.Binary
import ReleaseSeal.Proofs.Outcome

/-!
# The objects of a binary property list

The objects of a table may refer to each other in any way. Each is read once, the first time that another
one leads to it, and its value is put together from those of its parts. Both succeed for the same tables:
those in which everything that the top object leads to is sound. Besides, reading may end for want of room
on the call stack, which happens only inside containers that lead to each other.

## Key results

- `ObjectTable.exists_reached_of_visit`: where there is no room
- `ObjectTable.explored_of_visit`: what has been read when reading ends
- `isSome_ofBinary?_iff`: which payloads have a value
- `exists_reached_of_overflows` / `overflows_eq_false`: which payloads nest too deep
-/

namespace ReleaseSeal.Plist

/-- The objects that an object refers to. -/
def StoredObject.parts : StoredObject → List Nat
  | scalar _ => []
  | array items => items
  | dict pairs => pairs.flatMap fun (key, value) => [value, key]

/-- The objects that are to be keys. -/
def StoredObject.keys : StoredObject → List Nat
  | scalar _ | array _ => []
  | dict pairs => pairs.map fun (key, _) => key

theorem StoredObject.mem_parts_of_mem_keys {o : StoredObject} {key : Nat} (h : key ∈ o.keys) :
    key ∈ o.parts := by
  cases o with
  | scalar value => cases h
  | array items => cases h
  | dict pairs =>
    obtain ⟨pair, hpair, rfl⟩ := List.mem_map.mp h
    exact List.mem_flatMap.mpr ⟨pair, hpair, by simp⟩

theorem isSome_mapM_iff {part? : Nat → Option Value} {items : List Nat} :
    (items.mapM part?).isSome = true ↔ ∀ item ∈ items, (part? item).isSome = true := by
  induction items with
  | nil => simp
  | cons item items ih =>
    rw [List.mapM_cons, List.forall_mem_cons, ← ih]
    cases part? item with
    | none => simp
    | some v => cases items.mapM part? <;> simp

/-- A dictionary has a value if each of its pairs has a key and a value. -/
theorem StoredObject.isSome_value?_dict_iff {part? : Nat → Option Value} {pairs : List (Nat × Nat)} :
    ((dict pairs).value? part?).isSome = true ↔ ∀ pair ∈ pairs, (part? pair.2).isSome = true ∧
      ∃ key, part? pair.1 = some key ∧ key.key?.isSome = true := by
  rw [value?, Option.isSome_map]
  -- the pairs are added one by one to a dictionary that may hold others already
  generalize ([] : Dict) = d
  induction pairs generalizing d with
  | nil => simp
  | cons pair pairs ih =>
    rw [List.foldlM_cons, List.forall_mem_cons]
    cases hkey : part? pair.1 with
    | none => simp [hkey]
    | some key =>
      cases hvalue : part? pair.2 with
      | none => by_cases hisKey : key.key?.isSome = true <;> simp [hkey, hvalue, hisKey]
      | some value =>
        by_cases hisKey : key.key?.isSome = true
        · simpa [hkey, hvalue, hisKey] using ih (Dict.insert d key value)
        · simp [hkey, hisKey]

/-- An object has a value if its parts have one and its keys can be keys. -/
theorem StoredObject.isSome_value?_iff {part? : Nat → Option Value} {o : StoredObject} :
    (o.value? part?).isSome = true ↔ (∀ part ∈ o.parts, (part? part).isSome = true) ∧
      ∀ key ∈ o.keys, ∀ v, part? key = some v → v.key?.isSome = true := by
  cases o with
  | scalar value => simp [value?, parts, keys]
  | array items => simp [value?, parts, keys, isSome_mapM_iff]
  | dict pairs =>
    rw [isSome_value?_dict_iff]
    simp only [parts, keys, List.mem_flatMap, List.mem_map, List.mem_cons, List.not_mem_nil, or_false]
    constructor
    · intro h
      refine ⟨?_, ?_⟩
      · intro part hpart
        obtain ⟨pair, hmem, rfl | rfl⟩ := hpart
        · exact (h pair hmem).1
        · obtain ⟨key, hkey, -⟩ := (h pair hmem).2
          rw [hkey]
          rfl
      · intro key hkey v hv
        obtain ⟨pair, hmem, rfl⟩ := hkey
        obtain ⟨key, hkey, hisKey⟩ := (h pair hmem).2
        cases hkey.symm.trans hv
        exact hisKey
    · intro h pair hmem
      obtain ⟨hparts, hkeys⟩ := h
      refine ⟨hparts _ ⟨pair, hmem, .inl rfl⟩, ?_⟩
      obtain ⟨key, hkey⟩ := Option.isSome_iff_exists.mp (hparts _ ⟨pair, hmem, .inr rfl⟩)
      exact ⟨key, hkey, hkeys _ ⟨pair, hmem, rfl⟩ _ hkey⟩

namespace ObjectTable

variable {t : ObjectTable} {top i j : Nat}

/-- There is an object that can be the key of a pair. -/
def HasKey (t : ObjectTable) (i : Nat) : Prop :=
  (t.object? i).any StoredObject.isKey = true

/-- An object refers to another one. -/
def Refers (t : ObjectTable) (i j : Nat) : Prop :=
  ∃ o, t.object? i = some o ∧ j ∈ o.parts

/-- There is an object, and what it has for keys can be keys. -/
def Sound (t : ObjectTable) (i : Nat) : Prop :=
  ∃ o, t.object? i = some o ∧ ∀ key ∈ o.keys, t.HasKey key

/-- From the top object containers of some marks lead to an object, innermost first. -/
inductive Reaches (t : ObjectTable) (top : Nat) : List Nat → Nat → Prop where
  | top : Reaches t top [] top
  | part {around : List Nat} {i j mark : Nat} (h : Reaches t top around i) (hmark : t.mark? i = some mark)
      (hrefers : t.Refers i j) : Reaches t top (mark :: around) j

theorem exists_mark_of_object? {o : StoredObject} (h : t.object? i = some o) :
    ∃ mark, t.mark? i = some mark := by
  obtain ⟨offset, hoffset, h⟩ := Option.bind_eq_some_iff.mp h
  obtain ⟨mark, hmark, -⟩ := Option.bind_eq_some_iff.mp h
  exact ⟨mark, Option.bind_eq_some_iff.mpr ⟨offset, hoffset, hmark⟩⟩

/-! ## Reading -/

section Read

variable {read : List Nat → Nat → Except Failure (List Nat)} {known known' : List Nat} {o : StoredObject}

theorem subset_of_foldlM {α : Type} {f : List Nat → α → Except Failure (List Nat)} {xs : List α}
    (hf : ∀ x known known', f known x = .ok known' → known ⊆ known')
    (h : xs.foldlM f known = .ok known') : known ⊆ known' := by
  induction xs generalizing known with
  | nil =>
    cases h
    exact List.Subset.refl _
  | cons x xs ih =>
    rw [List.foldlM_cons] at h
    obtain ⟨next, hnext, h⟩ := bind_eq_ok.mp h
    exact List.Subset.trans (hf x known next hnext) (ih h)

/-- Reading the parts of an object fails at a part, behind those in front of it, or for a key that can be
    none. -/
theorem readParts_eq_error {e : Failure}
    (hread : ∀ i known known', read known i = .ok known' → known ⊆ known')
    (h : t.readParts read known o = .error e) :
    (∃ part ∈ o.parts, ∃ known', known ⊆ known' ∧ read known' part = .error e) ∨
      (e = .malformed ∧ ∃ key ∈ o.keys, ¬t.HasKey key) := by
  cases o with
  | scalar value => cases h
  | array items =>
    obtain ⟨before, item, after, known', rfl, hbefore, hitem⟩ := foldlM_eq_error.mp h
    have hsubset := subset_of_foldlM hread hbefore
    exact .inl ⟨item, List.mem_append_right _ List.mem_cons_self, known', hsubset, hitem⟩
  | dict pairs =>
    obtain ⟨before, ⟨key, value⟩, after, known', rfl, hbefore, hpair⟩ := foldlM_eq_error.mp h
    have hsubset : known ⊆ known' := by
      apply subset_of_foldlM _ hbefore
      intro pair known known' hpair
      obtain ⟨next, hvalue, hpair⟩ := bind_eq_ok.mp hpair
      obtain ⟨last, hkey, hpair⟩ := bind_eq_ok.mp hpair
      split at hpair
      · cases hpair
        exact List.Subset.trans (hread _ _ _ hvalue) (hread _ _ _ hkey)
      · cases hpair
    have hmem : (key, value) ∈ before ++ (key, value) :: after :=
      List.mem_append_right _ List.mem_cons_self
    have hparts (part : Nat) (hpart : part = value ∨ part = key) :
        part ∈ (StoredObject.dict (before ++ (key, value) :: after)).parts :=
      List.mem_flatMap.mpr ⟨(key, value), hmem, by simpa using hpart⟩
    -- the value of a pair is read before its key
    obtain hvalue | ⟨next, hvalue, hpair⟩ := bind_eq_error.mp hpair
    · exact .inl ⟨value, hparts value (.inl rfl), known', hsubset, hvalue⟩
    obtain hkey | ⟨last, -, hpair⟩ := bind_eq_error.mp hpair
    · exact .inl ⟨key, hparts key (.inr rfl), next, List.Subset.trans hsubset (hread _ _ _ hvalue), hkey⟩
    split at hpair
    · cases hpair
    · rename_i hno
      cases hpair
      exact .inr ⟨rfl, key, List.mem_map.mpr ⟨(key, value), hmem, rfl⟩, hno⟩

/-- Reading has added to what is known only sound objects, all parts of which are known. -/
structure Explored (t : ObjectTable) (known known' : List Nat) : Prop where
  subset : known ⊆ known'
  added : ∀ i ∈ known', i ∈ known ∨ (t.Sound i ∧ ∀ j, t.Refers i j → j ∈ known')

theorem Explored.refl (known : List Nat) : t.Explored known known :=
  ⟨List.Subset.refl _, fun _ => .inl⟩

theorem Explored.trans {known known' known'' : List Nat} (h : t.Explored known known')
    (h' : t.Explored known' known'') : t.Explored known known'' := by
  refine ⟨List.Subset.trans h.subset h'.subset, fun i hi => ?_⟩
  obtain hknown' | hadded := h'.added i hi
  · obtain hknown | ⟨hsound, hparts⟩ := h.added i hknown'
    · exact .inl hknown
    · exact .inr ⟨hsound, fun j hj => h'.subset (hparts j hj)⟩
  · exact .inr hadded

/-- Running through a list explores what its items need, if each step does. -/
theorem explored_of_foldlM {α : Type} {f : List Nat → α → Except Failure (List Nat)}
    {needs : α → List Nat → Prop} (hmono : ∀ x known known', known ⊆ known' → needs x known → needs x known')
    (hf : ∀ x known known', f known x = .ok known' → t.Explored known known' ∧ needs x known')
    {xs : List α} (h : xs.foldlM f known = .ok known') :
    t.Explored known known' ∧ ∀ x ∈ xs, needs x known' := by
  induction xs generalizing known with
  | nil =>
    cases h
    exact ⟨.refl _, by simp⟩
  | cons x xs ih =>
    rw [List.foldlM_cons] at h
    obtain ⟨next, hnext, h⟩ := bind_eq_ok.mp h
    obtain ⟨hfirst, hx⟩ := hf x known next hnext
    obtain ⟨hrest, hxs⟩ := ih h
    exact ⟨hfirst.trans hrest, List.forall_mem_cons.mpr ⟨hmono x _ _ hrest.subset hx, hxs⟩⟩

/-- Reading the parts of an object explores all of them, and its keys can be keys. -/
theorem explored_of_readParts
    (hread : ∀ i known known', read known i = .ok known' → t.Explored known known' ∧ i ∈ known')
    (h : t.readParts read known o = .ok known') :
    t.Explored known known' ∧ (∀ part ∈ o.parts, part ∈ known') ∧ ∀ key ∈ o.keys, t.HasKey key := by
  cases o with
  | scalar value =>
    cases h
    exact ⟨.refl _, by simp [StoredObject.parts], by simp [StoredObject.keys]⟩
  | array items =>
    have hmono (x : Nat) (known known' : List Nat) (hsubset : known ⊆ known') (hx : x ∈ known) :
        x ∈ known' := hsubset hx
    obtain ⟨hexplored, hitems⟩ := explored_of_foldlM hmono hread h
    exact ⟨hexplored, hitems, by simp [StoredObject.keys]⟩
  | dict pairs =>
    -- what is known of a pair stays known while the others are read
    have hmono (x : Nat × Nat) (known known' : List Nat) (hsubset : known ⊆ known')
        (hx : (x.1 ∈ known ∧ x.2 ∈ known) ∧ t.HasKey x.1) :
        (x.1 ∈ known' ∧ x.2 ∈ known') ∧ t.HasKey x.1 :=
      ⟨⟨hsubset hx.1.1, hsubset hx.1.2⟩, hx.2⟩
    obtain ⟨hexplored, hpairs⟩ := explored_of_foldlM hmono (by
      intro ⟨key, value⟩ known known' hpair
      obtain ⟨next, hvalue, hpair⟩ := bind_eq_ok.mp hpair
      obtain ⟨last, hkey, hpair⟩ := bind_eq_ok.mp hpair
      obtain ⟨hexplored, hvalue⟩ := hread _ _ _ hvalue
      obtain ⟨hexplored', hkey⟩ := hread _ _ _ hkey
      split at hpair
      · rename_i hhas
        cases hpair
        exact ⟨hexplored.trans hexplored', ⟨hkey, hexplored'.subset hvalue⟩, hhas⟩
      · cases hpair) h
    simp only [StoredObject.parts, StoredObject.keys, List.mem_flatMap, List.mem_map]
    refine ⟨hexplored, ?_, ?_⟩
    · intro part hpart
      obtain ⟨pair, hmem, hpart⟩ := hpart
      have hknown := (hpairs pair hmem).1
      simp only [List.mem_cons, List.not_mem_nil, or_false] at hpart
      obtain rfl | rfl := hpart
      · exact hknown.2
      · exact hknown.1
    · intro key hkey
      obtain ⟨pair, hmem, rfl⟩ := hkey
      exact (hpairs pair hmem).2

end Read

section Visit

variable [Host] {fuel : Nat} {around known known' : List Nat}

/-- An object that has been read before, or is being read, is not read again. -/
theorem visit_known (h : i ∈ known) :
    t.visit (fuel + 1) around known i =
      if Host.roomToRead t.referenceSize around none then .ok known else .error (.fault .tooDeep) := by
  have hcontains : known.contains i = true := List.contains_iff_mem.mpr h
  simp only [visit, hcontains, if_true, Bool.not_eq_true']
  cases Host.roomToRead t.referenceSize around none <;> rfl

/-- Any other object is read with its parts, inside it. -/
theorem visit_fresh (h : i ∉ known) :
    t.visit (fuel + 1) around known i =
      if Host.roomToRead t.referenceSize around (t.mark? i) then
        match t.object? i with
        | none => .error .malformed
        | some o => t.readParts (t.visit fuel ((t.mark? i).toList ++ around)) (i :: known) o
      else .error (.fault .tooDeep) := by
  have hcontains : known.contains i = false := by simpa using h
  simp only [visit, hcontains, if_false, Bool.false_eq_true]
  cases Host.roomToRead t.referenceSize around (t.mark? i) <;> rfl

/-- When reading an object has ended well, all that it leads to has been read and is sound. -/
theorem explored_of_visit (h : t.visit fuel around known i = .ok known') :
    t.Explored known known' ∧ i ∈ known' := by
  induction fuel generalizing around known known' i with
  | zero => cases h
  | succ fuel ih =>
    by_cases hknown : i ∈ known
    · rw [visit_known hknown] at h
      split at h
      · cases h
        exact ⟨.refl _, hknown⟩
      · cases h
    · rw [visit_fresh hknown] at h
      split at h
      · split at h
        · cases h
        · rename_i o ho
          obtain ⟨hexplored, hparts, hkeys⟩ := explored_of_readParts (fun _ _ _ => ih) h
          have hi : i ∈ known' := hexplored.subset List.mem_cons_self
          refine ⟨⟨fun j hj => hexplored.subset (List.mem_cons_of_mem _ hj), fun j hj => ?_⟩, hi⟩
          obtain hj | hadded := hexplored.added j hj
          · obtain rfl | hj := List.mem_cons.mp hj
            · refine .inr ⟨⟨o, ho, hkeys⟩, fun part hpart => ?_⟩
              obtain ⟨o', ho', hpart⟩ := hpart
              cases ho.symm.trans ho'
              exact hparts part hpart
            · exact .inl hj
          · exact .inr hadded
      · cases h

theorem subset_of_visit (i : Nat) (known known' : List Nat) (h : t.visit fuel around known i = .ok known') :
    known ⊆ known' :=
  (explored_of_visit h).1.subset

/-- Reading ends for want of room where containers lead to an object for which there is none. -/
theorem exists_reached_of_visit {fault : Fault} (hreaches : t.Reaches top around i)
    (h : t.visit fuel around known i = .error (.fault fault)) :
    fault = .tooDeep ∧ ∃ around' i' mark, t.Reaches top around' i' ∧ (mark = none ∨ mark = t.mark? i') ∧
      Host.roomToRead t.referenceSize around' mark = false := by
  induction fuel generalizing around known i with
  | zero => cases h
  | succ fuel ih =>
    by_cases hknown : i ∈ known
    · rw [visit_known hknown] at h
      split at h
      · cases h
      · rename_i hroom
        cases h
        exact ⟨rfl, around, i, none, hreaches, .inl rfl, Bool.not_eq_true _ ▸ hroom⟩
    · rw [visit_fresh hknown] at h
      split at h
      · split at h
        · cases h
        · rename_i o ho
          obtain ⟨part, hpart, known', -, hfault⟩ | ⟨hno, -⟩ := readParts_eq_error subset_of_visit h
          · obtain ⟨mark, hmark⟩ := exists_mark_of_object? ho
            rw [hmark] at hfault
            exact ih (.part hreaches hmark ⟨o, ho, hpart⟩) hfault
          · cases hno
      · rename_i hroom
        cases h
        exact ⟨rfl, around, i, t.mark? i, hreaches, .inr rfl, Bool.not_eq_true _ ▸ hroom⟩

end Visit

/-! ## Values -/

section Value

variable {fuel : Nat} {around : List Nat}

theorem lt_size_of_object? {o : StoredObject} (h : t.object? i = some o) : i < t.offsets.size := by
  obtain ⟨offset, hoffset, -⟩ := Option.bind_eq_some_iff.mp h
  obtain ⟨hlt, -⟩ := Array.getElem?_eq_some_iff.mp hoffset
  exact hlt

/-- Objects that are inside each other are not more than there are. -/
theorem length_le_size (hnodup : around.Nodup) (hrange : ∀ a ∈ around, a < t.offsets.size) :
    around.length ≤ t.offsets.size := by
  have hsubset : around ⊆ List.range t.offsets.size := fun a ha => List.mem_range.mpr (hrange a ha)
  simpa using (List.Nodup.subperm hnodup hsubset).length_le

theorem value?_succ (hi : i ∉ around) :
    t.value? (fuel + 1) around i =
      (t.object? i).bind fun o => o.value? (t.value? fuel (i :: around)) := by
  have hnone : around.idxOf? i = none := List.idxOf?_eq_none_iff.mpr hi
  simp only [value?, hnone]
  rfl

/-- What cannot be a key has no value that is one. -/
theorem key?_eq_none_of_not_hasKey {v : Value} (hkey : ¬t.HasKey i)
    (h : t.value? fuel around i = some v) : v.key? = none := by
  cases fuel with
  | zero => cases h
  | succ fuel =>
    obtain ⟨o, ho, h⟩ := Option.bind_eq_some_iff.mp h
    unfold HasKey at hkey
    rw [ho, Option.any_some] at hkey
    split at h
    · cases h
      rfl
    · cases o with
      | scalar value =>
        cases h
        simpa [StoredObject.isKey] using hkey
      | array items =>
        obtain ⟨values, -, rfl⟩ := Option.map_eq_some_iff.mp h
        rfl
      | dict pairs =>
        obtain ⟨values, -, rfl⟩ := Option.map_eq_some_iff.mp h
        rfl

/-- What can be a key has a value that is one; it lies inside nothing else. -/
theorem key?_isSome_of_hasKey {v : Value} (hkey : t.HasKey i)
    (haround : ∀ a ∈ around, ¬t.HasKey a) (h : t.value? fuel around i = some v) :
    v.key?.isSome = true := by
  have hi : i ∉ around := fun hi => haround i hi hkey
  cases fuel with
  | zero => cases h
  | succ fuel =>
    rw [value?_succ hi] at h
    obtain ⟨o, ho, h⟩ := Option.bind_eq_some_iff.mp h
    unfold HasKey at hkey
    rw [ho, Option.any_some] at hkey
    cases o with
    | scalar value =>
      cases h
      exact hkey
    | array items => cases hkey
    | dict pairs => cases hkey

/-- What leads to another object is no key. -/
theorem Refers.not_hasKey (h : t.Refers i j) : ¬t.HasKey i := by
  obtain ⟨o, ho, hj⟩ := h
  unfold HasKey
  rw [ho, Option.any_some]
  cases o with
  | scalar value => cases hj
  | array items => simp [StoredObject.isKey]
  | dict pairs => simp [StoredObject.isKey]

/-- If all that an object leads to is sound, the object has a value. -/
theorem isSome_value? (hsound : ∀ j, Relation.ReflTransGen t.Refers i j → t.Sound j)
    (hnodup : around.Nodup) (haround : ∀ a ∈ around, a < t.offsets.size ∧ ¬t.HasKey a)
    (hfuel : t.offsets.size + 1 ≤ fuel + around.length) : (t.value? fuel around i).isSome = true := by
  -- the objects around are distinct, so there is fuel left
  have hlength := length_le_size hnodup fun a ha => (haround a ha).1
  induction fuel generalizing around i with
  | zero => omega
  | succ fuel ih =>
    obtain ⟨o, ho, hkeys⟩ := hsound i .refl
    by_cases hi : i ∈ around
    · obtain ⟨levels, hlevels⟩ := Option.isSome_iff_exists.mp (List.isSome_idxOf?.mpr hi)
      simp [value?, ho, hlevels]
    · rw [value?_succ hi, ho, Option.bind_some, StoredObject.isSome_value?_iff]
      -- whatever has parts lies around them
      have hinside {part : Nat} (hpart : part ∈ o.parts) :
          ∀ a ∈ i :: around, a < t.offsets.size ∧ ¬t.HasKey a :=
        List.forall_mem_cons.mpr
          ⟨⟨lt_size_of_object? ho, Refers.not_hasKey ⟨o, ho, hpart⟩⟩, haround⟩
      refine ⟨fun part hpart => ?_, fun key hkey v hv => ?_⟩
      · have hnodup' : (i :: around).Nodup := List.nodup_cons.mpr ⟨hi, hnodup⟩
        refine ih (fun j hj => hsound j (.head ⟨o, ho, hpart⟩ hj)) hnodup' (hinside hpart) ?_
          (length_le_size hnodup' fun a ha => (hinside hpart a ha).1)
        rw [List.length_cons]
        omega
      · have hpart := StoredObject.mem_parts_of_mem_keys hkey
        exact key?_isSome_of_hasKey (hkeys key hkey) (fun a ha => (hinside hpart a ha).2) hv

end Value

section Malformed

variable [Host] {fuel : Nat} {around known inside : List Nat}

/-- If reading ends at something malformed, the object it began with has no value. -/
theorem value?_eq_none_of_visit (hnodup : inside.Nodup) (hrange : ∀ a ∈ inside, a < t.offsets.size)
    (hknown : inside ⊆ known) (hfuel : t.offsets.size + 1 ≤ fuel + inside.length) (hi : i ∉ known)
    (h : t.visit fuel around known i = .error .malformed) (fuel' : Nat) {inside' : List Nat}
    (hinside' : inside' ⊆ i :: inside) :
    (t.object? i).bind (fun o => o.value? (t.value? fuel' inside')) = none := by
  -- the objects inside each other are distinct, so reading does not run out of fuel
  have hlength := length_le_size hnodup hrange
  induction fuel generalizing around known inside i fuel' inside' with
  | zero => omega
  | succ fuel ih =>
    rw [visit_fresh hi] at h
    split at h
    · split at h
      · rename_i ho
        rw [ho, Option.bind_none]
      · rename_i o ho
        rw [ho, Option.bind_some, ← Option.not_isSome_iff_eq_none, StoredObject.isSome_value?_iff]
        intro hvalue
        obtain ⟨part, hpart, known', hsubset, hfault⟩ | ⟨-, key, hkey, hno⟩ :=
          readParts_eq_error subset_of_visit h
        · have hnodup' : (i :: inside).Nodup := List.nodup_cons.mpr ⟨fun h => hi (hknown h), hnodup⟩
          have hrange' : ∀ a ∈ i :: inside, a < t.offsets.size :=
            List.forall_mem_cons.mpr ⟨lt_size_of_object? ho, hrange⟩
          have hlength' := length_le_size hnodup' hrange'
          rw [List.length_cons] at hlength'
          have hknown' : i :: inside ⊆ known' :=
            List.Subset.trans (List.cons_subset_cons i hknown) hsubset
          -- the part is not among those that are being read, or it would be known
          have hpart' : part ∉ known' := by
            intro hmem
            obtain ⟨fuel, rfl⟩ : ∃ n, fuel = n + 1 := ⟨fuel - 1, by omega⟩
            rw [visit_known hmem] at hfault
            split at hfault
            · cases hfault
            · cases hfault
          obtain ⟨v, hv⟩ := Option.isSome_iff_exists.mp (hvalue.1 part hpart)
          cases fuel' with
          | zero => cases hv
          | succ fuel' =>
            have hpart'' : part ∉ inside' := fun hmem => hpart' (hknown' (hinside' hmem))
            rw [value?_succ hpart''] at hv
            have hnone := ih hnodup' hrange' hknown' (by rw [List.length_cons]; omega) hpart' hfault fuel'
              (List.cons_subset_cons part hinside') (by rw [List.length_cons]; omega)
            rw [hnone] at hv
            cases hv
        · obtain ⟨v, hv⟩ :=
            Option.isSome_iff_exists.mp (hvalue.1 key (StoredObject.mem_parts_of_mem_keys hkey))
          have hsome := hvalue.2 key hkey v hv
          rw [key?_eq_none_of_not_hasKey hno hv] at hsome
          cases hsome
    · cases h

end Malformed

end ObjectTable

/-! ## Payloads -/

/-- A payload in the binary format has a value exactly if all that its top object leads to is sound. -/
theorem isSome_ofBinary?_iff {bytes : ByteArray} :
    (ofBinary? bytes).isSome = true ↔ ∃ table top, ObjectTable.ofBytes? bytes = some (table, top) ∧
      ∀ i, Relation.ReflTransGen table.Refers top i → table.Sound i := by
  unfold ofBinary?
  constructor
  · intro h
    obtain ⟨v, hv⟩ := Option.isSome_iff_exists.mp h
    obtain ⟨⟨table, top⟩, htable, hv⟩ := Option.bind_eq_some_iff.mp hv
    refine ⟨table, top, htable, ?_⟩
    -- with room for everything, the objects are read until they are explored or one is malformed
    cases hvisit : table.visit (table.offsets.size + 1) [] [] top with
    | ok known =>
      obtain ⟨hexplored, htop⟩ := ObjectTable.explored_of_visit hvisit
      have hclosed (i : Nat) (hi : Relation.ReflTransGen table.Refers top i) : i ∈ known := by
        induction hi with
        | refl => exact htop
        | tail _ hrefers ih =>
          obtain hno | ⟨-, hparts⟩ := hexplored.added _ ih
          · cases hno
          · exact hparts _ hrefers
      intro i hi
      obtain hno | ⟨hsound, -⟩ := hexplored.added i (hclosed i hi)
      · cases hno
      · exact hsound
    | error e =>
      cases e with
      | malformed =>
        have hnone := ObjectTable.value?_eq_none_of_visit .nil (by simp) (List.nil_subset _) (by simp)
          List.not_mem_nil hvisit (table.offsets.size + 1) (List.nil_subset _)
        rw [show (table.object? top).bind _ = some v from hv] at hnone
        cases hnone
      | fault fault =>
        obtain ⟨-, around, i, mark, -, -, hroom⟩ := ObjectTable.exists_reached_of_visit .top hvisit
        cases hroom
  · intro h
    obtain ⟨table, top, htable, hsound⟩ := h
    obtain ⟨o, ho, hkeys⟩ := hsound top .refl
    rw [htable, Option.bind_eq_bind, Option.bind_some]
    dsimp only
    rw [ho, Option.bind_eq_bind, Option.bind_some, StoredObject.isSome_value?_iff]
    refine ⟨fun part hpart => ?_, fun key hkey v hv => ?_⟩
    · exact ObjectTable.isSome_value? (fun i hi => hsound i (.head ⟨o, ho, hpart⟩ hi)) .nil (by simp) (by simp)
    · exact ObjectTable.key?_isSome_of_hasKey (hkeys key hkey) (by simp) hv

/-- A payload nests too deep only where containers lead to an object for which there is no room. -/
theorem exists_reached_of_overflows [Host] {bytes : ByteArray} (h : overflows bytes = true) :
    ∃ table top around i mark, ObjectTable.ofBytes? bytes = some (table, top) ∧
      table.Reaches top around i ∧ (mark = none ∨ mark = table.mark? i) ∧
      Host.roomToRead table.referenceSize around mark = false := by
  unfold overflows at h
  split at h
  · cases h
  · rename_i table top htable
    split at h
    · rename_i hvisit
      obtain ⟨-, around, i, mark, hreaches, hmark, hroom⟩ :=
        ObjectTable.exists_reached_of_visit .top hvisit
      exact ⟨table, top, around, i, mark, htable, hreaches, hmark, hroom⟩
    · cases h

/-- Where there is room for everything, nothing nests too deep. -/
theorem overflows_eq_false [Host]
    (hroom : ∀ referenceSize around mark, Host.roomToRead referenceSize around mark = true)
    (bytes : ByteArray) : overflows bytes = false := by
  rw [← Bool.not_eq_true]
  intro h
  obtain ⟨table, top, around, i, mark, -, -, -, hno⟩ := exists_reached_of_overflows h
  rw [hroom] at hno
  cases hno

end ReleaseSeal.Plist
