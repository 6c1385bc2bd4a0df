/-!
# Edit scripts

What it means that single-byte insertions and removals turn one string into another, said twice.
`Edits` changes one byte at a time, anywhere and in any order. `Script` walks through both strings
once, from their starts, and says of every byte whether it is kept, inserted or removed.

## Key results

- `Script.edits`: a script can be carried out edit by edit
- `Edits.exists_script`: any sequence of edits has a script of no more insertions and no more removals
- `Script.length_add`: the lengths fix how many more insertions than removals there are
-/

namespace ReleaseSeal.Edit

/-- `Edits old new i r`: from `old`, `i` insertions and `r` removals of a single byte lead to
    `new`. -/
inductive Edits (old : List UInt8) : List UInt8 → Nat → Nat → Prop where
  | none : Edits old old 0 0
  | insert (front back : List UInt8) (c : UInt8) {i r : Nat} :
      Edits old (front ++ back) i r → Edits old (front ++ c :: back) (i + 1) r
  | remove (front back : List UInt8) (c : UInt8) {i r : Nat} :
      Edits old (front ++ c :: back) i r → Edits old (front ++ back) i (r + 1)

/-- `Script old new i r`: a walk through `old` and `new` that inserts `i` bytes and removes `r`. -/
inductive Script : List UInt8 → List UInt8 → Nat → Nat → Prop where
  | nil : Script [] [] 0 0
  | keep (c : UInt8) {old new : List UInt8} {i r : Nat} :
      Script old new i r → Script (c :: old) (c :: new) i r
  | insert (c : UInt8) {old new : List UInt8} {i r : Nat} :
      Script old new i r → Script old (c :: new) (i + 1) r
  | remove (c : UInt8) {old new : List UInt8} {i r : Nat} :
      Script old new i r → Script (c :: old) new i (r + 1)

namespace Script

/-- A string has a script to itself that keeps every byte. -/
theorem refl (s : List UInt8) : Script s s 0 0 := by
  induction s with
  | nil => exact .nil
  | cons c s ih => exact .keep c ih

/-- Read backwards, insertions are removals. -/
theorem symm {old new : List UInt8} {i r : Nat} (h : Script old new i r) : Script new old r i := by
  induction h with
  | nil => exact .nil
  | keep c _ ih => exact .keep c ih
  | insert c _ ih => exact .remove c ih
  | remove c _ ih => exact .insert c ih

/-- The removed bytes are in the old string only, the inserted ones in the new string only. -/
theorem length_add {old new : List UInt8} {i r : Nat} (h : Script old new i r) :
    old.length + i = new.length + r := by
  induction h with
  | nil => rfl
  | keep c _ ih | insert c _ ih | remove c _ ih =>
    simp only [List.length_cons]
    omega

/-- A string is inserted byte by byte. -/
theorem insert_all (new : List UInt8) : Script [] new new.length 0 := by
  induction new with
  | nil => exact .nil
  | cons c new ih => exact .insert c ih

/-- Scripts of two parts make a script of the whole. -/
theorem append {old new old' new' : List UInt8} {i r i' r' : Nat} (h : Script old new i r)
    (h' : Script old' new' i' r') : Script (old ++ old') (new ++ new') (i + i') (r + r') := by
  induction h with
  | nil => simpa using h'
  | keep c _ ih => exact .keep c ih
  | @insert c _ _ i r _ ih =>
    rw [show i + 1 + i' = i + i' + 1 by omega]
    exact .insert c ih
  | @remove c _ _ i r _ ih =>
    rw [show r + 1 + r' = r + r' + 1 by omega]
    exact .remove c ih

/-- A script can be walked from the ends of the strings. -/
theorem reverse {old new : List UInt8} {i r : Nat} (h : Script old new i r) :
    Script old.reverse new.reverse i r := by
  induction h with
  | nil => exact .nil
  | keep c _ ih =>
    rw [List.reverse_cons, List.reverse_cons]
    exact ih.append (refl [c])
  | insert c _ ih =>
    have h := ih.append (.insert c .nil)
    rwa [List.append_nil, ← List.reverse_cons] at h
  | remove c _ ih =>
    have h := ih.append (.remove c .nil)
    rwa [List.append_nil, ← List.reverse_cons] at h

/-! ## Scripts and edits -/

/-- One more insertion, anywhere in the new string. -/
private theorem insert_at {old front back : List UInt8} {i r : Nat} (c : UInt8)
    (h : Script old (front ++ back) i r) : Script old (front ++ c :: back) (i + 1) r := by
  generalize hnew : front ++ back = new at h
  induction h generalizing front with
  | nil =>
    obtain ⟨rfl, rfl⟩ := List.append_eq_nil_iff.mp hnew
    exact .insert c .nil
  | remove e _ ih => exact .remove e (ih hnew)
  | keep e h ih =>
    cases front with
    | nil =>
      -- the new byte comes in front of the kept one
      obtain rfl : back = _ := hnew
      exact .insert c (.keep e h)
    | cons f front =>
      -- the walk goes on through the front part
      obtain ⟨rfl, hrest⟩ := List.cons.inj hnew
      exact .keep f (ih hrest)
  | insert e h ih =>
    cases front with
    | nil =>
      obtain rfl : back = _ := hnew
      exact .insert c (.insert e h)
    | cons f front =>
      obtain ⟨rfl, hrest⟩ := List.cons.inj hnew
      exact .insert f (ih hrest)

/-- One more removal, anywhere in the new string: of a byte that was kept, or of one that was
    inserted and now is not. -/
private theorem remove_at {old front back : List UInt8} {i r : Nat} (c : UInt8)
    (h : Script old (front ++ c :: back) i r) :
    ∃ i' r', Script old (front ++ back) i' r' ∧ i' ≤ i ∧ r' ≤ r + 1 := by
  generalize hnew : front ++ c :: back = new at h
  induction h generalizing front with
  | nil => simp at hnew
  | remove e _ ih =>
    obtain ⟨i', r', h', hi, hr⟩ := ih hnew
    exact ⟨i', r' + 1, .remove e h', hi, by omega⟩
  | @keep e _ _ i r h ih =>
    cases front with
    | nil =>
      -- the byte was kept: it is removed instead
      obtain ⟨rfl, rfl⟩ := List.cons.inj hnew
      exact ⟨i, r + 1, .remove c h, Nat.le_refl i, Nat.le_refl _⟩
    | cons f front =>
      obtain ⟨rfl, hrest⟩ := List.cons.inj hnew
      obtain ⟨i', r', h', hi, hr⟩ := ih hrest
      exact ⟨i', r', .keep f h', hi, hr⟩
  | @insert e _ _ i r h ih =>
    cases front with
    | nil =>
      -- the byte was inserted: the insertion is left out, which saves an edit
      obtain ⟨rfl, rfl⟩ := List.cons.inj hnew
      exact ⟨i, r, h, by omega, by omega⟩
    | cons f front =>
      obtain ⟨rfl, hrest⟩ := List.cons.inj hnew
      obtain ⟨i', r', h', hi, hr⟩ := ih hrest
      exact ⟨i' + 1, r', .insert f h', by omega, hr⟩

end Script

/-- Edits of what follows a byte leave the byte in place. -/
private theorem Edits.cons (c : UInt8) {old new : List UInt8} {i r : Nat} (h : Edits old new i r) :
    Edits (c :: old) (c :: new) i r := by
  induction h with
  | none => exact .none
  | insert front back e _ ih => exact .insert (c :: front) back e ih
  | remove front back e _ ih => exact .remove (c :: front) back e ih

/-- The first byte can be removed before everything else. -/
private theorem Edits.remove_first (c : UInt8) {old new : List UInt8} {i r : Nat}
    (h : Edits old new i r) : Edits (c :: old) new i (r + 1) := by
  induction h with
  | none => exact .remove [] old c .none
  | insert front back e _ ih => exact .insert front back e ih
  | remove front back e _ ih => exact .remove front back e ih

/-- A script can be carried out edit by edit. -/
theorem Script.edits {old new : List UInt8} {i r : Nat} (h : Script old new i r) :
    Edits old new i r := by
  induction h with
  | nil => exact .none
  | keep c _ ih => exact ih.cons c
  | insert c _ ih => exact .insert [] _ c ih
  | remove c _ ih => exact ih.remove_first c

/-- Edits in any order have a script that needs no more insertions and no more removals. -/
theorem Edits.exists_script {old new : List UInt8} {i r : Nat} (h : Edits old new i r) :
    ∃ i' r', Script old new i' r' ∧ i' ≤ i ∧ r' ≤ r := by
  -- every edit changes the script of the edits before it at one place
  induction h with
  | none => exact ⟨0, 0, .refl old, Nat.le_refl 0, Nat.le_refl 0⟩
  | insert front back c _ ih =>
    obtain ⟨i', r', h', hi, hr⟩ := ih
    exact ⟨i' + 1, r', h'.insert_at c, by omega, hr⟩
  | remove front back c _ ih =>
    obtain ⟨i', r', h', hi, hr⟩ := ih
    obtain ⟨i'', r'', h'', hi', hr'⟩ := h'.remove_at c
    exact ⟨i'', r'', h'', by omega, by omega⟩

end ReleaseSeal.Edit
