import Mathlib.Data.List.Perm.Basic
import ReleaseSeal.Plist.KeyOrder
import ReleaseSeal.Proofs.Text.Listing

/-!
# Sorting by keys

Sorting by keys loses nothing and adds nothing, also where a key has no place in the order; and texts can
always be sorted.

## Key results

- `Order.sortByHalving_perm`: sorting by halving keeps the items
- `inKeyOrder_perm`: so does sorting by keys
- `canOrder_of_text` / `exists_of_sortKeys?_eq_none`: texts have an order
- `pairwise_inKeyOrder_text`: which is that of their characters
-/

namespace ReleaseSeal.Order

variable {α : Type} {less : α → α → Bool}

theorem insertByHalving_perm (items : List α) (item : α) :
    (insertByHalving less items item).Perm (item :: items) := by
  unfold insertByHalving
  apply List.perm_middle.trans
  rw [List.take_append_drop]

/-- A run and the rest behind it are the list. -/
theorem runFrom_append (follows : α → α → Bool) (first : α) (rest : List α) :
    (runFrom follows first rest).1 ++ (runFrom follows first rest).2 = first :: rest := by
  induction rest generalizing first with
  | nil => rfl
  | cons next rest ih =>
    rw [runFrom]
    split
    · exact congrArg (first :: ·) (ih next)
    · rfl

theorem leadingRun_perm (items : List α) :
    ((leadingRun less items).1 ++ (leadingRun less items).2).Perm items := by
  cases items with
  | nil => exact .refl []
  | cons first rest =>
    rw [leadingRun]
    split
    · -- a descending run is taken backwards
      have hrun := runFrom_append (fun a b => less b a) first rest
      exact ((List.reverse_perm _).append_right _).trans (.of_eq hrun)
    · exact .of_eq (runFrom_append _ first rest)

theorem foldl_insertByHalving_perm (run rest : List α) :
    (rest.foldl (insertByHalving less) run).Perm (run ++ rest) := by
  induction rest generalizing run with
  | nil =>
    rw [List.append_nil]
    exact .refl _
  | cons item rest ih =>
    apply (ih _).trans
    apply ((insertByHalving_perm run item).append_right rest).trans
    exact List.perm_middle.symm

/-- Sorting by halving keeps the items, whatever is compared. -/
theorem sortByHalving_perm (items : List α) : (sortByHalving less items).Perm items :=
  (foldl_insertByHalving_perm _ _).trans (leadingRun_perm items)

end ReleaseSeal.Order

namespace ReleaseSeal.Plist

variable {α : Type}

/-- Sorting by keys keeps the items. -/
theorem inKeyOrder_perm (key : α → Value) (items : List α) : (inKeyOrder key items).Perm items := by
  unfold inKeyOrder
  split
  · exact Order.sortByHalving_perm items
  · exact List.mergeSort_perm ..

/-- Texts are of one class, and can be ordered. -/
theorem canOrder_of_text {keys : List Value} (h : ∀ key ∈ keys, ∃ k, key = .text k) :
    canOrder keys = true := by
  have hclass (key : Value) (hkey : key ∈ keys) : key.key?.bind Key.orderClass? = some .text := by
    obtain ⟨k, rfl⟩ := h key hkey
    rfl
  match keys, hclass with
  | [], _ | [_], _ => rfl
  | first :: second :: rest, hclass =>
    simp only [canOrder, hclass first List.mem_cons_self, List.all_eq_true, beq_iff_eq]
    exact fun key hkey => hclass key (List.mem_cons_of_mem first hkey)

/-- Texts are in key order as they are in order. -/
theorem inKeyOrder_text (names : List String) :
    inKeyOrder id (names.map Value.text) =
      (names.mergeSort fun s t => decide (s ≤ t)).map Value.text := by
  have hplaced : ¬(names.map Value.text).any (fun v => (id v).isUnplaced) := by
    simp [Value.isUnplaced, Value.key?]
  have hle (s t : String) : decide (s ≤ t) = Value.keyLe (.text s) (.text t) := by
    simp only [Value.keyLe, Value.key?, Key.less, ← decide_not, not_lt]
  rw [inKeyOrder, if_neg hplaced]
  exact (List.map_mergeSort fun s _ t _ => hle s t).symm

/-- Texts that are each there once are in ascending order of their characters. -/
theorem pairwise_inKeyOrder_text {names : List String} (h : names.Nodup) :
    ∃ sorted : List String, inKeyOrder id (names.map Value.text) = sorted.map Value.text ∧
      sorted.Pairwise (· < ·) ∧ sorted.Perm names :=
  ⟨_, inKeyOrder_text names, Text.pairwise_lt_mergeSort h, List.mergeSort_perm ..⟩

theorem sortByKey?_eq_some {items sorted : List (Value × α)} (h : sortByKey? items = some sorted) :
    sorted.Perm items := by
  unfold sortByKey? at h
  split at h
  · cases h
    exact inKeyOrder_perm _ items
  · cases h

/-- Keys that cannot be sorted are not all texts. -/
theorem exists_of_sortKeys?_eq_none {keys : List Value} (h : sortKeys? keys = none) :
    ∃ key ∈ keys, ∀ k, key ≠ .text k := by
  unfold sortKeys? at h
  split at h
  · cases h
  · rename_i hno
    by_contra hall
    apply hno
    apply canOrder_of_text
    intro key hkey
    by_contra htext
    exact hall ⟨key, hkey, fun k hk => htext ⟨k, hk⟩⟩

theorem exists_of_sortByKey?_eq_none {items : List (Value × α)} (h : sortByKey? items = none) :
    ∃ item ∈ items, ∀ k, item.1 ≠ .text k := by
  have hkeys : sortKeys? (items.map (·.1)) = none := by
    unfold sortByKey? at h
    unfold sortKeys?
    split at h
    · cases h
    · rename_i hno
      rw [if_neg hno]
  obtain ⟨key, hkey, htext⟩ := exists_of_sortKeys?_eq_none hkeys
  obtain ⟨item, hitem, rfl⟩ := List.mem_map.mp hkey
  exact ⟨item, hitem, htext⟩

end ReleaseSeal.Plist
