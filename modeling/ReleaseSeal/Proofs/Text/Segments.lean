import Mathlib.Data.List.Basic
import Mathlib.Data.List.TakeWhile
import ReleaseSeal.Text.Split

/-!
# Segments of a path

A slash between two paths is where their segments meet, and a segment has no segments but itself. A
path to which a name is added behind a slash ends with a slash exactly if the name does or is empty.

## Key results

- `segments_append`: the segments on both sides of a slash
- `segments_of_mem`: a segment as a path
- `endsWith_slash_append`: when a slash is at the end
- `exists_last`: the last occurrence of a separator, and what is in front of it and behind it
-/

namespace ReleaseSeal.Text

theorem splitOn_ne_nil (separator : Char) (cs : List Char) : splitOn separator cs ≠ [] := by
  cases cs with
  | nil => exact List.cons_ne_nil _ _
  | cons c cs =>
    rw [splitOn]
    split
    · exact List.cons_ne_nil _ _
    · split <;> exact List.cons_ne_nil _ _

/-- A separator parts the pieces in front of it from those behind it. -/
theorem splitOn_append {separator : Char} {front back : List Char} :
    splitOn separator (front ++ separator :: back) =
      splitOn separator front ++ splitOn separator back := by
  induction front with
  | nil => simp [splitOn]
  | cons c front ih =>
    rw [List.cons_append, splitOn, splitOn]
    split
    · rw [ih, List.cons_append]
    · -- the character joins the first piece, which is one of those in front
      obtain ⟨piece, pieces, hfront⟩ := List.exists_cons_of_ne_nil (splitOn_ne_nil separator front)
      rw [ih, hfront]
      rfl

/-- No piece holds the separator. -/
theorem not_mem_of_mem_splitOn {separator : Char} {cs piece : List Char}
    (h : piece ∈ splitOn separator cs) : separator ∉ piece := by
  induction cs generalizing piece with
  | nil =>
    rw [splitOn, List.mem_singleton] at h
    exact h ▸ List.not_mem_nil
  | cons c cs ih =>
    rw [splitOn] at h
    split at h
    · obtain rfl | h := List.mem_cons.mp h
      · exact List.not_mem_nil
      · exact ih h
    · rename_i hc
      obtain ⟨first, pieces, hpieces⟩ := List.exists_cons_of_ne_nil (splitOn_ne_nil separator cs)
      simp only [hpieces, List.mem_cons] at h ih
      obtain rfl | h := h
      · exact List.not_mem_cons_of_ne_of_not_mem (Ne.symm hc) (ih (.inl rfl))
      · exact ih (.inr h)

/-- A text without a separator is one piece. -/
theorem splitOn_eq_singleton {separator : Char} {cs : List Char} (h : separator ∉ cs) :
    splitOn separator cs = [cs] := by
  induction cs with
  | nil => rfl
  | cons c cs ih =>
    rw [List.mem_cons, not_or] at h
    rw [splitOn, if_neg (Ne.symm h.1), ih h.2]

/-- The segments of two paths with a slash between them. -/
theorem segments_append (front back : String) :
    segments (front ++ "/" ++ back) = segments front ++ segments back := by
  have hchars : (front ++ "/" ++ back).toList = front.toList ++ '/' :: back.toList := by simp
  rw [segments, hchars, splitOn_append, List.filter_append, List.map_append]
  rfl

/-- A segment of a path is the only one of itself. -/
theorem segments_of_mem {path segment : String} (h : segment ∈ segments path) :
    segments segment = [segment] := by
  obtain ⟨piece, hpiece, rfl⟩ := List.mem_map.mp h
  obtain ⟨hmem, hnonempty⟩ := List.mem_filter.mp hpiece
  have hsplit := splitOn_eq_singleton (not_mem_of_mem_splitOn hmem)
  simp [segments, hsplit, hnonempty]

/-- A name behind a slash ends with a slash where the whole does, unless there is nothing behind the
    slash. -/
theorem endsWith_slash_append (front name : String) :
    endsWith (front ++ "/" ++ name) "/" = true ↔ name = "" ∨ endsWith name "/" = true := by
  have hlast (text : String) : endsWith text "/" = true ↔ text.toList.getLast? = some '/' := by
    rw [endsWith, List.isSuffixOf_iff_suffix, List.getLast?_eq_some_iff]
    exact ⟨fun ⟨front, h⟩ => ⟨front, h.symm⟩, fun ⟨front, h⟩ => ⟨front, h.symm⟩⟩
  have hchars : (front ++ "/" ++ name).toList = front.toList ++ '/' :: name.toList := by simp
  rw [hlast, hlast, hchars, List.getLast?_append_of_ne_nil _ (List.cons_ne_nil _ _),
    ← String.toList_eq_nil_iff]
  cases name.toList with
  | nil => simp
  | cons c cs => simp [List.getLast?_cons_cons]

/-! ## The last separator -/

section

variable {separator : Char} {cs front back : List Char}

private theorem all_ne (h : separator ∉ cs) : ∀ c ∈ cs.reverse, decide (c ≠ separator) = true := by
  intro c hc
  have hne : c ≠ separator := fun heq => h (heq ▸ List.mem_reverse.mp hc)
  exact decide_eq_true hne

/-- What is behind the last separator. -/
theorem afterLast_append (h : separator ∉ back) :
    afterLast separator (front ++ separator :: back) = back := by
  have hreverse : (front ++ separator :: back).reverse = back.reverse ++ separator :: front.reverse := by
    simp
  rw [afterLast, hreverse, List.takeWhile_append_of_pos (all_ne h), List.takeWhile_cons]
  simp

/-- What is in front of the last separator. -/
theorem beforeLast_append (h : separator ∉ back) :
    beforeLast separator (front ++ separator :: back) = front := by
  have hreverse : (front ++ separator :: back).reverse = back.reverse ++ separator :: front.reverse := by
    simp
  rw [beforeLast, hreverse, List.dropWhile_append_of_pos (all_ne h), List.dropWhile_cons]
  simp

theorem afterLast_of_not_mem (h : separator ∉ cs) : afterLast separator cs = cs := by
  rw [afterLast, List.takeWhile_eq_self_iff.mpr (all_ne h), List.reverse_reverse]

theorem beforeLast_of_not_mem (h : separator ∉ cs) : beforeLast separator cs = [] := by
  rw [beforeLast, List.dropWhile_eq_nil_iff.mpr (all_ne h)]
  rfl

/-- A separator that occurs has a last occurrence. -/
theorem exists_last (h : separator ∈ cs) :
    ∃ front back, cs = front ++ separator :: back ∧ separator ∉ back := by
  obtain ⟨back, front, hsplit, hback⟩ := List.eq_append_cons_of_mem (List.mem_reverse.mpr h)
  refine ⟨front.reverse, back.reverse, ?_, by simpa using hback⟩
  rw [← List.reverse_inj, hsplit]
  simp

end

end ReleaseSeal.Text
