import Mathlib.Data.List.TakeWhile
import ReleaseSeal.Text.Blank

/-!
# Trimming

A text without the characters of a class at its ends: what is cut off are such characters, and what is
left neither starts nor ends with one. Nothing is left exactly if the text has no other characters.

## Key results

- `isTrimmed_trimList` / `IsTrimmed.eq_trimList`: what trimming leaves
- `trimList_eq_nil_iff` / `strip_eq_empty_iff`: when it leaves nothing
-/

namespace ReleaseSeal.Text

/-- A text without the characters of a class at its ends. -/
structure IsTrimmed (p : Char → Bool) (cs trimmed : List Char) : Prop where
  split : ∃ front back, cs = front ++ trimmed ++ back ∧ (∀ c ∈ front, p c = true) ∧
    ∀ c ∈ back, p c = true
  head : ∀ c, trimmed.head? = some c → p c = false
  last : ∀ c, trimmed.getLast? = some c → p c = false

variable {p : Char → Bool} {cs trimmed : List Char}

/-- The first character that is left of a run is not in the class. -/
theorem head?_dropWhile_eq_false {c : Char} (h : (cs.dropWhile p).head? = some c) : p c = false := by
  have hhead := List.head?_dropWhile_not p cs
  rwa [h] at hhead

theorem isTrimmed_trimList (p : Char → Bool) (cs : List Char) : IsTrimmed p cs (trimList p cs) := by
  have hback (xs : List Char) :
      xs = (xs.reverse.dropWhile p).reverse ++ (xs.reverse.takeWhile p).reverse := by
    rw [← List.reverse_append, List.takeWhile_append_dropWhile, List.reverse_reverse]
  refine ⟨⟨cs.takeWhile p, ((cs.dropWhile p).reverse.takeWhile p).reverse, ?_, ?_, ?_⟩, ?_, ?_⟩
  · rw [trimList, List.append_assoc, ← hback, List.takeWhile_append_dropWhile]
  · intro c hc
    exact List.mem_takeWhile_imp hc
  · intro c hc
    exact List.mem_takeWhile_imp (List.mem_reverse.mp hc)
  · intro c hc
    -- what is cut off at the end leaves the first character in place
    have hfirst : (cs.dropWhile p).head? = some c := by
      rw [hback (cs.dropWhile p), ← trimList, List.head?_append, hc, Option.some_or]
    exact head?_dropWhile_eq_false hfirst
  · intro c hc
    rw [trimList, List.getLast?_reverse] at hc
    exact head?_dropWhile_eq_false hc

/-- Nothing is left exactly of what has only characters of the class. -/
theorem IsTrimmed.eq_nil_iff (h : IsTrimmed p cs trimmed) :
    trimmed = [] ↔ ∀ c ∈ cs, p c = true := by
  obtain ⟨front, back, rfl, hfront, hback⟩ := h.split
  constructor
  · rintro rfl c hc
    rw [List.append_nil] at hc
    exact (List.mem_append.mp hc).elim (hfront c) (hback c)
  · intro hall
    cases trimmed with
    | nil => rfl
    | cons c rest =>
      have hc : p c = false := h.head c rfl
      rw [hall c (by simp)] at hc
      exact nomatch hc

/-- Trimming has one result. -/
theorem IsTrimmed.eq_trimList (h : IsTrimmed p cs trimmed) : trimmed = trimList p cs := by
  cases trimmed with
  | nil => exact ((isTrimmed_trimList p cs).eq_nil_iff.mpr (h.eq_nil_iff.mp rfl)).symm
  | cons c rest =>
    obtain ⟨front, back, rfl, hfront, hback⟩ := h.split
    have hc : ¬p c = true := by simp [h.head c rfl]
    -- the front is passed over from the start, and then the back from the end
    have hstart : (front ++ (c :: rest) ++ back).dropWhile p = c :: rest ++ back := by
      rw [List.append_assoc, List.dropWhile_append_of_pos hfront, List.cons_append,
        List.dropWhile_cons_of_neg hc]
    have hlast : (c :: rest).reverse.dropWhile p = (c :: rest).reverse := by
      rw [List.dropWhile_eq_self_iff]
      intro hlength
      have hlast := h.last _ (List.getLast?_eq_some_getLast (List.cons_ne_nil c rest))
      rw [List.getElem_zero, List.head_reverse, hlast]
      exact Bool.false_ne_true
    rw [trimList, hstart, List.reverse_append,
      List.dropWhile_append_of_pos fun e he => hback e (List.mem_reverse.mp he), hlast,
      List.reverse_reverse]

theorem trimList_eq_nil_iff : trimList p cs = [] ↔ ∀ c ∈ cs, p c = true :=
  (isTrimmed_trimList p cs).eq_nil_iff

/-- Nothing is left exactly of a text of white space. -/
theorem strip_eq_empty_iff {s : String} : strip s = "" ↔ ∀ c ∈ s.toList, isBlank c = true := by
  rw [strip, String.ofList_eq_empty_iff, trimList_eq_nil_iff]

end ReleaseSeal.Text
