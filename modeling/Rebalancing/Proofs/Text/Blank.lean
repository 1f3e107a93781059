-- SUMMARY: What trimming leaves of a text: the one stretch between white space at whose ends there is none.
import Mathlib
import Rebalancing.Text.Blank

/-!
# Trimmed text
-/

namespace Rebalancing

namespace Text

/-- `s` is `t` between white space, and neither end of `t` is white space. -/
structure Trimmed (s t : List Char) : Prop where
  exists_blanks : ∃ front back, s = front ++ (t ++ back) ∧
    (∀ c ∈ front, isBlank c = true) ∧ ∀ c ∈ back, isBlank c = true
  head_not_blank : ∀ c ∈ t.head?, isBlank c = false
  last_not_blank : ∀ c ∈ t.getLast?, isBlank c = false

theorem trim_eq (s : List Char) : trim s = (s.dropWhile isBlank).rdropWhile isBlank := rfl

theorem trimmed_trim (s : List Char) : Trimmed s (trim s) where
  exists_blanks := by
    refine ⟨s.takeWhile isBlank, (s.dropWhile isBlank).rtakeWhile isBlank, ?_,
      fun c hc => List.mem_takeWhile_imp hc, fun c hc => List.mem_rtakeWhile_imp hc⟩
    rw [trim_eq, List.rdropWhile_append_rtakeWhile, List.takeWhile_append_dropWhile]
  head_not_blank c hc := by
    -- What is left begins as it did before its end was dropped.
    obtain ⟨back, hback⟩ : trim s <+: s.dropWhile isBlank := List.rdropWhile_prefix isBlank _
    have hhead : (s.dropWhile isBlank).head? = some c := by
      rw [← hback, List.head?_append, Option.mem_def.mp hc, Option.some_or]
    have hstop := List.head?_dropWhile_not isBlank s
    rwa [hhead] at hstop
  last_not_blank c hc := by
    obtain ⟨hne, rfl⟩ := List.mem_getLast?_eq_getLast hc
    exact Bool.not_eq_true _ ▸ List.rdropWhile_last_not isBlank _ hne

theorem dropWhile_isBlank_of_head {s : List Char} (h : ∀ c ∈ s.head?, isBlank c = false) :
    s.dropWhile isBlank = s := by
  cases s with
  | nil => rfl
  | cons c cs =>
    have hc : ¬ isBlank c = true := by simp [h c rfl]
    rw [List.dropWhile_cons, if_neg hc]

/-- Trimming leaves that stretch, and there is no other one. -/
theorem trimmed_iff {s t : List Char} : Trimmed s t ↔ t = trim s := by
  constructor
  · intro h
    obtain ⟨front, back, rfl, hfront, hback⟩ := h.exists_blanks
    rw [trim, List.dropWhile_append_of_pos hfront]
    cases t with
    | nil =>
      have hnone : back.dropWhile isBlank = [] := List.dropWhile_eq_nil_iff.mpr hback
      rw [List.nil_append, hnone]
      rfl
    | cons c cs =>
      have hfirst : ∀ d ∈ (c :: cs ++ back).head?, isBlank d = false := h.head_not_blank
      have hlast : ∀ d ∈ (c :: cs).reverse.head?, isBlank d = false := by
        rw [List.head?_reverse]
        exact h.last_not_blank
      have hback' : ∀ d ∈ back.reverse, isBlank d = true := by simpa using hback
      rw [dropWhile_isBlank_of_head hfirst, List.reverse_append,
        List.dropWhile_append_of_pos hback', dropWhile_isBlank_of_head hlast, List.reverse_reverse]
  · rintro rfl
    exact trimmed_trim s

end Text

end Rebalancing
