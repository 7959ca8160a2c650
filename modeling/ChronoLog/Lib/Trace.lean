import Mathlib

/-!
# Traces

A trace is the list of what has happened, the newest event last.  That some
events have happened in a given order is that their list is a sublist of the
trace.

## Main results

* `concat_sublist_concat` — events in order, after one more event.
* `concat_sublist_append` — the same after any number of events of which none is
  the last one in question.
-/

namespace Trace

variable {ε : Type*} {xs l : List ε} {x e : ε}

/-- Events in order after one more event: they were there before, or the new event
is the last of them. -/
theorem concat_sublist_concat :
    (xs ++ [x]).Sublist (l ++ [e]) ↔ (xs ++ [x]).Sublist l ∨ (x = e ∧ xs.Sublist l) := by
  rw [← List.reverse_sublist, List.reverse_append, List.reverse_append]
  simp only [List.reverse_cons, List.reverse_nil, List.nil_append, List.singleton_append]
  constructor
  · intro h
    cases h with
    | cons _ h =>
      left
      rw [← List.reverse_sublist, List.reverse_append]
      exact h
    | cons_cons _ h => exact .inr ⟨rfl, List.reverse_sublist.mp h⟩
  · rintro (h | ⟨rfl, h⟩)
    · rw [← List.reverse_sublist, List.reverse_append] at h
      exact h.cons e
    · exact (List.reverse_sublist.mpr h).cons_cons x

/-- Events of which the last one is not among those that come. -/
theorem concat_sublist_append {es : List ε} (h : x ∉ es) :
    (xs ++ [x]).Sublist (l ++ es) ↔ (xs ++ [x]).Sublist l := by
  induction es generalizing l with
  | nil => rw [List.append_nil]
  | cons e es ih =>
    rw [List.mem_cons, not_or] at h
    rw [List.append_cons l e es, ih h.2, concat_sublist_concat, or_iff_left fun hx => h.1 hx.1]

end Trace
