import Mathlib

/-!
# Chains of half-open intervals

How far a set of intervals `[s, e)` carries a point: from `t`, an interval that
starts no later than `t` leads to its end, so intervals that overlap or touch
are chained and a gap stops the chain.

## Main definitions

* `Advances I t u` — one interval of `I` leads from `t` to `u`.
* `Reaches I t u` — a chain of intervals of `I` leads from `t` to `u`.

## Main results

* `Reaches.isGreatest` — a point that is reached and that no interval leads
  past is the greatest one reached.
* `Reaches.covered` — every point between the start of a chain and its end lies
  in an interval of it.
-/

namespace Intervals

variable {α : Type*} [LinearOrder α] {I J : Set (α × α)} {t u w : α}

/-- An interval of `I` that starts no later than `t` ends in `u`. -/
def Advances (I : Set (α × α)) (t u : α) : Prop := ∃ s ≤ t, (s, u) ∈ I

/-- A chain of intervals of `I` leads from `t` to `u`. -/
def Reaches (I : Set (α × α)) : α → α → Prop := Relation.ReflTransGen (Advances I)

theorem Advances.mono (h : Advances I t u) (hIJ : I ⊆ J) : Advances J t u := by
  obtain ⟨s, hs, hmem⟩ := h
  exact ⟨s, hs, hIJ hmem⟩

theorem Reaches.refl : Reaches I t t := Relation.ReflTransGen.refl

theorem Reaches.trans (h : Reaches I t u) (h' : Reaches I u w) : Reaches I t w :=
  Relation.ReflTransGen.trans h h'

theorem Reaches.mono (h : Reaches I t u) (hIJ : I ⊆ J) : Reaches J t u :=
  Relation.ReflTransGen.mono (fun _ _ hadv => Advances.mono hadv hIJ) t u h

theorem Advances.reaches (h : Advances I t u) : Reaches I t u := Relation.ReflTransGen.single h

/-- A chain that starts at or below a point no interval leads past stays there. -/
theorem Reaches.le_of_closed (h : Reaches I t u) (htw : t ≤ w)
    (hclosed : ∀ i ∈ I, i.1 ≤ w → i.2 ≤ w) : u ≤ w := by
  induction h with
  | refl => exact htw
  | tail _ hadv ih =>
    obtain ⟨s, hs, hmem⟩ := hadv
    exact hclosed _ hmem (hs.trans ih)

/-- **A point that is reached and that no interval leads past is the greatest
one reached.** -/
theorem Reaches.isGreatest (h : Reaches I t w) (htw : t ≤ w)
    (hclosed : ∀ i ∈ I, i.1 ≤ w → i.2 ≤ w) : IsGreatest {u | Reaches I t u} w :=
  ⟨h, fun _ hu => Reaches.le_of_closed hu htw hclosed⟩

/-- **No gap is passed**: a point from the start of a chain up to its end lies in
an interval. -/
theorem Reaches.covered (h : Reaches I t u) {x : α} (htx : t ≤ x) (hxu : x < u) :
    ∃ i ∈ I, i.1 ≤ x ∧ x < i.2 := by
  induction h with
  | refl => exact absurd htx (not_le.mpr hxu)
  | @tail b c _ hadv ih =>
    by_cases hxb : x < b
    · exact ih hxb
    · obtain ⟨s, hs, hmem⟩ := hadv
      exact ⟨(s, c), hmem, hs.trans (not_lt.mp hxb), hxu⟩

end Intervals
