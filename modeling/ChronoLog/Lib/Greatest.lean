import Mathlib

/-!
# The greatest elements of a set

An index of bounded size lets its smallest elements go each time it grows past the
bound.  What it holds is then the top of everything it was ever given, however the
elements came in: an element that is gone has as many greater ones above it as the
index may hold, and keeps them.

## Main definitions

* `Greatest.IsLast n P l` — `l` lists the `n` greatest elements that meet `P`, in order.
* `Greatest.Keeps n P l` — `l` holds elements that meet `P`, and above each one that it
  lacks at least `n`.

## Main results

* `Greatest.IsLast.eq` — **there is one such list only.**
* `Greatest.Keeps.union`, `Greatest.Keeps.drop` — what elements added, and the smallest ones
  taken out, leave of it.
* `Greatest.Keeps.isLast` — the end of such a list.
-/

namespace Greatest

variable {α : Type*} [Ord α] [Std.TransOrd α] [Std.LawfulEqOrd α] {n k : ℕ}
  {P Q : α → Prop} {l l' : List α} {x : α}

/-- The list holds the `n` greatest elements that meet `P`, or all of them, in ascending
order. -/
structure IsLast (n : ℕ) (P : α → Prop) (l : List α) : Prop where
  sorted : l.Pairwise fun a b => compare a b = .lt
  length_le : l.length ≤ n
  mem : ∀ x ∈ l, P x
  top : ∀ x, P x → x ∉ l → l.length = n ∧ ∀ y ∈ l, compare x y = .lt

/-- The list holds elements that meet `P` only, and `n` elements above each one it lacks. -/
structure Keeps (n : ℕ) (P : α → Prop) (l : List α) : Prop where
  mem : ∀ x ∈ l, P x
  above : ∀ x, P x → x ∉ l → n ≤ l.countP fun y => compare x y = .lt

omit [Std.LawfulEqOrd α] in
theorem nodup_of_sorted (h : l.Pairwise fun a b => compare a b = .lt) : l.Nodup := by
  refine h.imp fun {a b} hlt heq => ?_
  rw [heq, (Std.ReflCmp.compare_self : compare b b = .eq)] at hlt
  cases hlt

namespace IsLast

omit [Std.TransOrd α] [Std.LawfulEqOrd α] in
theorem congr (h : IsLast n P l) (hPQ : ∀ x, P x ↔ Q x) : IsLast n Q l :=
  ⟨h.sorted, h.length_le, fun x hx => (hPQ x).mp (h.mem x hx),
    fun x hx => h.top x ((hPQ x).mpr hx)⟩

/-- Nothing is in one of two such lists only. -/
theorem subset (h : IsLast n P l) (h' : IsLast n P l') : l ⊆ l' := by
  intro x hx
  by_contra hnot
  obtain ⟨hfull, hbelow⟩ := h'.top x (h.mem x hx) hnot
  by_cases hsub : l' ⊆ l
  · -- the other list and `x` would be too many
    have hnodup : (x :: l').Nodup := List.nodup_cons.mpr ⟨hnot, nodup_of_sorted h'.sorted⟩
    have hlength := (hnodup.subperm (List.cons_subset.mpr ⟨hx, hsub⟩)).length_le
    have hle := h.length_le
    rw [List.length_cons] at hlength
    omega
  · obtain ⟨y, hy, hyl⟩ : ∃ y ∈ l', y ∉ l := by
      simpa only [List.subset_def, not_forall, exists_prop] using hsub
    have hyx := (h.top y (h'.mem y hy) hyl).2 x hx
    have hloop := Std.TransCmp.lt_trans (hbelow y hy) hyx
    rw [(Std.ReflCmp.compare_self : compare x x = .eq)] at hloop
    cases hloop

/-- **The list is determined by what meets `P`.** -/
theorem eq (h : IsLast n P l) (h' : IsLast n P l') : l = l' := by
  have hperm : l.Perm l' := (List.perm_ext_iff_of_nodup (nodup_of_sorted h.sorted)
    (nodup_of_sorted h'.sorted)).mpr fun x => ⟨fun hx => h.subset h' hx, fun hx => h'.subset h hx⟩
  refine hperm.eq_of_pairwise (fun a b _ _ hab hba => ?_) h.sorted h'.sorted
  have hloop := Std.TransCmp.lt_trans hab hba
  rw [(Std.ReflCmp.compare_self : compare a a = .eq)] at hloop
  cases hloop

omit [Std.TransOrd α] [Std.LawfulEqOrd α] in
theorem keeps (h : IsLast n P l) : Keeps n P l := by
  refine ⟨h.mem, fun x hx hnot => ?_⟩
  obtain ⟨hfull, habove⟩ := h.top x hx hnot
  rw [List.countP_eq_length.mpr fun y hy => decide_eq_true (habove y hy), hfull]

end IsLast

namespace Keeps

omit [Std.TransOrd α] [Std.LawfulEqOrd α]

theorem congr (h : Keeps n P l) (hPQ : ∀ x, P x ↔ Q x) : Keeps n Q l :=
  ⟨fun x hx => (hPQ x).mp (h.mem x hx), fun x hx => h.above x ((hPQ x).mpr hx)⟩

/-- A list of everything lacks nothing. -/
theorem of_mem_iff (h : ∀ x, x ∈ l ↔ P x) : Keeps n P l :=
  ⟨fun x hx => (h x).mp hx, fun x hx hnot => absurd ((h x).mpr hx) hnot⟩

/-- **What two such lists hold together.** -/
theorem union {u : List α} (h : Keeps n P l) (h' : Keeps n Q l') (hl : l.Nodup) (hl' : l'.Nodup)
    (hu : ∀ x, x ∈ u ↔ x ∈ l ∨ x ∈ l') : Keeps n (fun x => P x ∨ Q x) u := by
  refine ⟨fun x hx => ((hu x).mp hx).imp (h.mem x) (h'.mem x), fun x hx hnot => ?_⟩
  have hnone := not_or.mp (mt (hu x).mpr hnot)
  have hmore : ∀ {l : List α}, l.Nodup → (∀ y ∈ l, y ∈ u) →
      l.countP (fun y => compare x y = .lt) ≤ u.countP fun y => compare x y = .lt :=
    fun hnodup hsub => (hnodup.subperm hsub).countP_le _
  rcases hx with hx | hx
  · exact (h.above x hx hnone.1).trans (hmore hl fun y hy => (hu y).mpr (Or.inl hy))
  · exact (h'.above x hx hnone.2).trans (hmore hl' fun y hy => (hu y).mpr (Or.inr hy))

end Keeps

namespace Keeps

omit [Std.LawfulEqOrd α]

/-- **The end of such a list is the greatest elements of all.** -/
theorem isLast (h : Keeps k P l) (hsorted : l.Pairwise fun a b => compare a b = .lt)
    (hn : n ≤ k) : IsLast n P (l.drop (l.length - n)) := by
  refine ⟨hsorted.sublist (List.drop_sublist _ l), ?_,
    fun x hx => h.mem x (List.mem_of_mem_drop hx), fun x hx hnot => ?_⟩
  · rw [List.length_drop]
    omega
  · have hsplit := List.take_append_drop (l.length - n) l
    have hparts := hsorted
    rw [← hsplit, List.pairwise_append] at hparts
    by_cases hmem : x ∈ l
    · -- it is among the smaller ones
      have htake : x ∈ l.take (l.length - n) := by
        rw [← hsplit] at hmem
        exact (List.mem_append.mp hmem).resolve_right hnot
      have hpos := List.length_pos_of_mem htake
      rw [List.length_take] at hpos
      exact ⟨by rw [List.length_drop]; omega, hparts.2.2 x htake⟩
    · have habove := (hn.trans (h.above x hx hmem)).trans List.countP_le_length
      have hlength : (l.drop (l.length - n)).length = n := by
        rw [List.length_drop]
        omega
      refine ⟨hlength, fun y hy => ?_⟩
      by_contra hlt
      -- with `y` not above `x`, nothing before `y` is, and too few elements are
      have hnone : (l.take (l.length - n)).countP (fun z => compare x z = .lt) = 0 := by
        refine List.countP_eq_zero.mpr fun z hz hxz => hlt ?_
        exact Std.TransCmp.lt_trans (of_decide_eq_true hxz) (hparts.2.2 z hz y hy)
      have hfew : (l.drop (l.length - n)).countP (fun z => compare x z = .lt) <
          (l.drop (l.length - n)).length :=
        List.countP_lt_length_iff.mpr ⟨y, hy, decide_eq_false hlt⟩
      have hcount := h.above x hx hmem
      rw [← hsplit, List.countP_append, hnone] at hcount
      omega

/-- **With its smallest elements gone, the list still has `k` above each one it lacks.** -/
theorem drop (h : Keeps k P l) (hsorted : l.Pairwise fun a b => compare a b = .lt) :
    Keeps k P (l.drop (l.length - k)) :=
  (h.isLast hsorted le_rfl).keeps

end Keeps

end Greatest
