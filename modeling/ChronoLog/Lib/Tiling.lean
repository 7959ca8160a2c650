import Mathlib

/-!
# Divisions of a line into consecutive cells

A division of a linear order into half-open cells `[start, stop)`, each of which
begins where the one before it stops.  A run of consecutive cells is known by the
set of its cells' starts.

## Main definitions

* `Tiling` — a division into cells, given by the cell of each point.
* `Tiling.IsStart` — the points at which a cell begins.
* `Tiling.starts lo hi` — the starts of the cells from `lo` up to `hi`.
* `Tiling.every` — cells of one length; `Tiling.join` — one division up to a point and
  another from there on.

## Main results

* `Tiling.stop_le_of_lt` — a cell stops no later than the next one begins.
* `Tiling.start_mem_starts` — the cells of a run cover its range.
* `Tiling.starts_append`, `Tiling.starts_prepend`, `Tiling.starts_tail` — a run with
  one more cell at its end or at its beginning, and without its first cell.
-/

/-- A division of a line into consecutive cells: the cell of `t` is `[start t, stop t)`. -/
structure Tiling (α : Type*) [LinearOrder α] where
  start : α → α
  stop : α → α
  start_le : ∀ t, start t ≤ t
  lt_stop : ∀ t, t < stop t
  start_eq : ∀ t u, start t ≤ u → u < stop t → start u = start t
  stop_eq : ∀ t u, start t ≤ u → u < stop t → stop u = stop t
  start_stop : ∀ t, start (stop t) = stop t

namespace Tiling

variable {α : Type*} [LinearOrder α] (G : Tiling α) {t u k lo hi : α}

/-- A cell begins here. -/
def IsStart (t : α) : Prop := G.start t = t

instance : Decidable (G.IsStart t) := inferInstanceAs (Decidable (_ = _))

theorem isStart_start (t : α) : G.IsStart (G.start t) :=
  G.start_eq t (G.start t) le_rfl ((G.start_le t).trans_lt (G.lt_stop t))

theorem isStart_stop (t : α) : G.IsStart (G.stop t) := G.start_stop t

/-- The start of a cell stops where the cell does. -/
theorem stop_start (t : α) : G.stop (G.start t) = G.stop t :=
  G.stop_eq t (G.start t) le_rfl ((G.start_le t).trans_lt (G.lt_stop t))

variable {G}

/-- A cell stops no later than a later one begins. -/
theorem stop_le_of_lt (hk : G.IsStart k) (h : t < k) : G.stop t ≤ k := by
  by_contra hlt
  have hstart : G.start k = G.start t :=
    G.start_eq t k ((G.start_le t).trans h.le) (not_le.mp hlt)
  rw [hk] at hstart
  exact absurd (G.start_le t) (not_le.mpr (hstart ▸ h))

/-- A cell that begins no later than a point, begins no later than the point's cell. -/
theorem le_start_of_le (hk : G.IsStart k) (h : k ≤ t) : k ≤ G.start t := by
  by_contra hlt
  have hstop := stop_le_of_lt hk (not_le.mp hlt)
  rw [stop_start] at hstop
  exact absurd (G.lt_stop t) (not_lt.mpr (hstop.trans h))

/-- The cell of a point is the one that holds it. -/
theorem start_eq_of_mem (hk : G.IsStart k) (h : k ≤ t) (ht : t < G.stop k) : G.start t = k := by
  refine (G.start_eq k t ?_ ht).trans hk
  exact (G.start_le k).trans h

theorem stop_eq_of_mem (h : k ≤ t) (ht : t < G.stop k) : G.stop t = G.stop k :=
  G.stop_eq k t ((G.start_le k).trans h) ht

variable (G)

/-- The starts of the cells from `lo` up to `hi`. -/
def starts (lo hi : α) : Set α := {k | G.IsStart k ∧ lo ≤ k ∧ k < hi}

variable {G}

theorem mem_starts : k ∈ G.starts lo hi ↔ G.IsStart k ∧ lo ≤ k ∧ k < hi := Iff.rfl

/-- **The cells of a run cover its range.** -/
theorem start_mem_starts (hlo : G.IsStart lo) (h : lo ≤ t) (h' : t < hi) :
    G.start t ∈ G.starts lo hi :=
  ⟨G.isStart_start t, le_start_of_le hlo h, (G.start_le t).trans_lt h'⟩

/-- A run with one more cell at its end. -/
theorem starts_append (hhi : G.IsStart hi) (h : lo ≤ hi) :
    G.starts lo (G.stop hi) = insert hi (G.starts lo hi) := by
  ext k
  simp only [Set.mem_insert_iff, mem_starts]
  constructor
  · rintro ⟨hk, hlo, hlt⟩
    rcases lt_trichotomy k hi with hkhi | rfl | hkhi
    · exact Or.inr ⟨hk, hlo, hkhi⟩
    · exact Or.inl rfl
    · exact absurd (stop_le_of_lt hk hkhi) (not_le.mpr hlt)
  · rintro (rfl | ⟨hk, hlo, hlt⟩)
    · exact ⟨hhi, h, G.lt_stop k⟩
    · exact ⟨hk, hlo, hlt.trans (G.lt_stop hi)⟩

/-- A run with one more cell before its first. -/
theorem starts_prepend (hk : G.IsStart k) (hstop : G.stop k = lo) (h : lo ≤ hi) :
    G.starts k hi = insert k (G.starts lo hi) := by
  have hklo : k < lo := hstop ▸ G.lt_stop k
  ext u
  simp only [Set.mem_insert_iff, mem_starts]
  constructor
  · rintro ⟨hu, hle, hlt⟩
    rcases hle.eq_or_lt with rfl | hlt'
    · exact Or.inl rfl
    · exact Or.inr ⟨hu, hstop ▸ stop_le_of_lt hu hlt', hlt⟩
  · rintro (rfl | ⟨hu, hle, hlt⟩)
    · exact ⟨hk, le_rfl, hklo.trans_le h⟩
    · exact ⟨hu, hklo.le.trans hle, hlt⟩

/-- A run without its first cell. -/
theorem starts_tail : G.starts (G.stop lo) hi = G.starts lo hi \ {lo} := by
  ext k
  simp only [Set.mem_sdiff, Set.mem_singleton_iff, mem_starts]
  constructor
  · rintro ⟨hk, hle, hlt⟩
    have hne := (G.lt_stop lo).trans_le hle
    exact ⟨⟨hk, hne.le, hlt⟩, hne.ne'⟩
  · rintro ⟨⟨hk, hle, hlt⟩, hne⟩
    exact ⟨hk, stop_le_of_lt hk (lt_of_le_of_ne hle (Ne.symm hne)), hlt⟩

/-- Cells of one length. -/
def every (g : ℕ) (hg : 0 < g) : Tiling ℕ where
  start t := t / g * g
  stop t := (t / g + 1) * g
  start_le t := Nat.div_mul_le_self t g
  lt_stop t := Nat.lt_mul_of_div_lt (Nat.lt_succ_self _) hg
  start_eq t u h h' := by
    have hle : t / g ≤ u / g := (Nat.le_div_iff_mul_le hg).mpr h
    have hlt : u / g < t / g + 1 := (Nat.div_lt_iff_lt_mul hg).mpr h'
    rw [show u / g = t / g by omega]
  stop_eq t u h h' := by
    have hle : t / g ≤ u / g := (Nat.le_div_iff_mul_le hg).mpr h
    have hlt : u / g < t / g + 1 := (Nat.div_lt_iff_lt_mul hg).mpr h'
    rw [show u / g = t / g by omega]
  start_stop t := by rw [Nat.mul_div_cancel _ hg]

theorem isStart_every {g t : ℕ} {hg : 0 < g} : (every g hg).IsStart t ↔ g ∣ t := by
  constructor
  · intro h
    exact ⟨t / g, by rw [Nat.mul_comm]; exact h.symm⟩
  · intro h
    exact Nat.div_mul_cancel h

theorem stop_every {g t : ℕ} {hg : 0 < g} (h : g ∣ t) : (every g hg).stop t = t + g := by
  obtain ⟨q, rfl⟩ := h
  change (g * q / g + 1) * g = g * q + g
  rw [Nat.mul_div_cancel_left _ hg, Nat.add_mul, Nat.mul_comm, Nat.one_mul]

/-- One division up to a common start and another from there on. -/
def join (A B : Tiling α) (c : α) (hA : A.IsStart c) (hB : B.IsStart c) : Tiling α where
  start t := if t < c then A.start t else B.start t
  stop t := if t < c then A.stop t else B.stop t
  start_le t := by
    split
    · exact A.start_le t
    · exact B.start_le t
  lt_stop t := by
    split
    · exact A.lt_stop t
    · exact B.lt_stop t
  start_eq t u h h' := by
    by_cases htc : t < c
    · rw [if_pos htc] at h h' ⊢
      rw [if_pos (h'.trans_le (stop_le_of_lt hA htc))]
      exact A.start_eq t u h h'
    · rw [if_neg htc] at h h' ⊢
      rw [if_neg (not_lt.mpr ((le_start_of_le hB (not_lt.mp htc)).trans h))]
      exact B.start_eq t u h h'
  stop_eq t u h h' := by
    by_cases htc : t < c
    · rw [if_pos htc] at h h' ⊢
      rw [if_pos (h'.trans_le (stop_le_of_lt hA htc))]
      exact A.stop_eq t u h h'
    · rw [if_neg htc] at h h' ⊢
      rw [if_neg (not_lt.mpr ((le_start_of_le hB (not_lt.mp htc)).trans h))]
      exact B.stop_eq t u h h'
  start_stop t := by
    by_cases htc : t < c
    · rw [if_pos htc]
      rcases (stop_le_of_lt hA htc).lt_or_eq with hlt | heq
      · rw [if_pos hlt]
        exact A.start_stop t
      · rw [heq, if_neg (lt_irrefl c)]
        exact hB
    · rw [if_neg htc, if_neg (not_lt.mpr ((not_lt.mp htc).trans (B.lt_stop t).le))]
      exact B.start_stop t

section Join

variable {A B : Tiling α} {c : α} {hA : A.IsStart c} {hB : B.IsStart c}

theorem isStart_join_of_lt (h : t < c) : (join A B c hA hB).IsStart t ↔ A.IsStart t := by
  change (if t < c then A.start t else B.start t) = t ↔ _
  rw [if_pos h]
  rfl

theorem isStart_join_of_le (h : c ≤ t) : (join A B c hA hB).IsStart t ↔ B.IsStart t := by
  change (if t < c then A.start t else B.start t) = t ↔ _
  rw [if_neg (not_lt.mpr h)]
  rfl

theorem stop_join_of_lt (h : t < c) : (join A B c hA hB).stop t = A.stop t := if_pos h

theorem stop_join_of_le (h : c ≤ t) : (join A B c hA hB).stop t = B.stop t :=
  if_neg (not_lt.mpr h)

end Join

end Tiling
