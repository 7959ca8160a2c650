import Mathlib

/-!
# Rendezvous hashing

Each candidate gets a weight, and the heaviest one is selected, on a tie the one of the
lower rank.  The candidates are compared two by two, so what is selected from a set is
selected from every part of it that has it: when a candidate goes, only its own choices
move, and when one comes, choices move to it only.

## Main definitions

* `Rendezvous.Beats` — the order in which candidates are preferred.
* `Rendezvous.select` — the scan for the preferred one.

## Main results

* `Rendezvous.select_eq_some_iff` — the candidate that beats all others.
* `Rendezvous.select_congr` — **the choice depends on the set of candidates only.**
* `Rendezvous.select_of_subset` — **the choice from a set is the choice from its parts.**
-/

namespace Rendezvous

variable {ι κ ω : Type*} [LinearOrder κ] [LinearOrder ω] {weight : ι → ω} {rank : ι → κ}
  {a b c m : ι} {l l' : List ι}

/-- A candidate is heavier than another, or as heavy and of a lower rank. -/
def Beats (weight : ι → ω) (rank : ι → κ) (a b : ι) : Prop :=
  weight b < weight a ∨ weight a = weight b ∧ rank a < rank b

instance (weight : ι → ω) (rank : ι → κ) (a b : ι) : Decidable (Beats weight rank a b) :=
  inferInstanceAs (Decidable (_ ∨ _))

/-- Keep the preferred one of what is selected so far and the next candidate. -/
def prefer (weight : ι → ω) (rank : ι → κ) : Option ι → ι → Option ι
  | none, a => some a
  | some best, a => if Beats weight rank a best then some a else some best

/-- The preferred candidate of a list. -/
def select (weight : ι → ω) (rank : ι → κ) (l : List ι) : Option ι :=
  l.foldl (prefer weight rank) none

theorem Beats.trans (h : Beats weight rank a b) (h' : Beats weight rank b c) :
    Beats weight rank a c := by
  rcases h with h | ⟨h, hab⟩
  · rcases h' with h' | ⟨h', -⟩
    · exact Or.inl (h'.trans h)
    · exact Or.inl (h' ▸ h)
  · rcases h' with h' | ⟨h', hbc⟩
    · exact Or.inl (h ▸ h')
    · exact Or.inr ⟨h.trans h', hab.trans hbc⟩

theorem Beats.irrefl (a : ι) : ¬Beats weight rank a a := by
  rintro (h | ⟨-, h⟩)
  · exact lt_irrefl _ h
  · exact lt_irrefl _ h

variable (hrank : Function.Injective rank)

include hrank

/-- Of two candidates one beats the other. -/
theorem beats_or_beats (weight : ι → ω) (h : a ≠ b) :
    Beats weight rank a b ∨ Beats weight rank b a := by
  rcases lt_trichotomy (weight a) (weight b) with hlt | heq | hgt
  · exact Or.inr (Or.inl hlt)
  · rcases lt_or_gt_of_ne (hrank.ne h) with hab | hba
    · exact Or.inl (Or.inr ⟨heq, hab⟩)
    · exact Or.inr (Or.inr ⟨heq.symm, hba⟩)
  · exact Or.inl (Or.inl hgt)

/-- A scan that has found one returns a candidate that beats all others. -/
theorem exists_foldl_prefer (weight : ι → ω) (l : List ι) (best : ι) :
    ∃ m ∈ best :: l, l.foldl (prefer weight rank) (some best) = some m ∧
      ∀ x ∈ best :: l, x ≠ m → Beats weight rank m x := by
  induction l generalizing best with
  | nil =>
    refine ⟨best, List.mem_singleton_self best, rfl, fun x hx hne => ?_⟩
    exact absurd (List.mem_singleton.mp hx) hne
  | cons a l ih =>
    rw [List.foldl_cons, prefer]
    by_cases hbeats : Beats weight rank a best
    · rw [if_pos hbeats]
      obtain ⟨m, hm, hselect, hall⟩ := ih a
      refine ⟨m, List.mem_cons_of_mem best hm, hselect, fun x hx hne => ?_⟩
      rcases List.mem_cons.mp hx with rfl | hx
      · -- the one found so far is beaten by the next candidate
        by_cases ham : a = m
        · exact ham ▸ hbeats
        · exact (hall a List.mem_cons_self ham).trans hbeats
      · exact hall x hx hne
    · rw [if_neg hbeats]
      obtain ⟨m, hm, hselect, hall⟩ := ih best
      have hmem : ∀ x ∈ best :: l, x ∈ best :: a :: l := fun x hx =>
        List.mem_cons.mpr ((List.mem_cons.mp hx).imp id (List.mem_cons_of_mem a))
      refine ⟨m, hmem m hm, hselect, fun x hx hne => ?_⟩
      rcases List.mem_cons.mp hx with rfl | hx
      · exact hall x List.mem_cons_self hne
      rcases List.mem_cons.mp hx with rfl | hx
      · by_cases hbest : x = best
        · exact hall x (hbest ▸ List.mem_cons_self) hne
        · have hover := (beats_or_beats hrank weight hbest).resolve_left hbeats
          by_cases hm' : best = m
          · exact hm' ▸ hover
          · exact (hall best List.mem_cons_self hm').trans hover
      · exact hall x (List.mem_cons_of_mem best hx) hne

/-- **The candidate that is selected beats all others.** -/
theorem select_eq_some_iff :
    select weight rank l = some m ↔ m ∈ l ∧ ∀ x ∈ l, x ≠ m → Beats weight rank m x := by
  cases l with
  | nil => simp [select]
  | cons a l =>
    obtain ⟨m', hm', hselect, hall⟩ := exists_foldl_prefer hrank weight l a
    rw [show select weight rank (a :: l) = some m' from hselect, Option.some.injEq]
    constructor
    · rintro rfl
      exact ⟨hm', hall⟩
    · rintro ⟨hm, hbest⟩
      by_contra hne
      exact Beats.irrefl m ((hbest m' hm' hne).trans (hall m hm (Ne.symm hne)))

/-- From a set that is not empty one is selected. -/
theorem exists_select (weight : ι → ω) (h : l ≠ []) :
    ∃ m ∈ l, select weight rank l = some m := by
  obtain ⟨a, l, rfl⟩ := List.exists_cons_of_ne_nil h
  obtain ⟨m, hm, hselect, -⟩ := exists_foldl_prefer hrank weight l a
  exact ⟨m, hm, hselect⟩

/-- **The choice depends on the set of candidates only**, not on their order or number. -/
theorem select_congr (h : ∀ x, x ∈ l ↔ x ∈ l') :
    select weight rank l = select weight rank l' := by
  refine Option.ext fun m => ?_
  rw [select_eq_some_iff hrank, select_eq_some_iff hrank]
  simp only [h]

/-- **The choice from a set is the choice from each part of it that has it.** -/
theorem select_of_subset (hsub : l' ⊆ l) (hm : m ∈ l') (h : select weight rank l = some m) :
    select weight rank l' = some m :=
  (select_eq_some_iff hrank).mpr
    ⟨hm, fun x hx => ((select_eq_some_iff hrank).mp h).2 x (hsub hx)⟩

/-- A candidate that is not the choice can go. -/
theorem select_filter_ne [DecidableEq ι] (h : select weight rank l ≠ some a) :
    select weight rank (l.filter fun x => x ≠ a) = select weight rank l := by
  by_cases hl : l = []
  · rw [hl]
    rfl
  · obtain ⟨m, hm, hselect⟩ := exists_select hrank weight hl
    rw [hselect]
    refine select_of_subset hrank (List.filter_sublist.subset) (List.mem_filter.mpr ⟨hm, ?_⟩)
      hselect
    rw [decide_eq_true_eq]
    rintro rfl
    exact h hselect

/-- A candidate that comes takes a choice over or leaves it. -/
theorem select_cons (a : ι) (l : List ι) :
    select weight rank (a :: l) = select weight rank l ∨ select weight rank (a :: l) = some a := by
  obtain ⟨m, hm, hselect⟩ := exists_select hrank weight (List.cons_ne_nil a l)
  rcases List.mem_cons.mp hm with rfl | hml
  · exact Or.inr hselect
  · left
    rw [hselect, select_of_subset hrank (List.subset_cons_self a l) hml hselect]

end Rendezvous
