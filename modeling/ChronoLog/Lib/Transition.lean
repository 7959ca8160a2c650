import Mathlib

/-!
# Labelled transition systems with an executable step

A system has a predicate on its initial states and a partial step function: a
label carries everything the environment chooses at that step, so a run is a
list of labels and can be replayed by evaluation.

## Main definitions

* `System.run` — the state a list of labels leads to, if every step is enabled.
* `System.Reachable` — the states some run from an initial state leads to.
* `System.StepsMeet` — every step of a run meets a condition on the state
  before it and its label.
* `System.Each` — every step of a run leads to a state that is related to the one before.

## Main results

* `System.run_induction` — what every step preserves, every run preserves.
* `System.Reachable.induction` — the invariant rule.
* `System.run_induction_of_stepsMeet` — the same for the runs whose steps all
  meet a condition.
-/

namespace Transition

/-- A labelled transition system with an executable step. -/
structure System (σ ℓ : Type*) where
  /-- The states a run may start in. -/
  Initial : σ → Prop
  /-- The state after a step, or `none` where the step is not enabled. -/
  step : σ → ℓ → Option σ

namespace System

variable {σ ℓ : Type*} (M : System σ ℓ)

/-- The state the labels lead to. -/
def run : σ → List ℓ → Option σ
  | s, [] => some s
  | s, l :: ls => (M.step s l).bind fun s' => run s' ls

/-- The states that some run from an initial state leads to. -/
def Reachable (s : σ) : Prop := ∃ s₀ ls, M.Initial s₀ ∧ M.run s₀ ls = some s

/-- Every step of the run meets `cond`, read on the state before the step. -/
def StepsMeet (cond : σ → ℓ → Prop) : σ → List ℓ → Prop
  | _, [] => True
  | s, l :: ls => cond s l ∧ ∀ s', M.step s l = some s' → StepsMeet cond s' ls

/-- Every step of the run leads to a state that is related to the one before it. -/
def Each (R : σ → σ → Prop) : σ → List ℓ → Prop
  | _, [] => True
  | s, l :: ls => ∀ s', M.step s l = some s' → R s s' ∧ Each R s' ls

/-- The check that every step of a run meets a decidable condition. -/
def checkSteps (cond : σ → ℓ → Prop) [∀ s l, Decidable (cond s l)] : σ → List ℓ → Bool
  | _, [] => true
  | s, l :: ls =>
    decide (cond s l) &&
      match M.step s l with
      | none => true
      | some s' => checkSteps cond s' ls

variable {M}

@[simp] theorem run_nil (s : σ) : M.run s [] = some s := rfl

theorem run_cons_eq_some {s s'' : σ} {l : ℓ} {ls : List ℓ} :
    M.run s (l :: ls) = some s'' ↔ ∃ s', M.step s l = some s' ∧ M.run s' ls = some s'' := by
  simp only [run, Option.bind_eq_some_iff]

theorem run_append (s : σ) (ls ls' : List ℓ) :
    M.run s (ls ++ ls') = (M.run s ls).bind fun s' => M.run s' ls' := by
  induction ls generalizing s with
  | nil => rfl
  | cons l ls ih =>
    simp only [List.cons_append, run]
    cases M.step s l with
    | none => rfl
    | some s' => exact ih s'

theorem StepsMeet.of_append {cond : σ → ℓ → Prop} {s : σ} {ls ls' : List ℓ}
    (h : M.StepsMeet cond s (ls ++ ls')) : M.StepsMeet cond s ls := by
  induction ls generalizing s with
  | nil => exact trivial
  | cons l ls ih => exact ⟨h.1, fun s' hs' => ih (h.2 s' hs')⟩

theorem StepsMeet.append {cond : σ → ℓ → Prop} {s s' : σ} {ls ls' : List ℓ}
    (h : M.StepsMeet cond s ls) (hrun : M.run s ls = some s') (h' : M.StepsMeet cond s' ls') :
    M.StepsMeet cond s (ls ++ ls') := by
  induction ls generalizing s with
  | nil =>
    rw [run_nil, Option.some.injEq] at hrun
    exact hrun ▸ h'
  | cons l ls ih =>
    obtain ⟨s₁, h₁, hrest⟩ := run_cons_eq_some.mp hrun
    refine ⟨h.1, fun s₂ h₂ => ?_⟩
    rw [h₁, Option.some.injEq] at h₂
    exact h₂ ▸ ih (h₂ ▸ h.2 s₁ h₁) (h₂ ▸ hrest)

theorem StepsMeet.after {cond : σ → ℓ → Prop} {s s' : σ} {ls ls' : List ℓ}
    (h : M.StepsMeet cond s (ls ++ ls')) (hrun : M.run s ls = some s') :
    M.StepsMeet cond s' ls' := by
  induction ls generalizing s with
  | nil =>
    rw [run_nil, Option.some.injEq] at hrun
    exact hrun ▸ h
  | cons l ls ih =>
    obtain ⟨s₁, h₁, hrest⟩ := run_cons_eq_some.mp hrun
    exact ih (h.2 s₁ h₁) hrest

/-- **Where a condition says exactly which steps are related, the runs whose steps are all
related are those whose steps all meet it.** -/
theorem each_iff_stepsMeet {R : σ → σ → Prop} {cond : σ → ℓ → Prop}
    (hstep : ∀ s l s', M.step s l = some s' → (R s s' ↔ cond s l)) {s s' : σ} {ls : List ℓ}
    (hrun : M.run s ls = some s') : M.Each R s ls ↔ M.StepsMeet cond s ls := by
  induction ls generalizing s with
  | nil => exact Iff.rfl
  | cons l ls ih =>
    obtain ⟨s₁, h₁, hrest⟩ := run_cons_eq_some.mp hrun
    have honly : ∀ s₂, M.step s l = some s₂ → s₂ = s₁ := fun s₂ h₂ =>
      Option.some.inj (h₂.symm.trans h₁)
    constructor
    · intro h
      refine ⟨(hstep s l s₁ h₁).mp (h s₁ h₁).1, fun s₂ h₂ => ?_⟩
      rw [honly s₂ h₂]
      exact (ih hrest).mp (h s₁ h₁).2
    · intro h s₂ h₂
      rw [honly s₂ h₂]
      exact ⟨(hstep s l s₁ h₁).mpr h.1, (ih hrest).mpr (h.2 s₁ h₁)⟩

/-- A condition on the labels alone can be read along with one on the states. -/
theorem StepsMeet.and_of_forall {cond : σ → ℓ → Prop} {q : ℓ → Prop} {s : σ} {ls : List ℓ}
    (h : M.StepsMeet cond s ls) (hq : ∀ l ∈ ls, q l) :
    M.StepsMeet (fun s l => q l ∧ cond s l) s ls := by
  induction ls generalizing s with
  | nil => exact trivial
  | cons l ls ih =>
    rw [List.forall_mem_cons] at hq
    exact ⟨⟨hq.1, h.1⟩, fun s' hs' => ih (h.2 s' hs') hq.2⟩

theorem stepsMeet_of_check {cond : σ → ℓ → Prop} [∀ s l, Decidable (cond s l)] {s : σ}
    {ls : List ℓ} (h : M.checkSteps cond s ls = true) : M.StepsMeet cond s ls := by
  induction ls generalizing s with
  | nil => exact trivial
  | cons l ls ih =>
    simp only [checkSteps, Bool.and_eq_true, decide_eq_true_eq] at h
    refine ⟨h.1, fun s' hs' => ih ?_⟩
    simpa only [hs'] using h.2

/-- **What every step that meets the condition preserves, every run whose steps
all meet it preserves.** -/
theorem run_induction_of_stepsMeet {cond : σ → ℓ → Prop} {P : σ → Prop}
    (hstep : ∀ s l s', P s → cond s l → M.step s l = some s' → P s')
    {s s' : σ} {ls : List ℓ} (hs : P s) (hcond : M.StepsMeet cond s ls)
    (hrun : M.run s ls = some s') : P s' := by
  induction ls generalizing s with
  | nil =>
    rw [run_nil, Option.some.injEq] at hrun
    exact hrun ▸ hs
  | cons l ls ih =>
    obtain ⟨s₁, h₁, hrest⟩ := run_cons_eq_some.mp hrun
    exact ih (hstep s l s₁ hs hcond.1 h₁) (hcond.2 s₁ h₁) hrest

/-- **What every step preserves, every run preserves.** -/
theorem run_induction {P : σ → Prop} (hstep : ∀ s l s', P s → M.step s l = some s' → P s')
    {s s' : σ} {ls : List ℓ} (hs : P s) (hrun : M.run s ls = some s') : P s' := by
  induction ls generalizing s with
  | nil =>
    rw [run_nil, Option.some.injEq] at hrun
    exact hrun ▸ hs
  | cons l ls ih =>
    obtain ⟨s₁, h₁, hrest⟩ := run_cons_eq_some.mp hrun
    exact ih (hstep s l s₁ hs h₁) hrest

/-- The invariant rule: what holds initially and is preserved by every step
holds in every reachable state. -/
theorem Reachable.induction {P : σ → Prop} (hinit : ∀ s, M.Initial s → P s)
    (hstep : ∀ s l s', P s → M.step s l = some s' → P s') {s : σ} (hs : M.Reachable s) :
    P s := by
  obtain ⟨s₀, ls, h₀, hrun⟩ := hs
  exact run_induction hstep (hinit s₀ h₀) hrun

/-- A step from a reachable state leads to one. -/
theorem Reachable.step {s s' : σ} {l : ℓ} (hs : M.Reachable s) (h : M.step s l = some s') :
    M.Reachable s' := by
  obtain ⟨s₀, ls, h₀, hrun⟩ := hs
  refine ⟨s₀, ls ++ [l], h₀, ?_⟩
  rw [run_append, hrun, Option.bind_some, run, h]
  rfl

end System

end Transition
