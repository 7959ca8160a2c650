import Mathlib

/-!
# While loops

A loop with a test and a body that may fault, run for a bounded number of rounds.
A loop that ends does so for every larger bound with the same state; one that
never ends gives no state whatever the bound.

## Main definitions

* `Loop.run cond body rounds s` — the state in which the test first fails, if that
  takes at most `rounds` rounds and no round faults.

## Main results

* `Loop.run_of_variant` — **the rule for total correctness**: an invariant and a
  measure that every round lowers.
* `Loop.run_of_invariant` — what the rounds preserve holds when the loop ends.
* `Loop.run_eq_none_of_forever` — a loop whose test never fails does not end.
-/

namespace Loop

variable {σ : Type*} {cond : σ → Bool} {body : σ → Option σ} {s s' : σ} {n n' : ℕ}

/-- `while (cond) body`, cut off after `n` rounds. -/
def run (cond : σ → Bool) (body : σ → Option σ) : ℕ → σ → Option σ
  | 0, s => if cond s then none else some s
  | n + 1, s => if cond s then (body s).bind (run cond body n) else some s

theorem run_of_not (h : cond s = false) : run cond body n s = some s := by
  cases n with
  | zero => simp [run, h]
  | succ n => simp [run, h]

theorem run_succ_of_body (h : cond s = true) (hbody : body s = some s') :
    run cond body (n + 1) s = run cond body n s' := by
  simp [run, h, hbody]

/-- The bound does not matter once it is large enough. -/
theorem run_mono (h : run cond body n s = some s') (hn : n ≤ n') :
    run cond body n' s = some s' := by
  induction n generalizing s n' with
  | zero =>
    cases hc : cond s with
    | false =>
      rw [run_of_not hc] at h ⊢
      exact h
    | true => simp [run, hc] at h
  | succ n ih =>
    obtain ⟨n', rfl⟩ : ∃ m, n' = m + 1 := ⟨n' - 1, by omega⟩
    cases hc : cond s with
    | false =>
      rw [run_of_not hc] at h ⊢
      exact h
    | true =>
      simp only [run, hc, if_true, Option.bind_eq_some_iff] at h ⊢
      obtain ⟨s₁, hs₁, hrest⟩ := h
      exact ⟨s₁, hs₁, ih hrest (by omega)⟩

/-- **What the rounds preserve holds when the loop ends**, and the test fails there. -/
theorem run_of_invariant {I : σ → Prop}
    (hbody : ∀ s s', I s → cond s = true → body s = some s' → I s')
    (hs : I s) (h : run cond body n s = some s') : I s' ∧ cond s' = false := by
  induction n generalizing s with
  | zero =>
    cases hc : cond s with
    | false =>
      rw [run_of_not hc, Option.some.injEq] at h
      exact h ▸ ⟨hs, hc⟩
    | true => simp [run, hc] at h
  | succ n ih =>
    cases hc : cond s with
    | false =>
      rw [run_of_not hc, Option.some.injEq] at h
      exact h ▸ ⟨hs, hc⟩
    | true =>
      simp only [run, hc, if_true, Option.bind_eq_some_iff] at h
      obtain ⟨s₁, hs₁, hrest⟩ := h
      exact ih (hbody s s₁ hs hc hs₁) hrest

/-- **Total correctness**: the rounds keep an invariant and lower a measure, so the
loop ends within that many rounds. -/
theorem run_of_variant {I : σ → Prop} (μ : σ → ℕ)
    (hbody : ∀ s, I s → cond s = true → ∃ s', body s = some s' ∧ I s' ∧ μ s' < μ s)
    (hs : I s) : ∃ s', run cond body (μ s) s = some s' ∧ I s' ∧ cond s' = false := by
  generalize hn : μ s = n
  induction n using Nat.strong_induction_on generalizing s with
  | _ n ih =>
    cases hc : cond s with
    | false => exact ⟨s, run_of_not hc, hs, hc⟩
    | true =>
      obtain ⟨s₁, hs₁, hI, hlt⟩ := hbody s hs hc
      obtain ⟨s', hrun, hI', hc'⟩ := ih (μ s₁) (hn ▸ hlt) hI rfl
      refine ⟨s', ?_, hI', hc'⟩
      obtain ⟨m, rfl⟩ : ∃ m, n = m + 1 := ⟨n - 1, by omega⟩
      rw [run_succ_of_body hc hs₁]
      exact run_mono hrun (by omega)

/-- **A loop whose test never fails does not end.** -/
theorem run_eq_none_of_forever {I : σ → Prop} (hcond : ∀ s, I s → cond s = true)
    (hbody : ∀ s s', I s → body s = some s' → I s') (hs : I s) (n : ℕ) :
    run cond body n s = none := by
  rw [Option.eq_none_iff_forall_ne_some]
  intro s' h
  obtain ⟨hI, hc⟩ := run_of_invariant (fun s s' hs _ h => hbody s s' hs h) hs h
  rw [hcond s' hI] at hc
  cases hc

end Loop
