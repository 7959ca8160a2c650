import ChronoLog.Lib.Transition

/-!
# Threads that share a state

A thread is a program of atomic actions on a shared state.  An action reads a
choice of the environment (the scheduler, the clock, the devices), may be
blocked, and hands a value to the rest of the program.  Programs are proved by
rely and guarantee: a program is safe from a state when, whatever the other
threads do between its actions, each action keeps the guarantee and the
postcondition holds at the end.

## Main definitions

* `Prog` — the programs, with their `Monad` instance.
* `Prog.Safe`, `Prog.Triple` — safety from one state, and from every state that
  meets a precondition.
* `Prog.Always` — every action of a program stays within a relation.
* `Prog.Runs` — the whole runs of a program among others.
* `Prog.Ensures` — what a program that runs alone passes through and ends in.
* `Pool` — a state with one program per thread; `Pool.System` its runs.

## Main results

* `Prog.Triple.act`, `Prog.Triple.bind` — the rules for an action and for the
  sequence of two programs.
* `Discipline.valid_of_reachable` — a pool whose calls are safe stays safe in
  every run; `Discipline.Valid.guar` — each of its actions keeps its guarantee.
* `Pool.Forever.KeepsUp.exists_idle` — a thread that does not stand still
  finishes its call.
-/

namespace Concurrent

/-- A program of atomic actions on a shared state `σ`, under choices `χ` of the
environment.  An action that yields `none` is blocked. -/
inductive Prog (σ χ α : Type) : Type 1 where
  | ret (a : α)
  | act {β : Type} (f : σ → χ → Option (β × σ)) (next : β → Prog σ χ α)

namespace Prog

variable {σ χ α β : Type}

/-- One program after another. -/
def bind : Prog σ χ α → (α → Prog σ χ β) → Prog σ χ β
  | ret a, k => k a
  | act f next, k => act f fun b => bind (next b) k

instance : Monad (Prog σ χ) where
  pure := ret
  bind := bind

/-- A program of one action. -/
def atomically (f : σ → χ → Option (α × σ)) : Prog σ χ α := act f ret

/-- An action that is never blocked and reads no choice. -/
def modify (f : σ → α × σ) : Prog σ χ α := atomically fun s _ => some (f s)

@[simp] theorem pure_eq_ret (a : α) : (pure a : Prog σ χ α) = ret a := rfl

@[simp] theorem ret_bind (a : α) (k : α → Prog σ χ β) : (ret a >>= k) = k a := rfl

@[simp] theorem act_bind {γ : Type} (f : σ → χ → Option (γ × σ)) (next : γ → Prog σ χ α)
    (k : α → Prog σ χ β) : (act f next >>= k) = act f fun b => next b >>= k := rfl

/-- Whatever the others do within `Rely`, every action of the program keeps
`Guar` and the program ends in `Post`. -/
def Safe (Rely Guar : σ → σ → Prop) (Post : α → σ → Prop) : Prog σ χ α → σ → Prop
  | ret a, s => ∀ t, Rely s t → Post a t
  | act f next, s => ∀ t, Rely s t → ∀ c b t', f t c = some (b, t') →
      Guar t t' ∧ Safe Rely Guar Post (next b) t'

/-- Safety from every state that meets the precondition. -/
def Triple (Rely Guar : σ → σ → Prop) (Pre : σ → Prop) (p : Prog σ χ α)
    (Post : α → σ → Prop) : Prop :=
  ∀ s, Pre s → p.Safe Rely Guar Post s

variable {Rely Guar : σ → σ → Prop} {Pre : σ → Prop} {Post : α → σ → Prop}

/-- Safety survives what the others do. -/
theorem Safe.stable (htrans : ∀ s t u, Rely s t → Rely t u → Rely s u) {p : Prog σ χ α}
    {s t : σ} (h : p.Safe Rely Guar Post s) (hst : Rely s t) : p.Safe Rely Guar Post t := by
  cases p with
  | ret a => exact fun u hu => h u (htrans s t u hst hu)
  | act f next => exact fun u hu => h u (htrans s t u hst hu)

theorem Safe.mono {Post' : α → σ → Prop} (hpost : ∀ a s, Post a s → Post' a s)
    {p : Prog σ χ α} {s : σ} (h : p.Safe Rely Guar Post s) : p.Safe Rely Guar Post' s := by
  induction p generalizing s with
  | ret a => exact fun t ht => hpost a t (h t ht)
  | act f next ih =>
    intro t ht c b t' hf
    obtain ⟨hguar, hnext⟩ := h t ht c b t' hf
    exact ⟨hguar, ih b hnext⟩

/-- The others may do less and the program may do more. -/
theorem Safe.weaken {Rely' Guar' : σ → σ → Prop} (hrely : ∀ s t, Rely' s t → Rely s t)
    (hguar : ∀ s t, Guar s t → Guar' s t) {p : Prog σ χ α} {s : σ}
    (h : p.Safe Rely Guar Post s) : p.Safe Rely' Guar' Post s := by
  induction p generalizing s with
  | ret a => exact fun t ht => h t (hrely s t ht)
  | act f next ih =>
    intro t ht c b t' hf
    obtain ⟨hstep, hnext⟩ := h t (hrely s t ht) c b t' hf
    exact ⟨hguar t t' hstep, ih b hnext⟩

/-- The rule for a sequence, from one state. -/
theorem Safe.bind (hrefl : ∀ s, Rely s s) {Mid : α → σ → Prop} {Post : β → σ → Prop}
    {p : Prog σ χ α} {k : α → Prog σ χ β} {s : σ} (h : p.Safe Rely Guar Mid s)
    (hk : ∀ a t, Mid a t → (k a).Safe Rely Guar Post t) :
    (p >>= k).Safe Rely Guar Post s := by
  induction p generalizing s with
  | ret a => exact hk a s (h s (hrefl s))
  | act f next ih =>
    intro t ht c b t' hf
    obtain ⟨hguar, hnext⟩ := h t ht c b t' hf
    exact ⟨hguar, ih b hnext⟩

/-- Every action of the program, whatever it is handed, stays within `R`. -/
def Always (R : σ → σ → Prop) : Prog σ χ α → Prop
  | ret _ => True
  | act f next =>
    (∀ s c b s', f s c = some (b, s') → R s s') ∧ ∀ b, Always R (next b)

namespace Always

variable {R : σ → σ → Prop}

theorem bind {p : Prog σ χ α} {k : α → Prog σ χ β} (hp : p.Always R)
    (hk : ∀ a, (k a).Always R) : (p >>= k).Always R := by
  induction p with
  | ret a => exact hk a
  | act f next ih => exact ⟨hp.1, fun b => ih b (hp.2 b)⟩

theorem atomically {f : σ → χ → Option (α × σ)}
    (h : ∀ s c b s', f s c = some (b, s') → R s s') : (Prog.atomically f).Always R :=
  ⟨h, fun _ => trivial⟩

theorem modify {f : σ → α × σ} (h : ∀ s, R s (f s).2) :
    (Prog.modify f : Prog σ χ α).Always R := by
  refine atomically fun s c b s' hf => ?_
  rw [Option.some.injEq] at hf
  have hs := h s
  rwa [hf] at hs

theorem mono {R' : σ → σ → Prop} (h : ∀ s t, R s t → R' s t) {p : Prog σ χ α}
    (hp : p.Always R) : p.Always R' := by
  induction p with
  | ret a => trivial
  | act f next ih => exact ⟨fun s c b s' hf => h s s' (hp.1 s c b s' hf), fun b => ih b (hp.2 b)⟩

end Always

/-- Every result of the program, whatever its actions are handed, meets `P`. -/
def Returns (P : α → Prop) : Prog σ χ α → Prop
  | ret a => P a
  | act _ next => ∀ b, Returns P (next b)

theorem Returns.bind {Q : α → Prop} {P : β → Prop} {p : Prog σ χ α} {k : α → Prog σ χ β}
    (hp : p.Returns Q) (hk : ∀ a, Q a → (k a).Returns P) : (p >>= k).Returns P := by
  induction p with
  | ret a => exact hk a hp
  | act f next ih => exact fun b => ih b (hp b)

theorem Returns.any (p : Prog σ χ α) : p.Returns fun _ => True := by
  induction p with
  | ret a => trivial
  | act f next ih => exact ih

theorem Safe.and_returns {P : α → Prop} {p : Prog σ χ α} {s : σ} (hp : p.Returns P)
    (h : p.Safe Rely Guar Post s) : p.Safe Rely Guar (fun a s => P a ∧ Post a s) s := by
  induction p generalizing s with
  | ret a => exact fun t ht => ⟨hp, h t ht⟩
  | act f next ih =>
    intro t ht c b t' hf
    obtain ⟨hguar, hnext⟩ := h t ht c b t' hf
    exact ⟨hguar, ih b (hp b) hnext⟩

namespace Triple

/-- What every result meets may be added to the postcondition. -/
theorem and_returns {P : α → Prop} {p : Prog σ χ α} (hp : p.Returns P)
    (h : Triple Rely Guar Pre p Post) : Triple Rely Guar Pre p fun a s => P a ∧ Post a s :=
  fun s hs => (h s hs).and_returns hp

/-- A program whose actions all stay within `R` keeps what `R` keeps. -/
theorem of_always {R : σ → σ → Prop} {p : Prog σ χ α} (hp : p.Always R)
    (hstable : ∀ s t, Pre s → Rely s t → Pre t)
    (h : ∀ s t, Pre s → R s t → Guar s t ∧ Pre t) :
    Triple Rely Guar Pre p fun _ => Pre := by
  induction p with
  | ret a => exact fun s hs t ht => hstable s t hs ht
  | act f next ih =>
    intro s hs t ht c b t' hf
    obtain ⟨hguar, ht'⟩ := h t t' (hstable s t hs ht) (hp.1 t c b t' hf)
    exact ⟨hguar, ih b (hp.2 b) t' ht'⟩

theorem ret {a : α} (hstable : ∀ s t, Pre s → Rely s t → Pre t)
    (hpost : ∀ s, Pre s → Post a s) : Triple Rely Guar Pre (Prog.ret a : Prog σ χ α) Post :=
  fun s hs t ht => hpost t (hstable s t hs ht)

/-- The rule for an action: the precondition is stable, the action keeps the
guarantee and leads to the precondition of what follows. -/
theorem act {γ : Type} {f : σ → χ → Option (γ × σ)} {next : γ → Prog σ χ α}
    (Mid : γ → σ → Prop) (hstable : ∀ s t, Pre s → Rely s t → Pre t)
    (hact : ∀ s c b s', Pre s → f s c = some (b, s') → Guar s s' ∧ Mid b s')
    (hnext : ∀ b, Triple Rely Guar (Mid b) (next b) Post) :
    Triple Rely Guar Pre (Prog.act f next) Post := by
  intro s hs t ht c b t' hf
  obtain ⟨hguar, hmid⟩ := hact t c b t' (hstable s t hs ht) hf
  exact ⟨hguar, hnext b t' hmid⟩

/-- The rule for a program of one action. -/
theorem atomically {f : σ → χ → Option (α × σ)}
    (hstable : ∀ s t, Pre s → Rely s t → Pre t)
    (hpost : ∀ a s t, Post a s → Rely s t → Post a t)
    (hact : ∀ s c b s', Pre s → f s c = some (b, s') → Guar s s' ∧ Post b s') :
    Triple Rely Guar Pre (Prog.atomically f) Post :=
  Triple.act Post hstable hact fun a => Triple.ret (hpost a) fun _ h => h

/-- The rule for a program of one action that is never blocked. -/
theorem modify {f : σ → α × σ} (hstable : ∀ s t, Pre s → Rely s t → Pre t)
    (hpost : ∀ a s t, Post a s → Rely s t → Post a t)
    (hact : ∀ s, Pre s → Guar s (f s).2 ∧ Post (f s).1 (f s).2) :
    Triple Rely Guar Pre (Prog.modify f : Prog σ χ α) Post := by
  refine Triple.atomically hstable hpost fun s c b s' hs hf => ?_
  rw [Option.some.injEq] at hf
  have h := hact s hs
  rwa [hf] at h

/-- The rule for a sequence. -/
theorem bind (hrefl : ∀ s, Rely s s) {Mid : α → σ → Prop} {Post : β → σ → Prop}
    {p : Prog σ χ α} {k : α → Prog σ χ β} (hp : Triple Rely Guar Pre p Mid)
    (hk : ∀ a, Triple Rely Guar (Mid a) (k a) Post) :
    Triple Rely Guar Pre (p >>= k) Post :=
  fun s hs => (hp s hs).bind hrefl hk

/-- The same rule, for an intermediate condition that is given. -/
theorem seq (Mid : α → σ → Prop) {Post : β → σ → Prop} {p : Prog σ χ α} {k : α → Prog σ χ β}
    (hrefl : ∀ s, Rely s s) (hp : Triple Rely Guar Pre p Mid)
    (hk : ∀ a, Triple Rely Guar (Mid a) (k a) Post) : Triple Rely Guar Pre (p >>= k) Post :=
  bind hrefl hp hk

theorem weaken {Rely' Guar' : σ → σ → Prop} {p : Prog σ χ α}
    (hp : Triple Rely Guar Pre p Post) (hrely : ∀ s t, Rely' s t → Rely s t)
    (hguar : ∀ s t, Guar s t → Guar' s t) : Triple Rely' Guar' Pre p Post :=
  fun s hs => (hp s hs).weaken hrely hguar

theorem conseq {Pre' : σ → Prop} {Post' : α → σ → Prop} {p : Prog σ χ α}
    (hp : Triple Rely Guar Pre' p Post') (hpre : ∀ s, Pre s → Pre' s)
    (hpost : ∀ a s, Post' a s → Post a s) : Triple Rely Guar Pre p Post :=
  fun s hs => (hp s (hpre s hs)).mono hpost

end Triple

/-! ### A program among others -/

/-- **A whole run of a program among others**: between its actions the others change the
state as `Env` allows.  The run is the states before and after each action of the program. -/
inductive Runs (Env : σ → σ → Prop) : Prog σ χ α → σ → List (σ × σ) → α → σ → Prop
  | ret {a : α} {s t : σ} (env : Env s t) : Runs Env (.ret a) s [] a t
  | act {γ : Type} {f : σ → χ → Option (γ × σ)} {next : γ → Prog σ χ α} {s t t' u : σ} {c : χ}
      {b : γ} {steps : List (σ × σ)} {a : α} (env : Env s t) (step : f t c = some (b, t'))
      (rest : Runs Env (next b) t' steps a u) : Runs Env (.act f next) s ((t, t') :: steps) a u

namespace Runs

variable {Env : σ → σ → Prop} {s u : σ} {steps : List (σ × σ)} {b : β}

/-- A run of a sequence is a run of its first program and one of its second. -/
theorem of_bind (hrefl : ∀ s, Env s s) {p : Prog σ χ α} {k : α → Prog σ χ β}
    (h : Runs Env (p >>= k) s steps b u) :
    ∃ before after a t, Runs Env p s before a t ∧ Runs Env (k a) t after b u ∧
      steps = before ++ after := by
  induction p generalizing s steps with
  | ret a => exact ⟨[], steps, a, s, .ret (hrefl s), h, rfl⟩
  | act f next ih =>
    cases h with
    | act env step rest =>
      obtain ⟨before, after, a, t, hbefore, hafter, rfl⟩ := ih _ rest
      exact ⟨_ :: before, after, a, t, .act env step hbefore, hafter, rfl⟩

/-- A run of a program of one action that is never blocked. -/
theorem of_modify {f : σ → α × σ} {a : α}
    (h : Runs Env (Prog.modify f : Prog σ χ α) s steps a u) :
    ∃ t, Env s t ∧ steps = [(t, (f t).2)] ∧ a = (f t).1 ∧ Env (f t).2 u := by
  cases h with
  | act env step rest =>
    cases rest with
    | ret env' =>
      have hstep := Option.some.inj step
      exact ⟨_, env, by rw [hstep], by rw [hstep], by rwa [hstep]⟩

/-- What every action of a program keeps within, every step of a run does. -/
theorem always {R : σ → σ → Prop} {p : Prog σ χ α} {a : α} (hp : p.Always R)
    (h : Runs Env p s steps a u) : ∀ step ∈ steps, R step.1 step.2 := by
  induction h with
  | ret env => exact fun step hstep => by cases hstep
  | act env step rest ih =>
    intro pair hpair
    rcases List.mem_cons.mp hpair with rfl | hpair
    · exact hp.1 _ _ _ _ step
    · exact ih (hp.2 _) pair hpair

end Runs

/-! ### A program that runs alone -/

/-- Run alone under choices that meet `Allowed`, the program is never blocked, every
state it passes through meets `Along`, and it ends in `Post`. -/
def Ensures (Allowed : χ → Prop) (Along : σ → Prop) (Post : α → σ → Prop) :
    Prog σ χ α → σ → Prop
  | ret a, s => Along s ∧ Post a s
  | act f next, s => Along s ∧ ∀ c, Allowed c →
      ∃ b s', f s c = some (b, s') ∧ Ensures Allowed Along Post (next b) s'

namespace Ensures

variable {Allowed : χ → Prop} {Along : σ → Prop}

theorem ret {a : α} {s : σ} (halong : Along s) (h : Post a s) :
    (Prog.ret a : Prog σ χ α).Ensures Allowed Along Post s :=
  ⟨halong, h⟩

theorem atomically {f : σ → χ → Option (α × σ)} {s : σ} (halong : Along s)
    (h : ∀ c, Allowed c → ∃ b s', f s c = some (b, s') ∧ Along s' ∧ Post b s') :
    (Prog.atomically f).Ensures Allowed Along Post s :=
  ⟨halong, h⟩

theorem modify {f : σ → α × σ} {s : σ} (halong : Along s) (halong' : Along (f s).2)
    (h : Post (f s).1 (f s).2) : (Prog.modify f : Prog σ χ α).Ensures Allowed Along Post s :=
  atomically halong fun _ _ => ⟨_, _, rfl, halong', h⟩

/-- The rule for a sequence. -/
theorem bind {Mid : α → σ → Prop} {Post : β → σ → Prop} {p : Prog σ χ α}
    {k : α → Prog σ χ β} {s : σ} (hp : p.Ensures Allowed Along Mid s)
    (hk : ∀ a t, Mid a t → (k a).Ensures Allowed Along Post t) :
    (p >>= k).Ensures Allowed Along Post s := by
  induction p generalizing s with
  | ret a => exact hk a s hp.2
  | act f next ih =>
    refine ⟨hp.1, fun c hc => ?_⟩
    obtain ⟨b, s', hf, hnext⟩ := hp.2 c hc
    exact ⟨b, s', hf, ih b hnext⟩

/-- The same rule, for an intermediate condition that is given. -/
theorem seq (Mid : α → σ → Prop) {Post : β → σ → Prop} {p : Prog σ χ α} {k : α → Prog σ χ β}
    {s : σ} (hp : p.Ensures Allowed Along Mid s)
    (hk : ∀ a t, Mid a t → (k a).Ensures Allowed Along Post t) :
    (p >>= k).Ensures Allowed Along Post s :=
  bind hp hk

theorem mono {Along' : σ → Prop} {Post' : α → σ → Prop} {p : Prog σ χ α} {s : σ}
    (h : p.Ensures Allowed Along Post s) (halong : ∀ s, Along s → Along' s)
    (hpost : ∀ a s, Post a s → Post' a s) : p.Ensures Allowed Along' Post' s := by
  induction p generalizing s with
  | ret a => exact ⟨halong s h.1, hpost a s h.2⟩
  | act f next ih =>
    refine ⟨halong s h.1, fun c hc => ?_⟩
    obtain ⟨b, s', hf, hnext⟩ := h.2 c hc
    exact ⟨b, s', hf, ih b hnext⟩

/-- Two such facts about a program hold together. -/
theorem and {Along' : σ → Prop} {Post' : α → σ → Prop} {p : Prog σ χ α} {s : σ}
    (h : p.Ensures Allowed Along Post s) (h' : p.Ensures Allowed Along' Post' s) :
    p.Ensures Allowed (fun s => Along s ∧ Along' s) (fun a s => Post a s ∧ Post' a s) s := by
  induction p generalizing s with
  | ret a => exact ⟨⟨h.1, h'.1⟩, h.2, h'.2⟩
  | act f next ih =>
    refine ⟨⟨h.1, h'.1⟩, fun c hc => ?_⟩
    obtain ⟨b, t, hf, hnext⟩ := h.2 c hc
    obtain ⟨b', t', hf', hnext'⟩ := h'.2 c hc
    rw [hf] at hf'
    cases hf'
    exact ⟨b, t, hf, ih b hnext hnext'⟩

/-- Two such facts about a program meet at its end. -/
theorem meet {Along' : σ → Prop} {Post' : α → σ → Prop} {p : Prog σ χ α} {s : σ}
    (h : p.Ensures Allowed Along Post s) (h' : p.Ensures Allowed Along' Post' s) {c : χ}
    (hc : Allowed c) : ∃ a t, Post a t ∧ Post' a t := by
  induction p generalizing s with
  | ret a => exact ⟨a, s, h.2, h'.2⟩
  | act f next ih =>
    obtain ⟨b, t, hf, hnext⟩ := h.2 c hc
    obtain ⟨b', t', hf', hnext'⟩ := h'.2 c hc
    rw [hf] at hf'
    cases hf'
    exact ih b hnext hnext'

end Ensures

/-- The state after some actions of a program that runs alone, under one choice. -/
def after (c : χ) : ℕ → Prog σ χ α → σ → σ
  | n + 1, act f next, s =>
    match f s c with
    | some (b, t) => after c n (next b) t
    | none => s
  | _, _, s => s

theorem Ensures.along {Allowed : χ → Prop} {Along : σ → Prop} {p : Prog σ χ α} {s : σ}
    (h : p.Ensures Allowed Along Post s) {c : χ} (hc : Allowed c) (n : ℕ) :
    Along (after c n p s) := by
  induction n generalizing p s with
  | zero => cases p <;> exact h.1
  | succ n ih =>
    cases p with
    | ret a => exact h.1
    | act f next =>
      obtain ⟨b, t, hf, hnext⟩ := h.2 c hc
      rw [after, hf]
      exact ih hnext

end Prog

/-! ### Pools of threads -/

/-- A shared state and what each thread is doing: the call it runs and the rest
of its program. -/
structure Pool (σ χ ι κ : Type) where
  shared : σ
  thread : ι → Option (κ × Prog σ χ Unit)

/-- What happens next in a pool. -/
inductive Move (χ ι κ : Type) where
  /-- An idle thread begins a call. -/
  | call (i : ι) (k : κ)
  /-- A thread makes its next action, under a choice of the environment. -/
  | act (i : ι) (c : χ)

namespace Pool

variable {σ χ ι κ : Type} [DecidableEq ι]

/-- The thread runs no call, or has finished the one it ran. -/
def idle (pool : Pool σ χ ι κ) (i : ι) : Bool :=
  match pool.thread i with
  | none => true
  | some (_, .ret _) => true
  | some (_, .act _ _) => false

/-- One move of a pool: `may` says which calls a thread may begin. -/
def move (body : ι → κ → Prog σ χ Unit) (may : σ → ι → κ → Bool) (pool : Pool σ χ ι κ) :
    Move χ ι κ → Option (Pool σ χ ι κ)
  | .call i k =>
    if pool.idle i ∧ may pool.shared i k then
      some { pool with thread := Function.update pool.thread i (some (k, body i k)) }
    else none
  | .act i c =>
    match pool.thread i with
    | some (k, .act f next) =>
      match f pool.shared c with
      | some (b, shared) =>
        some ⟨shared, Function.update pool.thread i (some (k, next b))⟩
      | none => none
    | _ => none

/-- The runs of a pool that starts with every thread idle. -/
def System (Initial : σ → Prop) (body : ι → κ → Prog σ χ Unit) (may : σ → ι → κ → Bool) :
    Transition.System (Pool σ χ ι κ) (Move χ ι κ) where
  Initial pool := Initial pool.shared ∧ ∀ i, pool.thread i = none
  step := move body may

variable {body : ι → κ → Prog σ χ Unit} {may : σ → ι → κ → Bool}

theorem move_call {pool pool' : Pool σ χ ι κ} {i : ι} {k : κ}
    (h : move body may pool (.call i k) = some pool') :
    pool.idle i ∧ may pool.shared i k ∧
      pool' = { pool with thread := Function.update pool.thread i (some (k, body i k)) } := by
  simp only [move, Option.ite_none_right_eq_some, Option.some.injEq] at h
  exact ⟨h.1.1, h.1.2, h.2.symm⟩

theorem move_act {pool pool' : Pool σ χ ι κ} {i : ι} {c : χ}
    (h : move body may pool (.act i c) = some pool') :
    ∃ (k : κ) (β : Type) (f : σ → χ → Option (β × σ)) (next : β → Prog σ χ Unit) (b : β)
      (shared : σ), pool.thread i = some (k, .act f next) ∧
      f pool.shared c = some (b, shared) ∧
      pool' = ⟨shared, Function.update pool.thread i (some (k, next b))⟩ := by
  simp only [move] at h
  split at h
  · rename_i k β f next hthread
    split at h
    · rename_i b shared hf
      exact ⟨k, β, f, next, b, shared, hthread, hf, (Option.some.inj h).symm⟩
    · cases h
  · cases h

/-- A move under stricter rules for the calls is one under the others. -/
theorem move_mono {may' : σ → ι → κ → Bool} (hmay : ∀ s i k, may' s i k → may s i k)
    {pool pool' : Pool σ χ ι κ} {m : Move χ ι κ} (h : move body may' pool m = some pool') :
    move body may pool m = some pool' := by
  cases m with
  | act i c => exact h
  | call i k =>
    obtain ⟨hidle, hcall, rfl⟩ := move_call h
    exact if_pos ⟨hidle, hmay _ _ _ hcall⟩

/-- What a pool reaches under stricter rules for the calls it reaches under the others. -/
theorem reachable_mono {Initial : σ → Prop} {may' : σ → ι → κ → Bool}
    (hmay : ∀ s i k, may' s i k → may s i k) {pool : Pool σ χ ι κ}
    (h : (System Initial body may').Reachable pool) : (System Initial body may).Reachable pool :=
  h.induction (fun s hs => ⟨s, [], hs, rfl⟩) fun _ _ _ hs hstep =>
    hs.step (move_mono hmay hstep)

end Pool

/-! ### Rely and guarantee for a pool -/

/-- What a thread has to tolerate between its actions: any number of actions of the
others, each within the guarantee of its thread. -/
def Rely {σ ι : Type} (Guar : ι → σ → σ → Prop) (j : ι) : σ → σ → Prop :=
  Relation.ReflTransGen fun s t => ∃ i, i ≠ j ∧ Guar i s t

/-- What no action of another thread breaks is stable. -/
theorem Rely.stable {σ ι : Type} {Guar : ι → σ → σ → Prop} {j : ι} {P : σ → Prop}
    (h : ∀ i s t, i ≠ j → Guar i s t → P s → P t) :
    ∀ s t, P s → Rely Guar j s t → P t := by
  intro s t hs hst
  induction hst with
  | refl => exact hs
  | tail _ hstep ih =>
    obtain ⟨i, hi, hguar⟩ := hstep
    exact h i _ _ hi hguar ih

theorem Rely.mono {σ ι : Type} {Guar Guar' : ι → σ → σ → Prop} {j : ι}
    (h : ∀ i s t, Guar' i s t → Guar i s t) : ∀ s t, Rely Guar' j s t → Rely Guar j s t := by
  intro s t hst
  induction hst with
  | refl => exact .refl
  | tail _ hstep ih =>
    obtain ⟨i, hi, hguar⟩ := hstep
    exact ih.tail ⟨i, hi, h i _ _ hguar⟩

/-- What it takes for the calls of a pool to respect one another: each thread keeps a
guarantee, and every call is safe where it may begin. -/
structure Discipline {σ χ ι κ : Type} (body : ι → κ → Prog σ χ Unit)
    (may : σ → ι → κ → Bool) where
  /-- What each action of a thread keeps. -/
  Guar : ι → σ → σ → Prop
  /-- What holds of the state while the thread is idle. -/
  Idle : ι → σ → Prop
  idle_stable : ∀ j i s t, i ≠ j → Guar i s t → Idle j s → Idle j t
  body_safe : ∀ i k, Prog.Triple (Rely Guar i) (Guar i) (fun s => may s i k ∧ Idle i s)
    (body i k) (fun _ => Idle i)

namespace Discipline

variable {σ χ ι κ : Type} {body : ι → κ → Prog σ χ Unit} {may : σ → ι → κ → Bool}
  (D : Discipline body may)

/-- Every thread is idle in a state it accepts, or safe from here on. -/
def Valid (pool : Pool σ χ ι κ) : Prop :=
  ∀ i, match pool.thread i with
    | none => D.Idle i pool.shared
    | some (_, p) => p.Safe (Rely D.Guar i) (D.Guar i) (fun _ => D.Idle i) pool.shared

variable {D}

theorem Valid.idle {pool : Pool σ χ ι κ} (h : D.Valid pool) {i : ι} (hi : pool.idle i) :
    D.Idle i pool.shared := by
  have hthread := h i
  simp only [Pool.idle] at hi
  split at hi
  · rename_i heq
    rwa [heq] at hthread
  · rename_i heq
    rw [heq] at hthread
    exact hthread pool.shared .refl
  · cases hi

theorem Valid.safe {pool : Pool σ χ ι κ} (h : D.Valid pool) {i : ι} {k : κ}
    {p : Prog σ χ Unit} (hi : pool.thread i = some (k, p)) :
    p.Safe (Rely D.Guar i) (D.Guar i) (fun _ => D.Idle i) pool.shared := by
  have hthread := h i
  rwa [hi] at hthread

variable [DecidableEq ι]

/-- Each action of a valid pool keeps its thread's guarantee. -/
theorem Valid.guar {pool pool' : Pool σ χ ι κ} (h : D.Valid pool) {i : ι} {c : χ}
    (hmove : Pool.move body may pool (.act i c) = some pool') :
    D.Guar i pool.shared pool'.shared := by
  obtain ⟨k, β, f, next, b, shared, hthread, hf, rfl⟩ := Pool.move_act hmove
  exact (h.safe hthread pool.shared .refl c b shared hf).1

/-- **A move keeps every thread safe.** -/
theorem Valid.move {pool pool' : Pool σ χ ι κ} (h : D.Valid pool) {m : Move χ ι κ}
    (hmove : Pool.move body may pool m = some pool') : D.Valid pool' := by
  intro j
  cases m with
  | call i k =>
    obtain ⟨hidle, hmay, rfl⟩ := Pool.move_call hmove
    by_cases hji : j = i
    · subst hji
      simp only [Function.update_self]
      exact D.body_safe j k pool.shared ⟨hmay, h.idle hidle⟩
    · simp only [Function.update_of_ne hji]
      exact h j
  | act i c =>
    have hguar := h.guar hmove
    obtain ⟨k, β, f, next, b, shared, hthread, hf, rfl⟩ := Pool.move_act hmove
    by_cases hji : j = i
    · subst hji
      simp only [Function.update_self]
      exact (h.safe hthread pool.shared .refl c b shared hf).2
    · -- another thread sees the action as part of its rely
      have hrely : Rely D.Guar j pool.shared shared := .single ⟨i, Ne.symm hji, hguar⟩
      have hj := h j
      simp only [Function.update_of_ne hji]
      split at hj
      · exact D.idle_stable j i _ _ (Ne.symm hji) hguar hj
      · exact hj.stable (fun _ _ _ h₁ h₂ => h₁.trans h₂) hrely

/-- **Every pool a run reaches is valid.** -/
theorem valid_of_reachable {Initial : σ → Prop} (hinit : ∀ i s, Initial s → D.Idle i s)
    {pool : Pool σ χ ι κ} (h : (Pool.System Initial body may).Reachable pool) :
    D.Valid pool := by
  refine h.induction (fun pool₀ h₀ i => ?_) (fun s m s' hs hstep => hs.move hstep)
  rw [h₀.2 i]
  exact hinit i _ h₀.1

/-- What every action keeps holds in every pool a run reaches. -/
theorem invariant_of_reachable {Initial : σ → Prop} (hinit : ∀ i s, Initial s → D.Idle i s)
    (Inv : σ → Prop) (hinv : ∀ s, Initial s → Inv s)
    (hguar : ∀ i s t, D.Guar i s t → Inv s → Inv t) {pool : Pool σ χ ι κ}
    (h : (Pool.System Initial body may).Reachable pool) : Inv pool.shared := by
  have hboth : D.Valid pool ∧ Inv pool.shared := by
    refine Transition.System.Reachable.induction (P := fun pool => D.Valid pool ∧ Inv pool.shared)
      (fun pool₀ h₀ => ?_) (fun s m s' hs hstep => ?_) h
    · refine ⟨fun i => ?_, hinv _ h₀.1⟩
      rw [h₀.2 i]
      exact hinit i _ h₀.1
    · refine ⟨hs.1.move hstep, ?_⟩
      cases m with
      | call i k =>
        obtain ⟨-, -, rfl⟩ := Pool.move_call hstep
        exact hs.2
      | act i c => exact hguar i _ _ (hs.1.guar hstep) hs.2
  exact hboth.2

end Discipline

/-! ### Runs without end -/

/-- The thread that moves. -/
def Move.thread {χ ι κ : Type} : Move χ ι κ → ι
  | .call i _ => i
  | .act i _ => i

namespace Pool

variable {σ χ ι κ : Type} [DecidableEq ι] {body : ι → κ → Prog σ χ Unit}
  {may : σ → ι → κ → Bool}

/-- A move leaves the other threads where they are. -/
theorem thread_of_move_ne {pool pool' : Pool σ χ ι κ} {m : Move χ ι κ}
    (h : move body may pool m = some pool') {i : ι} (hi : m.thread ≠ i) :
    pool'.thread i = pool.thread i := by
  cases m with
  | call j k =>
    obtain ⟨-, -, rfl⟩ := move_call h
    exact Function.update_of_ne (Ne.symm hi) _ _
  | act j c =>
    obtain ⟨k, β, f, next, b, shared, -, -, rfl⟩ := move_act h
    exact Function.update_of_ne (Ne.symm hi) _ _

/-- An unbounded run: the pool and the move at every time. -/
structure Forever (body : ι → κ → Prog σ χ Unit) (may : σ → ι → κ → Bool) where
  pool : ℕ → Pool σ χ ι κ
  move : ℕ → Move χ ι κ
  step : ∀ n, Pool.move body may (pool n) (move n) = some (pool (n + 1))

namespace Forever

variable {run : Forever body may} {i : ι} {AtRest : σ → Prop}

/-- The pools of a run that starts in a reachable one are reachable. -/
theorem reachable {Initial : σ → Prop}
    (h : (System Initial body may).Reachable (run.pool 0)) (n : ℕ) :
    (System Initial body may).Reachable (run.pool n) := by
  induction n with
  | zero => exact h
  | succ n ih => exact ih.step (run.step n)

/-- The thread does not stand still: it moves again and again, or is idle with nothing
to do. -/
def KeepsUp (run : Forever body may) (i : ι) (AtRest : σ → Prop) : Prop :=
  ∀ n, ∃ m, n ≤ m ∧ ((run.move m).thread = i ∨ (run.pool m).idle i ∧ AtRest (run.pool m).shared)

/-- The next move of such a thread finds it where it is now. -/
theorem KeepsUp.next (h : run.KeepsUp i AtRest) (n : ℕ) :
    ∃ m, n ≤ m ∧ (run.pool m).thread i = (run.pool n).thread i ∧
      ((run.move m).thread = i ∨ (run.pool m).idle i ∧ AtRest (run.pool m).shared) := by
  have hex : ∃ d, (run.move (n + d)).thread = i ∨
      (run.pool (n + d)).idle i ∧ AtRest (run.pool (n + d)).shared := by
    obtain ⟨m, hnm, hm⟩ := h n
    exact ⟨m - n, by rwa [Nat.add_sub_cancel' hnm]⟩
  classical
  refine ⟨n + Nat.find hex, Nat.le_add_right _ _, ?_, Nat.find_spec hex⟩
  -- before that move only others have moved
  have hsame : ∀ d, d ≤ Nat.find hex →
      (run.pool (n + d)).thread i = (run.pool n).thread i := by
    intro d hd
    induction d with
    | zero => rfl
    | succ d ih =>
      have hne : (run.move (n + d)).thread ≠ i := fun heq =>
        Nat.find_min hex (Nat.lt_of_succ_le hd) (.inl heq)
      rw [← Nat.add_assoc, thread_of_move_ne (run.step (n + d)) hne]
      exact ih (Nat.le_of_succ_le hd)
  exact hsame _ le_rfl

/-- What a thread does when it moves in the middle of a call. -/
theorem act_of_move {n : ℕ} (hmove : (run.move n).thread = i) {k : κ} {β : Type}
    {f : σ → χ → Option (β × σ)} {next : β → Prog σ χ Unit}
    (hthread : (run.pool n).thread i = some (k, .act f next)) :
    ∃ c b, f (run.pool n).shared c = some (b, (run.pool (n + 1)).shared) ∧
      (run.pool (n + 1)).thread i = some (k, next b) := by
  have hstep := run.step n
  rcases hm : run.move n with ⟨j, k'⟩ | ⟨j, c⟩
  · -- a thread in a call begins no other one
    rw [hm] at hstep hmove
    obtain rfl : j = i := hmove
    obtain ⟨hidle, -⟩ := move_call hstep
    simp only [idle, hthread, Bool.false_eq_true] at hidle
  · rw [hm] at hstep hmove
    obtain rfl : j = i := hmove
    obtain ⟨k₁, β₁, f₁, next₁, b, shared, hthread₁, hf, hpool⟩ := move_act hstep
    rw [hthread] at hthread₁
    cases hthread₁
    refine ⟨c, b, ?_, ?_⟩
    · rw [hpool]
      exact hf
    · rw [hpool]
      exact Function.update_self _ _ _

/-- What an idle thread does when it moves. -/
theorem call_of_move {n : ℕ} (hmove : (run.move n).thread = i) (hidle : (run.pool n).idle i) :
    ∃ k, may (run.pool n).shared i k ∧ (run.pool (n + 1)).shared = (run.pool n).shared ∧
      (run.pool (n + 1)).thread i = some (k, body i k) := by
  have hstep := run.step n
  rcases hm : run.move n with ⟨j, k⟩ | ⟨j, c⟩
  · rw [hm] at hstep hmove
    obtain rfl : j = i := hmove
    obtain ⟨-, hmay, hpool⟩ := move_call hstep
    exact ⟨k, hmay, by rw [hpool], by rw [hpool]; exact Function.update_self _ _ _⟩
  · rw [hm] at hstep hmove
    obtain rfl : j = i := hmove
    obtain ⟨k, β, f, next, b, shared, hthread, -, -⟩ := move_act hstep
    simp only [idle, hthread, Bool.false_eq_true] at hidle

/-- **A thread that does not stand still finishes its call.** -/
theorem KeepsUp.exists_idle (h : run.KeepsUp i AtRest) (n : ℕ) :
    ∃ m, n ≤ m ∧ (run.pool m).idle i := by
  rcases hthread : (run.pool n).thread i with - | ⟨k, p⟩
  · exact ⟨n, le_rfl, by simp only [idle, hthread]⟩
  · induction p generalizing n with
    | ret a => exact ⟨n, le_rfl, by simp only [idle, hthread]⟩
    | act f next ih =>
      obtain ⟨m, hnm, hsame, hmove | ⟨hidle, -⟩⟩ := h.next n
      · obtain ⟨c, b, -, hnext⟩ := act_of_move hmove (hsame.trans hthread)
        obtain ⟨m', hm', hidle⟩ := ih b (m + 1) hnext
        exact ⟨m', by omega, hidle⟩
      · exact ⟨m, hnm, hidle⟩

end Forever

end Pool

end Concurrent
