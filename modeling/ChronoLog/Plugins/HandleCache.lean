import ChronoLog.Lib.Transition

/-!
# The handle cache of a plugin's client adapter

The adapters for key-value, publish-subscribe and SQL clients keep the handles of the stories
they write in a cache under a mutex.  A read drops the story's handle from the cache, and
then acquires and releases the story outside the mutex.  The client has one handle for a
story, whoever acquired it, and `ReleaseStory` deletes it.

So a read that ends deletes the handle that a write has put into the cache since the read
began.  The key-value adapter also calls `log_event` outside the mutex, on a handle that a
read or a flush may have deleted by then.

## Main definitions

* `AdapterState` — the client's handles, the cache, and where each thread stands.
* `system` — the threads of an adapter in steps.
* `HandlesLive` — the handles of the cache and those that events were logged on are the
  client's.
* `ReleasesUnused` — the step releases no story whose handle is in use.

## Main results

* `handles_live` — **handles stay live while no story in use is released.**
* `cached_handle_deleted` — a read that ends deletes the handle of a write.
-/

namespace ChronoLog.Plugins

inductive Adapter where
  | kvs
  | pubSub
  | sql
  deriving DecidableEq, Repr

/-- `publishEvent` and `appendEvent` hold the mutex across `log_event`, `storeEvent` does
not. -/
def Adapter.logsLocked : Adapter → Bool
  | .kvs => false
  | .pubSub => true
  | .sql => true

/-- Where a thread stands. -/
inductive Stage where
  | idle
  /-- `storeEvent` has its handle and is about to log on it. -/
  | logging (story : String) (handle : ℕ)
  /-- A read has flushed the cached handle. -/
  | flushed (story : String)
  /-- A read has acquired the story. -/
  | replaying (story : String)
  deriving DecidableEq, Repr

/-- A call of `log_event`, and whether the handle was the client's. -/
structure LogEventCall where
  story : String
  handle : ℕ
  live : Bool
  deriving DecidableEq, Repr

/-- The handles of the client and the cache of the adapter; handles are numbered in the order
of their allocation. -/
structure AdapterState (Thread : Type*) where
  acquiredStoryHandles : String → Option ℕ := fun _ => none
  nextHandle : ℕ := 0
  handleCache : String → Option ℕ := fun _ => none
  stage : Thread → Stage := fun _ => .idle
  logEventCalls : List LogEventCall := []

/-- How `AcquireStory` finds the connection, and the visor's answer if it is asked. -/
inductive Acquisition where
  | noConnection
  | refused
  | granted
  deriving DecidableEq, Repr

namespace AdapterState

variable {Thread : Type*}

/-- `AcquireStory`: the handle the client has for the story, or a new one. -/
def acquireStory (s : AdapterState Thread) (story : String) (answer : Acquisition) :
    AdapterState Thread × Option ℕ :=
  match answer, s.acquiredStoryHandles story with
  | .noConnection, _ => (s, none)
  | _, some handle => (s, some handle)
  | .refused, none => (s, none)
  | .granted, none =>
    ({ s with
        acquiredStoryHandles := Function.update s.acquiredStoryHandles story (some s.nextHandle)
        nextHandle := s.nextHandle + 1 }, some s.nextHandle)

/-- `ReleaseStory`. -/
def releaseStory (s : AdapterState Thread) (story : String) : AdapterState Thread :=
  { s with acquiredStoryHandles := Function.update s.acquiredStoryHandles story none }

/-- `getOrAcquireHandle`, and its two namesakes. -/
def getOrAcquireHandle (s : AdapterState Thread) (story : String) (answer : Acquisition) :
    AdapterState Thread × Option ℕ :=
  match s.handleCache story with
  | some handle => (s, some handle)
  | none =>
    match s.acquireStory story answer with
    | (s, none) => (s, none)
    | (s, some handle) =>
      ({ s with handleCache := Function.update s.handleCache story (some handle) }, some handle)

/-- `flushCachedHandle`. -/
def flushCachedHandle (s : AdapterState Thread) (story : String) : AdapterState Thread :=
  match s.handleCache story with
  | some _ => { s.releaseStory story with handleCache := Function.update s.handleCache story none }
  | none => s

/-- `flush`: every story of the cache is released. -/
def flush (s : AdapterState Thread) : AdapterState Thread :=
  { s with
    acquiredStoryHandles := fun story =>
      if s.handleCache story = none then s.acquiredStoryHandles story else none
    handleCache := fun _ => none }

/-- `log_event` on a handle. -/
def logEvent (s : AdapterState Thread) (story : String) (handle : ℕ) : AdapterState Thread :=
  { s with
    logEventCalls :=
      ⟨story, handle, s.acquiredStoryHandles story = some handle⟩ :: s.logEventCalls }

/-- The thread goes on to another stage. -/
def goTo [DecidableEq Thread] (s : AdapterState Thread) (w : Thread) (stage : Stage) :
    AdapterState Thread :=
  { s with stage := Function.update s.stage w stage }

end AdapterState

/-- The steps of a thread `w`. -/
inductive Label (Thread : Type*) where
  /-- The section of `storeEvent`, `publishEvent` or `appendEvent`. -/
  | write (w : Thread) (story : String) (answer : Acquisition)
  | logEvent (w : Thread)
  /-- A read starts. -/
  | flushCachedHandle (w : Thread) (story : String)
  | acquireStory (w : Thread) (answer : Acquisition)
  | replayStory (w : Thread)
  | releaseStory (w : Thread)
  | flush (w : Thread)

section

variable {Thread : Type*}

/-- One step of a thread. -/
def step [DecidableEq Thread] (adapter : Adapter) (s : AdapterState Thread) :
    Label Thread → Option (AdapterState Thread)
  | .write w story answer =>
    if s.stage w = .idle then
      match s.getOrAcquireHandle story answer with
      | (s, none) => some s
      | (s, some handle) =>
        if adapter.logsLocked then some (s.logEvent story handle)
        else some (s.goTo w (.logging story handle))
    else none
  | .logEvent w =>
    match s.stage w with
    | .logging story handle => some ((s.logEvent story handle).goTo w .idle)
    | _ => none
  | .flushCachedHandle w story =>
    if s.stage w = .idle then some ((s.flushCachedHandle story).goTo w (.flushed story)) else none
  | .acquireStory w answer =>
    match s.stage w with
    | .flushed story =>
      match s.acquireStory story answer with
      | (s, none) => some (s.goTo w .idle)
      | (s, some _) => some (s.goTo w (.replaying story))
    | _ => none
  | .replayStory w =>
    match s.stage w with
    | .replaying _ => some s
    | _ => none
  | .releaseStory w =>
    match s.stage w with
    | .replaying story => some ((s.releaseStory story).goTo w .idle)
    | _ => none
  | .flush w => if s.stage w = .idle then some s.flush else none

/-- The threads of an adapter. -/
def system (Thread : Type*) [DecidableEq Thread] (adapter : Adapter) :
    Transition.System (AdapterState Thread) (Label Thread) where
  Initial := fun s => s = {}
  step := step adapter

/-- The handles of the cache are the client's, and so was every handle that an event was
logged on. -/
def HandlesLive (s : AdapterState Thread) : Prop :=
  (∀ story handle, s.handleCache story = some handle →
    s.acquiredStoryHandles story = some handle) ∧
  ∀ call ∈ s.logEventCalls, call.live = true

/-- Some thread has taken the story's handle and not yet logged on it. -/
def Held (s : AdapterState Thread) (story : String) : Prop :=
  ∃ w handle, s.stage w = .logging story handle

/-- The step releases no story whose handle is in the cache or held; a flush may release those
of the cache that are not held, as it takes them out of the cache. -/
def ReleasesUnused (s : AdapterState Thread) : Label Thread → Prop
  | .releaseStory w =>
    ∀ story, s.stage w = .replaying story → s.handleCache story = none ∧ ¬Held s story
  | .flushCachedHandle _ story => s.handleCache story ≠ none → ¬Held s story
  | .flush _ => ∀ story, s.handleCache story ≠ none → ¬Held s story
  | _ => True

/-- The handles in the cache and those that are held are the client's. -/
structure Live (s : AdapterState Thread) : Prop where
  cached : ∀ story handle, s.handleCache story = some handle →
    s.acquiredStoryHandles story = some handle
  held : ∀ w story handle, s.stage w = .logging story handle →
    s.acquiredStoryHandles story = some handle
  calls : ∀ call ∈ s.logEventCalls, call.live = true

theorem live_empty : Live ({} : AdapterState Thread) where
  cached := by simp
  held := by simp
  calls := by simp

namespace Live

variable {s s' : AdapterState Thread} {story : String} {handle : ℕ} {w : Thread}

/-- `AcquireStory` takes no handle away. -/
theorem acquireStory (h : Live s) {answer : Acquisition} {acquired : Option ℕ}
    (hs' : s.acquireStory story answer = (s', acquired)) :
    Live s' ∧ s'.stage = s.stage ∧ s'.handleCache = s.handleCache ∧
      ∀ handle, acquired = some handle → s'.acquiredStoryHandles story = some handle := by
  unfold AdapterState.acquireStory at hs'
  split at hs'
  · obtain ⟨rfl, rfl⟩ := Prod.mk.inj hs'
    exact ⟨h, rfl, rfl, by simp⟩
  · next hfound =>
    obtain ⟨rfl, rfl⟩ := Prod.mk.inj hs'
    exact ⟨h, rfl, rfl, fun _ heq => heq ▸ hfound⟩
  · obtain ⟨rfl, rfl⟩ := Prod.mk.inj hs'
    exact ⟨h, rfl, rfl, by simp⟩
  · next hfree =>
    obtain ⟨rfl, rfl⟩ := Prod.mk.inj hs'
    -- a handle the client has is for another story
    have hkept : ∀ other handle, s.acquiredStoryHandles other = some handle →
        Function.update s.acquiredStoryHandles story (some s.nextHandle) other = some handle := by
      intro other handle hother
      rw [Function.update_of_ne, hother]
      rintro rfl
      rw [hfree] at hother
      cases hother
    refine ⟨⟨fun other handle hc => hkept other handle (h.cached other handle hc),
      fun v other handle hv => hkept other handle (h.held v other handle hv), h.calls⟩,
      rfl, rfl, ?_⟩
    rintro handle ⟨⟩
    exact Function.update_self _ _ _

theorem getOrAcquireHandle (h : Live s) {answer : Acquisition} {acquired : Option ℕ}
    (hs' : s.getOrAcquireHandle story answer = (s', acquired)) :
    Live s' ∧ ∀ handle, acquired = some handle → s'.acquiredStoryHandles story = some handle := by
  unfold AdapterState.getOrAcquireHandle at hs'
  split at hs'
  · next hcached =>
    obtain ⟨rfl, rfl⟩ := Prod.mk.inj hs'
    exact ⟨h, fun handle heq => h.cached story handle (by rw [hcached, heq])⟩
  · split at hs'
    · next s₁ hacquired =>
      obtain ⟨rfl, rfl⟩ := Prod.mk.inj hs'
      exact ⟨(h.acquireStory hacquired).1, by simp⟩
    · next s₁ fresh hacquired =>
      obtain ⟨rfl, rfl⟩ := Prod.mk.inj hs'
      obtain ⟨hlive, -, -, hfresh⟩ := h.acquireStory hacquired
      refine ⟨⟨fun other handle hc => ?_, hlive.held, hlive.calls⟩, hfresh⟩
      dsimp only at hc ⊢
      by_cases hsame : other = story
      · subst hsame
        rw [Function.update_self] at hc
        exact hfresh handle hc
      · rw [Function.update_of_ne hsame] at hc
        exact hlive.cached other handle hc

/-- A story that is neither cached nor held can be released. -/
theorem releaseStory (h : Live s) (hcache : s.handleCache story = none) (hheld : ¬Held s story) :
    Live (s.releaseStory story) where
  cached := by
    intro other handle hc
    have hne : other ≠ story := by
      rintro rfl
      rw [AdapterState.releaseStory, hcache] at hc
      cases hc
    exact (Function.update_of_ne hne _ _).trans (h.cached other handle hc)
  held := by
    intro w other handle hw
    have hne : other ≠ story := by
      rintro rfl
      exact hheld ⟨w, handle, hw⟩
    exact (Function.update_of_ne hne _ _).trans (h.held w other handle hw)
  calls := h.calls

theorem flushCachedHandle (h : Live s) (hheld : s.handleCache story ≠ none → ¬Held s story) :
    Live (s.flushCachedHandle story) := by
  unfold AdapterState.flushCachedHandle
  split
  · next cached hcached =>
    have hdropped : Live { s with handleCache := Function.update s.handleCache story none } := by
      refine ⟨fun other handle hc => ?_, h.held, h.calls⟩
      dsimp only at hc ⊢
      by_cases hsame : other = story
      · rw [hsame, Function.update_self] at hc
        cases hc
      · rw [Function.update_of_ne hsame] at hc
        exact h.cached other handle hc
    exact hdropped.releaseStory (Function.update_self _ _ _) (hheld (by rw [hcached]; simp))
  · exact h

theorem flush (h : Live s) (hheld : ∀ story, s.handleCache story ≠ none → ¬Held s story) :
    Live s.flush where
  cached := by simp [AdapterState.flush]
  held := by
    intro w story handle hw
    have hfree : s.handleCache story = none := by
      by_contra hcached
      exact hheld story hcached ⟨w, handle, hw⟩
    exact (if_pos hfree).trans (h.held w story handle hw)
  calls := h.calls

theorem logEvent (h : Live s) (hlive : s.acquiredStoryHandles story = some handle) :
    Live (s.logEvent story handle) where
  cached := h.cached
  held := h.held
  calls := List.forall_mem_cons.mpr ⟨decide_eq_true hlive, h.calls⟩

theorem goTo [DecidableEq Thread] (h : Live s) {stage : Stage}
    (hstage : ∀ story handle, stage = .logging story handle →
      s.acquiredStoryHandles story = some handle) : Live (s.goTo w stage) where
  cached := h.cached
  held := by
    intro v story handle hv
    by_cases hsame : v = w
    · subst hsame
      exact hstage story handle ((Function.update_self _ _ _).symm.trans hv)
    · exact h.held v story handle ((Function.update_of_ne hsame _ _).symm.trans hv)
  calls := h.calls

/-- **One step of a thread that releases nothing in use.** -/
theorem step [DecidableEq Thread] {adapter : Adapter} {l : Label Thread} (h : Live s)
    (hcond : ReleasesUnused s l) (hstep : step adapter s l = some s') : Live s' := by
  cases l with
  | write w story answer =>
    rw [Plugins.step] at hstep
    split at hstep
    · split at hstep
      · next s₁ hacquired =>
        cases hstep
        exact (h.getOrAcquireHandle hacquired).1
      · next s₁ handle hacquired =>
        obtain ⟨hlive, hhandle⟩ := h.getOrAcquireHandle hacquired
        split at hstep
        · cases hstep
          exact hlive.logEvent (hhandle handle rfl)
        · cases hstep
          refine hlive.goTo ?_
          rintro _ _ ⟨⟩
          exact hhandle handle rfl
    · cases hstep
  | logEvent w =>
    rw [Plugins.step] at hstep
    split at hstep
    · next story handle hw =>
      cases hstep
      exact (h.logEvent (h.held w story handle hw)).goTo (by simp)
    · cases hstep
  | flushCachedHandle w story =>
    obtain ⟨-, rfl⟩ := Option.ite_some_none_eq_some.mp hstep
    exact (h.flushCachedHandle hcond).goTo (by simp)
  | acquireStory w answer =>
    rw [Plugins.step] at hstep
    split at hstep
    · split at hstep
      · next s₁ hacquired =>
        cases hstep
        exact (h.acquireStory hacquired).1.goTo (by simp)
      · next s₁ handle hacquired =>
        cases hstep
        exact (h.acquireStory hacquired).1.goTo (by simp)
    · cases hstep
  | replayStory w =>
    rw [Plugins.step] at hstep
    split at hstep
    · cases hstep
      exact h
    · cases hstep
  | releaseStory w =>
    rw [Plugins.step] at hstep
    split at hstep
    · next story hw =>
      cases hstep
      obtain ⟨hcache, hheld⟩ := hcond story hw
      exact (h.releaseStory hcache hheld).goTo (by simp)
    · cases hstep
  | flush w =>
    obtain ⟨-, rfl⟩ := Option.ite_some_none_eq_some.mp hstep
    exact h.flush hcond

end Live

/-- **Handles stay live while no story in use is released**: in every run of any threads whose
steps all meet the condition, the handles of the cache and those that events are logged on are
the client's. -/
theorem handles_live [DecidableEq Thread] {adapter : Adapter} {labels : List (Label Thread)}
    {s : AdapterState Thread}
    (hcond : (system Thread adapter).StepsMeet ReleasesUnused {} labels)
    (hrun : (system Thread adapter).run {} labels = some s) : HandlesLive s := by
  have hlive : Live s := Transition.System.run_induction_of_stepsMeet
    (fun _ _ _ h hc hstep => h.step hc hstep) live_empty hcond hrun
  exact ⟨hlive.cached, hlive.calls⟩

/-- A write, and then a read of another thread. -/
theorem handles_live_write_then_read :
    ∃ s, (system Bool .pubSub).run {} [.write false "tide" .granted, .flushCachedHandle true "tide",
      .acquireStory true .granted, .replayStory true, .releaseStory true] = some s ∧
      HandlesLive s := by
  refine ⟨_, rfl, @handles_live Bool _ .pubSub [.write false "tide" .granted,
    .flushCachedHandle true "tide", .acquireStory true .granted, .replayStory true,
    .releaseStory true] _ ?_ rfl⟩
  have hnone : ∀ {s : AdapterState Bool} {story}, (∀ w, s.stage w = .idle ∨
      s.stage w = .replaying "tide") → ¬Held s story := by
    rintro s story h ⟨w, handle, hw⟩
    rcases h w with hidle | hreplaying
    · rw [hw] at hidle
      cases hidle
    · rw [hw] at hreplaying
      cases hreplaying
  refine ⟨trivial, fun s₁ h₁ => ⟨fun _ => hnone ?_, fun s₂ h₂ => ⟨trivial, fun s₃ h₃ =>
    ⟨trivial, fun s₄ h₄ => ⟨fun story hstory => ⟨?_, hnone ?_⟩, fun _ _ => trivial⟩⟩⟩⟩⟩
  · obtain rfl := Option.some.inj h₁
    exact fun w => Or.inl rfl
  all_goals
    obtain rfl := Option.some.inj h₁
    obtain rfl := Option.some.inj h₂
    obtain rfl := Option.some.inj h₃
    obtain rfl := Option.some.inj h₄
  · cases hstory
    rfl
  · rintro (_ | _)
    · exact Or.inl rfl
    · exact Or.inr rfl

/-- **A read that ends deletes the handle of a write.**  The write comes between the start of
the read and its end, and the cache keeps the handle; in the key-value adapter a flush can also
come between `getOrAcquireHandle` and `log_event`. -/
theorem cached_handle_deleted :
    (∃ s, (system Bool .kvs).run {} [.flushCachedHandle true "tide", .acquireStory true .granted,
      .write false "tide" .granted, .replayStory true, .releaseStory true] = some s ∧
      ¬HandlesLive s) ∧
    (∃ s, (system Bool .pubSub).run {} [.flushCachedHandle true "tide", .acquireStory true .granted,
      .write false "tide" .granted, .replayStory true, .releaseStory true] = some s ∧
      ¬HandlesLive s) ∧
    (∃ s, (system Bool .sql).run {} [.flushCachedHandle true "tide", .acquireStory true .granted,
      .write false "tide" .granted, .replayStory true, .releaseStory true] = some s ∧
      ¬HandlesLive s) ∧
    ∃ s, (system Bool .kvs).run {} [.write false "tide" .granted, .flush true, .logEvent false] =
      some s ∧ ¬HandlesLive s := by
  refine ⟨⟨_, rfl, fun h => ?_⟩, ⟨_, rfl, fun h => ?_⟩, ⟨_, rfl, fun h => ?_⟩,
    ⟨_, rfl, fun h => ?_⟩⟩
  · cases h.1 "tide" 0 rfl
  · cases h.1 "tide" 0 rfl
  · cases h.1 "tide" 0 rfl
  · cases h.2 _ List.mem_cons_self

end

end ChronoLog.Plugins
