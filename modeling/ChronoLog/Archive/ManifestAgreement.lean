import ChronoLog.Archive.ManifestLog

/-!
# What the logs of a manifest agree with

A writer's log holds the records whose appends succeeded, and a reader that follows the log
returns them, whatever writes were cut short, processes ended and logs removed on the way.

## Main definitions

* `Kept` — what every step keeps.

## Main results

* `manifest_log_agrees` — **each log holds the records whose appends succeeded, in their order,
  and no record that was not passed to an append, and the reader returns its records from the
  first on, each once.**
-/

namespace ChronoLog.Archive.ManifestLog

open LineLog ManifestState

variable {lib : ManifestJson} {writer_id : Text} {s s' : ManifestState}

/-- What every step keeps. -/
structure Kept (lib : ManifestJson) (s : ManifestState) : Prop where
  serials : s.attempts.map (·.serial) = List.range s.attempts.length
  logs : ∀ a ∈ s.attempts,
    a.log ≤ s.removed.length ∧ (a.log = s.removed.length → s.file ≠ none)
  logged : ∀ g c, s.content g = some c → Logged lib (s.attemptsOf g) c
  whole : ∀ w ∈ s.writer, ∀ file ∈ s.file, w.theLogNeedsNewline = false →
    Whole newline file.content
  flying : ∀ f ∈ s.inFlight, f.attempt ∈ s.attempts
  passed : ∀ n ∈ s.succeeded, ∃ a ∈ s.attempts, a.serial = n ∧ a.written = true
  reading : Reading lib s

theorem kept_initial : Kept lib {} where
  serials := rfl
  logs := List.forall_mem_nil _
  logged := fun _ _ h => by cases h
  whole := fun _ h => by cases h
  flying := List.forall_mem_nil _
  passed := List.forall_mem_nil _
  reading :=
    { fresh := fun _ => rfl
      position := fun _ h => by cases h
      later := fun _ _ => rfl
      returned := fun _ _ h => by cases h
      head := fun _ h => by cases h }

/-- An append that succeeded had written all of its text. -/
theorem Kept.written (h : Kept lib s) {a : Attempt} (ha : a ∈ s.attempts)
    (hsucceeded : a.serial ∈ s.succeeded) : a.written = true := by
  obtain ⟨b, hb, hserial, hwritten⟩ := h.passed _ hsucceeded
  have hnodup : (s.attempts.map (·.serial)).Nodup := h.serials ▸ List.nodup_range
  rwa [List.inj_on_of_nodup_map hnodup hb ha hserial] at hwritten

/-- Nothing was appended to a log that is not there. -/
theorem Kept.attemptsOf_eq_nil (h : Kept lib s) (hfile : s.file = none) :
    s.attemptsOf s.removed.length = [] := by
  unfold attemptsOf
  rw [List.filter_eq_nil_iff]
  intro a ha hlog
  exact (h.logs a ha).2 (of_decide_eq_true hlog) hfile

/-- The log under the name, or an empty one. -/
def underName (s : ManifestState) (inode : ℕ) : LogFile := s.file.getD ⟨inode, []⟩

theorem Kept.logged_underName (h : Kept lib s) (inode : ℕ) :
    Logged lib (s.attemptsOf s.removed.length) (underName s inode).content := by
  unfold underName
  cases hfile : s.file with
  | none =>
    rw [h.attemptsOf_eq_nil hfile]
    exact ⟨List.nil_sublist _, List.nil_sublist _⟩
  | some file =>
    apply h.logged
    rw [content_length, hfile]
    rfl

theorem Kept.whole_underName (h : Kept lib s) {w : Writer} (hw : s.writer = some w) (inode : ℕ)
    (hneeds : w.theLogNeedsNewline = false) : Whole newline (underName s inode).content := by
  unfold underName
  cases hfile : s.file with
  | none => exact whole_nil
  | some file => exact h.whole w hw file hfile hneeds

/-- The log under the name goes on with some text. -/
theorem grows_of_append {inode : ℕ} {text : Text} (hremoved : s'.removed = s.removed)
    (hfile : s'.file = some ⟨(underName s inode).inode, (underName s inode).content ++ text⟩) :
    Grows s s' ⟨(underName s inode).inode, (underName s inode).content ++ text⟩ := by
  refine ⟨hremoved, hfile, ?_, ?_⟩
  · intro old hold
    rw [underName, Option.mem_def.mp hold]
    rfl
  · intro old hold
    rw [underName, Option.mem_def.mp hold]
    exact List.prefix_append _ _

/-- Where one log grows, the other ones are as they were. -/
theorem Kept.logged_grow (h : Kept lib s) {log : LogFile} (hgrow : Grows s s' log)
    (hothers : ∀ g, g ≠ s.removed.length → s'.attemptsOf g = s.attemptsOf g)
    (hlogged : Logged lib (s'.attemptsOf s.removed.length) log.content) :
    ∀ g c, s'.content g = some c → Logged lib (s'.attemptsOf g) c := by
  intro g c hc
  by_cases hg : g = s.removed.length
  · subst hg
    rw [hgrow.content_length] at hc
    cases hc
    exact hlogged
  · rw [hothers g hg]
    rw [hgrow.content_eq hg] at hc
    exact h.logged g c hc

theorem whole_of_endsWithoutNewline {content : Text} (h : endsWithoutNewline content = false) :
    Whole newline content := by
  unfold endsWithoutNewline at h
  rcases Bool.and_eq_false_iff.mp h with hempty | hlast
  · left
    simpa using hempty
  · right
    simpa using hlast

/-- The text of an append ends with a newline. -/
theorem whole_appendedText (content : Text) (now : UInt64) (created needsNewline : Bool)
    (record : Record) :
    Whole newline (content ++ appendedText lib writer_id now created needsNewline record) := by
  unfold appendedText
  dsimp only
  split
  · rw [← List.append_assoc, ← List.append_assoc]
    exact whole_concat _
  · split
    · rw [← List.cons_append, ← List.append_assoc]
      exact whole_concat _
    · rw [← List.append_assoc]
      exact whole_concat _

/-! ### Steps -/

/-- The text that the opening of a log writes. -/
def openingText (lib : ManifestJson) (writer_id : Text) (now : UInt64) (content : Text)
    (bytes : ℕ) : Text :=
  (if content.isEmpty then headerLine lib writer_id now else []).take bytes

theorem startStep_cases {now : UInt64} {inode bytes : ℕ} {o : OpenOutcome}
    (h : s.startStep lib writer_id now inode bytes o = some s') :
    ∃ writer : Option Writer,
      s' = { s with
        file := some ⟨(underName s inode).inode, (underName s inode).content ++
          openingText lib writer_id now (underName s inode).content bytes⟩
        writer } ∧
      ∀ w ∈ writer, w.theLogNeedsNewline = (o.readable && endsWithoutNewline
        ((underName s inode).content ++
          openingText lib writer_id now (underName s inode).content bytes)) := by
  unfold startStep at h
  split at h
  · cases h
  · cases h
    refine ⟨_, rfl, ?_⟩
    intro w hw
    obtain ⟨-, hw⟩ := Option.ite_none_right_eq_some.mp hw
    cases hw
    rfl

theorem appendStep_cases {record : Record} {now : UInt64} {inode bytes : ℕ}
    (h : s.appendStep lib writer_id record now inode bytes = some s') :
    s' = s ∨ ∃ w, s.writer = some w ∧ record.storable = true ∧
      let text := appendedText lib writer_id now (underName s inode).content.isEmpty
        w.theLogNeedsNewline record
      let attempt : Attempt :=
        ⟨s.attempts.length, record, s.removed.length, decide (text.length ≤ bytes)⟩
      s' = { s with
        file := some ⟨(underName s inode).inode, (underName s inode).content ++ text.take bytes⟩
        writer := some { w with theLogNeedsNewline := !attempt.written }
        attempts := s.attempts ++ [attempt]
        inFlight := s.inFlight ++ [⟨attempt, (underName s inode).content.isEmpty⟩] } := by
  unfold appendStep at h
  split at h
  · cases h
  · next w hw =>
    split at h
    · cases h
      exact .inl rfl
    · next hpass =>
      rw [Bool.or_eq_true, not_or, Bool.not_eq_true', Bool.not_eq_false] at hpass
      cases h
      exact .inr ⟨w, hw, hpass.1, rfl⟩

/-- A finished append leaves the logs alone.  It succeeds where its text was written. -/
theorem finishStep_cases {i : ℕ} {synced closed directoriesSynced : Bool}
    (h : s.finishStep i synced closed directoriesSynced = some s') :
    ∃ w f, s.writer = some w ∧ f ∈ s.inFlight ∧ ∃ writer succeeded,
      s' = { s with inFlight := s.inFlight.eraseIdx i, writer := some writer, succeeded } ∧
      (writer.theLogNeedsNewline = false → w.theLogNeedsNewline = false) ∧
      (succeeded = s.succeeded ∨
        succeeded = s.succeeded ++ [f.attempt.serial] ∧ f.attempt.written = true) := by
  unfold finishStep at h
  obtain ⟨w, hw, h⟩ := Option.bind_eq_some_iff.mp h
  obtain ⟨f, hf, h⟩ := Option.bind_eq_some_iff.mp h
  refine ⟨w, f, hw, List.mem_of_getElem? hf, ?_⟩
  dsimp only at h
  split at h
  · cases h
    exact ⟨_, _, rfl, fun hneeds => hneeds, .inl rfl⟩
  · split at h
    · cases h
      refine ⟨_, _, rfl, ?_, .inl rfl⟩
      intro hneeds
      exact (Bool.or_eq_false_iff.mp hneeds).1
    · next hdone =>
      split at h
      · cases h
        exact ⟨_, _, rfl, fun hneeds => hneeds, .inl rfl⟩
      · cases h
        rw [Bool.or_eq_true, not_or, Bool.not_eq_true', Bool.not_eq_false] at hdone
        exact ⟨w, _, by rw [hw], fun hneeds => hneeds, .inr ⟨rfl, hdone.1⟩⟩

/-- A writer opens its log. -/
theorem Kept.start (hlib : lib.Faithful) (h : Kept lib s) {now : UInt64} {inode bytes : ℕ}
    {o : OpenOutcome} (hreadable : o.readable = true)
    (hstep : s.startStep lib writer_id now inode bytes o = some s') : Kept lib s' := by
  obtain ⟨writer, rfl, hwriter⟩ := startStep_cases hstep
  have hlogged := h.logged_underName inode
  have hgrow : Grows s { s with
      file := some ⟨(underName s inode).inode, (underName s inode).content ++
        openingText lib writer_id now (underName s inode).content bytes⟩
      writer } _ :=
    grows_of_append rfl rfl
  refine ⟨h.serials, ?_, ?_, ?_, h.flying, h.passed, ?_⟩
  · intro a ha
    exact ⟨(h.logs a ha).1, fun _ => Option.some_ne_none _⟩
  · apply h.logged_grow hgrow
    · exact fun _ _ => rfl
    · unfold openingText
      split
      · next hempty =>
        rw [List.isEmpty_iff] at hempty
        rw [hempty] at hlogged ⊢
        exact hlogged.header hlib writer_id now bytes
      · rw [List.take_nil, List.append_nil]
        exact hlogged
  · intro w hw file hfile hneeds
    cases hfile
    rw [hwriter w hw, hreadable, Bool.true_and] at hneeds
    exact whole_of_endsWithoutNewline hneeds
  · exact h.reading.grow hgrow rfl rfl rfl

/-- **An append, as far as its write.** -/
theorem Kept.append (hlib : lib.Faithful) (h : Kept lib s) {record : Record} {now : UInt64}
    {inode bytes : ℕ} (hop : record.op ≠ .OPEN) (hnamed : record.Named)
    (hstep : s.appendStep lib writer_id record now inode bytes = some s') : Kept lib s' := by
  rcases appendStep_cases hstep with rfl | ⟨w, hw, hstore, hs'⟩
  · exact h
  dsimp only at hs'
  generalize htext : appendedText lib writer_id now (underName s inode).content.isEmpty
    w.theLogNeedsNewline record = text at hs'
  generalize hattempt : (⟨s.attempts.length, record, s.removed.length,
    decide (text.length ≤ bytes)⟩ : Attempt) = attempt at hs'
  have hgrow : Grows s s' ⟨(underName s inode).inode,
      (underName s inode).content ++ text.take bytes⟩ := by
    apply grows_of_append
    · rw [hs']
    · rw [hs']
  have hof : ∀ g, s'.attemptsOf g =
      s.attemptsOf g ++ if g = s.removed.length then [attempt] else [] := by
    intro g
    rw [attemptsOf, hs', List.filter_append, ← hattempt]
    congr 1
    split
    · next hg => simp [hg]
    · next hg => simp [Ne.symm hg]
  have hwrote : attempt.written = true → text.length ≤ bytes := by
    rw [← hattempt]
    exact of_decide_eq_true
  refine ⟨?_, ?_, ?_, ?_, ?_, ?_, ?_⟩
  · rw [hs', List.map_append, h.serials, List.length_append, ← hattempt]
    exact List.range_succ.symm
  · intro a ha
    rw [hgrow.removed, hgrow.file]
    refine ⟨?_, fun _ => Option.some_ne_none _⟩
    rw [hs'] at ha
    rcases List.mem_append.mp ha with ha | ha
    · exact (h.logs a ha).1
    · rw [List.mem_singleton.mp ha, ← hattempt]
  · apply h.logged_grow hgrow
    · intro g hg
      rw [hof, if_neg hg, List.append_nil]
    · rw [hof, if_pos rfl]
      have hrecord : attempt.record = record := by rw [← hattempt]
      have hwrote' : attempt.written = true → (appendedText lib writer_id now
          (underName s inode).content.isEmpty w.theLogNeedsNewline
          attempt.record).length ≤ bytes := by
        rw [hrecord, htext]
        exact hwrote
      have hlog := (h.logged_underName inode).appendedText hlib (h.whole_underName hw inode)
        (hrecord ▸ hstore) (hrecord ▸ hop) (hrecord ▸ hnamed) writer_id now hwrote'
      rwa [hrecord, htext] at hlog
  · intro w' hw' file hfile hneeds
    rw [hgrow.file] at hfile
    rw [hs'] at hw'
    cases hfile
    cases hw'
    -- all of the text was written
    rw [Bool.not_eq_false'] at hneeds
    rw [List.take_of_length_le (of_decide_eq_true hneeds), ← htext]
    exact whole_appendedText _ _ _ _ _
  · intro f hf
    rw [hs'] at hf ⊢
    rcases List.mem_append.mp hf with hf | hf
    · exact List.mem_append_left _ (h.flying f hf)
    · rw [List.mem_singleton.mp hf]
      exact List.mem_append_right _ (List.mem_singleton_self _)
  · intro n hn
    rw [hs'] at hn ⊢
    obtain ⟨a, ha, hserial⟩ := h.passed n hn
    exact ⟨a, List.mem_append_left _ ha, hserial⟩
  · apply h.reading.grow hgrow
    · rw [hs']
    · rw [hs']
    · rw [hs']

/-- The end of an append. -/
theorem Kept.finish (h : Kept lib s) {i : ℕ} {synced closed directoriesSynced : Bool}
    (hstep : s.finishStep i synced closed directoriesSynced = some s') : Kept lib s' := by
  obtain ⟨w, f, hw, hf, writer, succeeded, rfl, hneeds, hpassed⟩ := finishStep_cases hstep
  refine ⟨h.serials, h.logs, h.logged, ?_, ?_, ?_, ?_⟩
  · intro w' hw' file hfile hno
    cases hw'
    exact h.whole w hw file hfile (hneeds hno)
  · intro f' hf'
    exact h.flying f' (List.mem_of_mem_eraseIdx hf')
  · intro n hn
    rcases hpassed with hsame | ⟨hmore, hwritten⟩
    · exact h.passed n (hsame ▸ hn)
    · dsimp only at hn
      rw [hmore] at hn
      rcases List.mem_append.mp hn with hn | hn
      · exact h.passed n hn
      · rw [List.mem_singleton.mp hn]
        exact ⟨f.attempt, h.flying f hf, rfl, hwritten⟩
  · exact ⟨h.reading.fresh, h.reading.position, h.reading.later, h.reading.returned,
      h.reading.head⟩

/-- The removal of the log under the name. -/
theorem Kept.remove (h : Kept lib s) (hstep : s.removeStep = some s') : Kept lib s' := by
  unfold removeStep at hstep
  obtain ⟨file, hfile, rfl⟩ := Option.map_eq_some_iff.mp hstep
  refine ⟨h.serials, ?_, ?_, ?_, h.flying, h.passed, h.reading.remove hfile⟩
  · intro a ha
    have hle := (h.logs a ha).1
    dsimp only
    rw [List.length_append, List.length_singleton]
    exact ⟨Nat.le_succ_of_le hle, fun heq => by omega⟩
  · intro g c hc
    apply h.logged g c
    rw [← hc]
    simp [content, hfile]
  · intro w hw file hnone
    cases hnone

/-- A read leaves the logs alone. -/
theorem readStep_cases {max_bytes : ℕ} {readable : Bool}
    (h : s.readStep lib max_bytes readable = some s') :
    ∃ tail followed returned, s' = { s with tail, followed, returned } := by
  unfold readStep at h
  split at h
  · cases h
    exact ⟨s.tail, s.followed, s.returned, rfl⟩
  · next file hfile =>
    dsimp only at h
    split at h
    · cases h
      exact ⟨_, _, _, by rw [hfile]⟩
    · cases h
      exact ⟨_, _, _, by rw [hfile]⟩

theorem Kept.read (h : Kept lib s) (hrec : s.Recognizes) {max_bytes : ℕ} {readable : Bool}
    (hstep : s.readStep lib max_bytes readable = some s') : Kept lib s' := by
  have hreading := h.reading.readStep hrec hstep
  obtain ⟨tail, followed, returned, rfl⟩ := readStep_cases hstep
  exact ⟨h.serials, h.logs, h.logged, h.whole, h.flying, h.passed, hreading⟩

/-- **What one step keeps.** -/
theorem Kept.step (hlib : lib.Faithful) (h : Kept lib s) {l : ManifestStep} (hproper : Proper s l)
    (hstep : ManifestState.step lib writer_id s l = some s') : Kept lib s' := by
  cases l with
  | start now inode bytes o => exact h.start hlib hproper hstep
  | exit =>
    cases hstep
    have hreading := h.reading
    exact ⟨h.serials, h.logs, h.logged, (fun _ hw => by cases hw), List.forall_mem_nil _, h.passed,
      ⟨hreading.fresh, hreading.position, hreading.later, hreading.returned, hreading.head⟩⟩
  | append record now inode bytes => exact h.append hlib hproper.1 hproper.2 hstep
  | finish i synced closed directoriesSynced => exact h.finish hstep
  | remove => exact h.remove hstep
  | read max_bytes readable => exact h.read hproper hstep

theorem Kept.agrees (h : Kept lib s) : Agrees lib writer_id s where
  succeeded := by
    intro g c hc
    refine List.Sublist.trans ?_ (h.logged g c hc).1
    apply List.Sublist.map
    have hfilter : s.succeededOf g =
        ((s.attemptsOf g).filter (·.written)).filter fun a => a.serial ∈ s.succeeded := by
      rw [succeededOf, List.filter_filter]
      apply List.filter_congr
      intro a ha
      have hwritten := h.written (List.mem_of_mem_filter ha)
      by_cases hs : a.serial ∈ s.succeeded
      · simp [hs, hwritten hs]
      · simp [hs]
    rw [hfilter]
    exact List.filter_sublist
  attempted := fun g c hc => (h.logged g c hc).attempted
  returned := h.reading.returned
  all_returned := fun file hfile hrec max_bytes hmax s' hstep =>
    h.reading.all_returned hfile hrec hmax hstep

/-- **Each log of a writer holds the records whose appends succeeded, in their order, and no
record that was not passed to an append, and a reader returns its records from the first on, each
once.** -/
theorem manifest_log_agrees (hlib : lib.Faithful) {ls : List ManifestStep}
    (hproper : (system lib writer_id).StepsMeet Proper {} ls)
    (hrun : (system lib writer_id).run {} ls = some s) : Agrees lib writer_id s := by
  have hkept : Kept lib s := Transition.System.run_induction_of_stepsMeet
    (fun _ _ _ hkept hcond hstep => hkept.step hlib hcond hstep) kept_initial hproper hrun
  exact hkept.agrees

instance (s : ManifestState) (l : ManifestStep) : Decidable (Proper s l) := by
  cases l with
  | start now inode bytes o => exact inferInstanceAs (Decidable (o.readable = true))
  | append record now inode bytes =>
    exact inferInstanceAs (Decidable (record.op ≠ .OPEN ∧ record.Named))
  | read max_bytes readable => exact inferInstanceAs (Decidable s.Recognizes)
  | exit => exact inferInstanceAs (Decidable True)
  | finish i synced closed directoriesSynced => exact inferInstanceAs (Decidable True)
  | remove => exact inferInstanceAs (Decidable True)

/-- The second append is cut short, and the log is removed after the third one. -/
def cutShort : List ManifestStep :=
  let record (name : String) : Record :=
    { chronicle := ascii "c", story := ascii "s", file := ascii name, start := 10, stop := 20 }
  [.start 5 7 1000 {}, .append (record "a") 6 0 1000, .finish 0 true true true, .read 1 true,
    .append (record "b") 7 0 30, .finish 0 true true true, .append (record "d") 8 0 1000,
    .finish 0 true true true, .read 1000 true, .remove, .append (record "e") 9 8 1000,
    .read 1000 true, .finish 0 true true true]

theorem manifest_log_agrees_cutShort :
    ∃ s, (system compactObjects (ascii "g")).run {} cutShort = some s ∧ s.succeeded = [0, 2, 3] ∧
      s.returned.map (fun r => (r.1, r.2.file)) =
        [(0, ascii "a"), (0, ascii "d"), (1, ascii "e")] ∧
      Agrees compactObjects (ascii "g") s := by
  have hproper : (system compactObjects (ascii "g")).StepsMeet Proper {} cutShort :=
    Transition.System.stepsMeet_of_check (by decide +kernel)
  have hfacts : ((system compactObjects (ascii "g")).run {} cutShort).any (fun s =>
      s.succeeded = [0, 2, 3] ∧ s.returned.map (fun r => (r.1, r.2.file)) =
        [(0, ascii "a"), (0, ascii "d"), (1, ascii "e")]) = true := by
    decide +kernel
  obtain ⟨s, hrun, hs⟩ := (Option.any_eq_true _ _).mp hfacts
  obtain ⟨hsucceeded, hreturned⟩ := of_decide_eq_true hs
  exact ⟨s, hrun, hsucceeded, hreturned,
    manifest_log_agrees compactObjects_faithful hproper hrun⟩

end ChronoLog.Archive.ManifestLog
