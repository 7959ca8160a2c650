import ChronoLog.Wal.LogImage

/-!
# Torn tails and damage

A crash tears the last group of a log: of its bytes some are there and the others
are zeros still.  Damage changes bytes that a sync had made durable.  Both end the
records of a segment early; this module proves what the checks of `readLog` make
of either.

## Main definitions

* `SegmentEnd.Clean` — the records of a segment end in zeros.
* `TornFrom`, `Revealed` — what is left of a torn group, and the checksums' part.
* `DamagedRecord`, `DamagedGroup`, `HoldsData` — damage, and the data that tells it
  from a torn write.

## Main results

* `readLog_torn` — a log with a torn last group is read, up to a prefix of it.
* `readLog_damagedRecord`, `readLog_damagedGroup` — damage is refused.
-/

namespace ChronoLog

open Wal

/-! ### The end of a segment -/

theorem firstNonZero_eq_none {bytes : Bytes} {start : ℕ} :
    firstNonZero bytes start = none ↔ allZero (bytes.drop start) := by
  simp only [firstNonZero, Option.map_eq_none_iff, List.findIdx?_eq_none_iff, allZero_iff,
    decide_eq_false_iff_not, not_not, ne_eq]

theorem isSome_firstNonZero {bytes : Bytes} {start : ℕ} :
    (firstNonZero bytes start).isSome ↔ ¬allZero (bytes.drop start) := by
  rw [← firstNonZero_eq_none, ← Option.not_isSome_iff_eq_none, not_not]

/-- The records of the segment end in zeros. -/
def SegmentEnd.Clean (ends : SegmentEnd) : Prop :=
  ends.badFrame = none ∧ ends.afterEnd = none

theorem checkOlder_eq_ok {ends : SegmentEnd} : checkOlder ends = .ok () ↔ ends.Clean := by
  rcases hbad : ends.badFrame with - | reason <;> rcases hafter : ends.afterEnd with - | offset <;>
    simp [checkOlder, SegmentEnd.Clean, hbad, hafter]

theorem checkAllOlder_eq_ok {ends : List SegmentEnd} :
    checkAllOlder ends = .ok () ↔ ∀ e ∈ ends, e.Clean := by
  induction ends with
  | nil => simp [checkAllOlder]
  | cons e ends ih =>
    rw [List.forall_mem_cons, ← ih, ← checkOlder_eq_ok, checkAllOlder]
    cases checkOlder e with
    | error err => simp [bind, Except.bind]
    | ok u => simp [bind, Except.bind]

theorem SegmentEnd.Clean.checkNewest {ends : SegmentEnd} (h : ends.Clean) :
    checkNewest ends = .ok () := by
  simp [ChronoLog.checkNewest, tornTail, h.1, h.2]

/-- A torn tail passes where it lies within the last group. -/
theorem checkNewest_eq_ok {ends : SegmentEnd} : checkNewest ends = .ok () ↔
    (ends.tornTail = true → ∀ groupEnd, ends.groupEnd = some groupEnd →
      ends.dataEnd ≤ groupEnd ∧ ends.afterGroup = none) := by
  rw [checkNewest]
  by_cases htorn : ends.tornTail
  · rcases hgroup : ends.groupEnd with - | groupEnd
    · simp [htorn]
    · by_cases hlt : groupEnd < ends.dataEnd
      · simp [htorn, hlt]
      · rcases hafter : ends.afterGroup with - | offset <;> simp [htorn, hlt, Nat.not_lt.mp hlt]
  · simp [htorn]

/-! ### The newest segment with data -/

theorem newestWithData_eq_none {ends : List SegmentEnd} :
    newestWithData ends = none ↔ ∀ e ∈ ends, e.dataAfterHeader = false := by
  induction ends with
  | nil => simp [newestWithData]
  | cons e ends ih =>
    rw [List.forall_mem_cons, ← ih, newestWithData]
    rcases hrest : newestWithData ends with - | ⟨older, newest⟩
    · by_cases hdata : e.dataAfterHeader <;> simp [hdata]
    · simp

/-- Where no later segment has data, a segment with data is the newest. -/
theorem newestWithData_append {before after : List SegmentEnd} {e : SegmentEnd}
    (he : e.dataAfterHeader = true) (hafter : ∀ e ∈ after, e.dataAfterHeader = false) :
    newestWithData (before ++ e :: after) = some (before, e) := by
  induction before with
  | nil => simp [newestWithData, newestWithData_eq_none.mpr hafter, he]
  | cons b before ih => simp [newestWithData, ih]

theorem mem_of_newestWithData {ends older : List SegmentEnd} {newest : SegmentEnd}
    (h : newestWithData ends = some (older, newest)) :
    newest ∈ ends ∧ newest.dataAfterHeader = true ∧ ∀ e ∈ older, e ∈ ends := by
  induction ends generalizing older with
  | nil => cases h
  | cons e ends ih =>
    rw [newestWithData] at h
    rcases hrest : newestWithData ends with - | ⟨older', newest'⟩
    · rw [hrest] at h
      by_cases hdata : e.dataAfterHeader
      · rw [if_pos hdata] at h
        cases h
        exact ⟨List.mem_cons_self, hdata, by simp⟩
      · rw [if_neg hdata] at h
        cases h
    · rw [hrest] at h
      cases h
      obtain ⟨hmem, hdata, holder⟩ := ih hrest
      refine ⟨List.mem_cons_of_mem _ hmem, hdata, fun x hx => ?_⟩
      rcases List.mem_cons.mp hx with rfl | hx
      · exact List.mem_cons_self
      · exact List.mem_cons_of_mem _ (holder x hx)

/-- A segment that a later one with data follows is not the newest. -/
theorem exists_newestWithData (before : List SegmentEnd) (e : SegmentEnd) {after : List SegmentEnd}
    (hafter : ∃ x ∈ after, x.dataAfterHeader = true) :
    ∃ older newest, newestWithData (before ++ e :: after) = some (older, newest) ∧ e ∈ older := by
  have hsome : newestWithData after ≠ none := by
    intro hnone
    obtain ⟨x, hx, hdata⟩ := hafter
    rw [newestWithData_eq_none.mp hnone x hx] at hdata
    cases hdata
  obtain ⟨⟨older, newest⟩, hnewest⟩ := Option.ne_none_iff_exists'.mp hsome
  induction before with
  | nil => exact ⟨e :: older, newest, by simp [newestWithData, hnewest], List.mem_cons_self⟩
  | cons b before ih =>
    obtain ⟨older', newest', heq, hmem⟩ := ih
    exact ⟨b :: older', newest', by simp [newestWithData, heq], List.mem_cons_of_mem _ hmem⟩

/-- Segments without data at the end do not matter. -/
theorem newestWithData_append_of_none {ends spares : List SegmentEnd}
    (h : ∀ e ∈ spares, e.dataAfterHeader = false) :
    newestWithData (ends ++ spares) = newestWithData ends := by
  induction ends with
  | nil => exact newestWithData_eq_none.mpr h
  | cons e ends ih => simp only [List.cons_append, newestWithData, ih]

/-- The checks pass where every segment ends in zeros. -/
theorem checkEnds_of_clean {ends : List SegmentEnd} (h : ∀ e ∈ ends, e.Clean) :
    checkEnds ends = .ok () := by
  rcases hnewest : newestWithData ends with - | ⟨older, newest⟩
  · rw [checkEnds, hnewest]
  · obtain ⟨hmem, -, holder⟩ := mem_of_newestWithData hnewest
    have hall : checkAllOlder older = .ok () :=
      checkAllOlder_eq_ok.mpr fun e he => h e (holder e he)
    simp only [checkEnds, hnewest, hall, (h newest hmem).checkNewest, bind, Except.bind]

/-- The checks pass where the segments with data end in zeros, but for the newest, which
passes its own. -/
theorem checkEnds_eq_ok {older spares : List SegmentEnd} {e : SegmentEnd}
    (holder : ∀ x ∈ older, x.Clean) (he : checkNewest e = .ok ())
    (hspares : ∀ x ∈ spares, x.dataAfterHeader = false) :
    checkEnds (older ++ e :: spares) = .ok () := by
  by_cases hdata : e.dataAfterHeader = true
  · have hall : checkAllOlder older = .ok () := checkAllOlder_eq_ok.mpr holder
    simp only [checkEnds, newestWithData_append hdata hspares, hall, he, bind, Except.bind]
  · have hrest : ∀ x ∈ e :: spares, x.dataAfterHeader = false := by
      intro x hx
      rcases List.mem_cons.mp hx with rfl | hx
      · exact Bool.not_eq_true _ ▸ hdata
      · exact hspares x hx
    have heq : checkEnds (older ++ e :: spares) = checkEnds older := by
      simp only [checkEnds, newestWithData_append_of_none hrest]
    rw [heq]
    exact checkEnds_of_clean holder

/-! ### What is read of a segment -/

/-- **What is read of a segment does not depend on what follows its records**, as long as
it is no frame: only where they end does. -/
theorem readSegment_eq_ok {segment : ℕ} {bodies : List Bytes} {rest : Bytes}
    {state state' : RecoveredState} {ends : SegmentEnd}
    (hsized : ∀ body ∈ bodies, WellSized body) (hrest : NoFrame rest)
    (h : readSegment segment (framed bodies ++ rest) state = .ok (state', ends)) :
    ∃ header records, bodies = header :: records ∧
      ∀ rest', NoFrame rest' → rest'.length = rest.length →
        readSegment segment (framed bodies ++ rest') state =
          .ok (state', segmentEnd segment (framed bodies ++ rest') ⟨0, header⟩
            (scannedFrom (kFrameHeaderBytes + header.length) records)
            (framed bodies).length (readFrame rest').reason) := by
  rcases bodies with - | ⟨header, records⟩
  · simp only [readSegment, scanSegment_framed hsized hrest, scannedFrom] at h
    cases h
  · refine ⟨header, records, rfl, fun rest' hrest' hlength => ?_⟩
    simp only [readSegment, scanSegment_framed hsized hrest, scannedFrom, Nat.zero_add] at h
    simp only [readSegment, scanSegment_framed hsized hrest', scannedFrom, Nat.zero_add,
      List.length_append, hlength]
    rw [List.length_append] at h
    split at h
    · cases h
    rename_i htype
    rw [if_neg htype]
    split at h
    · split at h <;> cases h
    split at h
    · cases h
    rename_i hnumber
    rw [if_neg hnumber]
    cases happly : applyRecords segment
        (scannedFrom (kFrameHeaderBytes + header.length) records)
        { state with bytesRead := state.bytesRead +
          ((framed (header :: records)).length + rest.length) } with
    | error err =>
      rw [happly] at h
      cases h
    | ok applied =>
      rw [happly] at h
      cases h
      rfl

/-- Where the records of a segment end, once it is read. -/
theorem segmentEnd_of_readSegment {segment : ℕ} {bodies : List Bytes} {rest : Bytes}
    {state state' : RecoveredState} {ends : SegmentEnd}
    (hsized : ∀ body ∈ bodies, WellSized body) (hrest : NoFrame rest)
    (h : readSegment segment (framed bodies ++ rest) state = .ok (state', ends)) :
    ∃ header records, bodies = header :: records ∧
      ends = segmentEnd segment (framed bodies ++ rest) ⟨0, header⟩
        (scannedFrom (kFrameHeaderBytes + header.length) records)
        (framed bodies).length (readFrame rest).reason := by
  obtain ⟨header, records, hbodies, heq⟩ := readSegment_eq_ok hsized hrest h
  have hread := heq rest hrest rfl
  rw [h] at hread
  cases hread
  exact ⟨header, records, hbodies, rfl⟩

theorem readSegments_cons {file : ℕ × Bytes} {files : List (ℕ × Bytes)}
    {state state' : RecoveredState} {ends : List SegmentEnd}
    (h : readSegments (file :: files) state = .ok (state', ends)) :
    ∃ state₁ e rest, readSegment file.1 file.2 state = .ok (state₁, e) ∧
      readSegments files state₁ = .ok (state', rest) ∧ ends = e :: rest := by
  simp only [readSegments, bind, Except.bind] at h
  rcases hfile : readSegment file.1 file.2 state with err | ⟨state₁, e⟩
  · rw [hfile] at h
    cases h
  simp only [hfile] at h
  rcases hfiles : readSegments files state₁ with err | ⟨state₂, rest⟩
  · rw [hfiles] at h
    cases h
  rw [hfiles] at h
  cases h
  exact ⟨state₁, e, rest, rfl, hfiles, rfl⟩

theorem readSegments_append (files files' : List (ℕ × Bytes)) (state : RecoveredState) :
    readSegments (files ++ files') state =
      (readSegments files state).bind fun (state, ends) =>
        (readSegments files' state).map fun (state, ends') => (state, ends ++ ends') := by
  induction files generalizing state with
  | nil =>
    simp only [List.nil_append, readSegments, Except.bind]
    cases readSegments files' state <;> rfl
  | cons file files ih =>
    simp only [List.cons_append, readSegments, bind, Except.bind]
    cases readSegment file.1 file.2 state with
    | error err => rfl
    | ok read =>
      simp only [ih, Except.bind]
      cases readSegments files read.1 with
      | error err => rfl
      | ok rest =>
        simp only [pure, Except.pure, Except.map]
        cases readSegments files' rest.1 <;> rfl

/-! ### Invariants of a replay -/

/-- What a record does to the state. -/
theorem applyRecord_cases {record : ScannedRecord} {segment : ℕ} {state state' : RecoveredState}
    (h : applyRecord record segment state = .ok state') :
    (∃ names, state' = state.applyNames names) ∨
    (∃ event bytes, state' = state.applyEvent segment event bytes) ∨
    (∃ storyId, state' = state.applyDropped segment storyId) ∨ state' = state := by
  simp only [applyRecord] at h
  split at h
  · split at h <;> cases h
    exact .inl ⟨_, rfl⟩
  split at h
  · split at h <;> cases h
    exact .inr (.inl ⟨_, _, rfl⟩)
  split at h
  · split at h <;> cases h
    exact .inr (.inr (.inl ⟨_, rfl⟩))
  split at h
  · split at h
    · cases h
    · split at h <;> cases h
      exact .inr (.inr (.inr rfl))
  split at h <;> cases h

/-- What the records of segments that meet `P` keep. -/
structure ReplayInvariant (I : RecoveredState → Prop) (P : ℕ → Prop) : Prop where
  names : ∀ state names, I state → I (state.applyNames names)
  event : ∀ state segment event bytes, P segment → I state →
    I (state.applyEvent segment event bytes)
  dropped : ∀ state segment storyId, P segment → I state → I (state.applyDropped segment storyId)
  bytesRead : ∀ state bytes, I state → I { state with bytesRead := bytes }

namespace ReplayInvariant

variable {I : RecoveredState → Prop} {P : ℕ → Prop} {state state' : RecoveredState}

theorem applyRecords (hinv : ReplayInvariant I P) {segment : ℕ} (hsegment : P segment)
    {records : List ScannedRecord} (hstate : I state)
    (h : applyRecords segment records state = .ok state') : I state' := by
  induction records generalizing state with
  | nil =>
    cases h
    exact hstate
  | cons record records ih =>
    rw [ChronoLog.applyRecords] at h
    rcases hrecord : applyRecord record segment state with err | state₁
    · rw [hrecord] at h
      cases h
    · rw [hrecord] at h
      refine ih ?_ h
      obtain ⟨names, rfl⟩ | ⟨event, bytes, rfl⟩ | ⟨storyId, rfl⟩ | rfl := applyRecord_cases hrecord
      · exact hinv.names _ _ hstate
      · exact hinv.event _ _ _ _ hsegment hstate
      · exact hinv.dropped _ _ _ hsegment hstate
      · exact hstate

theorem readSegment (hinv : ReplayInvariant I P) {segment : ℕ} (hsegment : P segment)
    {bytes : Bytes} {ends : SegmentEnd} (hstate : I state)
    (h : readSegment segment bytes state = .ok (state', ends)) : I state' := by
  rcases hscan : (scanSegment bytes).records with - | ⟨header, records⟩
  · simp only [ChronoLog.readSegment, hscan] at h
    cases h
  simp only [ChronoLog.readSegment, hscan] at h
  split at h
  · cases h
  split at h
  · split at h <;> cases h
  split at h
  · cases h
  rcases hrecords : ChronoLog.applyRecords segment records
      { state with bytesRead := state.bytesRead + bytes.length } with err | state₁
  · rw [hrecords] at h
    cases h
  · rw [hrecords] at h
    cases h
    exact hinv.applyRecords hsegment (hinv.bytesRead _ _ hstate) hrecords

/-- **What every record keeps holds of what is read.** -/
theorem readSegments (hinv : ReplayInvariant I P) {files : List (ℕ × Bytes)}
    (hfiles : ∀ file ∈ files, P file.1) {ends : List SegmentEnd} (hstate : I state)
    (h : readSegments files state = .ok (state', ends)) : I state' := by
  induction files generalizing state ends with
  | nil =>
    cases h
    exact hstate
  | cons file files ih =>
    obtain ⟨state₁, e, rest, hfile, hrest, rfl⟩ := readSegments_cons h
    rw [List.forall_mem_cons] at hfiles
    exact ih hfiles.2 (hinv.readSegment hfiles.1 hstate hfile) hrest

end ReplayInvariant

/-! ### A torn group -/

/-- What is left of bytes that were being written: each of them, or a zero. -/
def TornFrom (bytes left : Bytes) : Prop := List.Forall₂ (fun b b' => b' = b ∨ b' = 0) bytes left

/-- The checksums reveal every frame that is not there as it was written: it does not read
as a record. -/
def Revealed (bodies : List Bytes) (rest : Bytes) : Prop :=
  ∀ kept body later left, bodies = kept ++ body :: later → rest = framed kept ++ left →
    ¬frame body <+: left → NoFrame left

/-- What is read of a torn group: its first frames, up to the first that is not whole. -/
theorem exists_kept {bodies : List Bytes} {left : Bytes} {free : ℕ}
    (htorn : TornFrom (framed bodies) left)
    (hrevealed : Revealed bodies (left ++ List.replicate free 0)) :
    ∃ kept later tail, bodies = kept ++ later ∧
      left ++ List.replicate free 0 = framed kept ++ tail ∧ NoFrame tail := by
  -- the frames known to be whole grow until one is not
  have hfrom : ∀ later kept tail, bodies = kept ++ later →
      left ++ List.replicate free 0 = framed kept ++ tail →
      ∃ kept later tail, bodies = kept ++ later ∧
        left ++ List.replicate free 0 = framed kept ++ tail ∧ NoFrame tail := by
    intro later
    induction later with
    | nil =>
      intro kept tail hbodies hrest
      refine ⟨kept, [], tail, hbodies, hrest, noFrame_of_allZero ?_⟩
      have hlength : left.length = (framed kept).length := by
        rw [← htorn.length_eq, hbodies, List.append_nil]
      rw [← (List.append_inj hrest hlength).2]
      exact allZero_replicate free
    | cons body later ih =>
      intro kept tail hbodies hrest
      by_cases hwhole : frame body <+: tail
      · obtain ⟨tail', rfl⟩ := hwhole
        refine ih (kept ++ [body]) tail' (by rw [hbodies, List.append_assoc]; rfl) ?_
        rw [hrest, framed_append, List.append_assoc]
        simp only [framed_cons, framed_nil, List.append_nil]
      · exact ⟨kept, body :: later, tail, hbodies, hrest,
          hrevealed kept body later tail hbodies hrest hwhole⟩
  exact hfrom bodies [] _ rfl rfl

/-! ### Replay

The list of segments and the count of bytes read are no part of what records say.
-/

theorem LoggedRecord.apply_bytesRead (segment bytes : ℕ) (state : RecoveredState)
    (logged : LoggedRecord) : logged.apply segment { state with bytesRead := bytes } =
      { logged.apply segment state with bytesRead := bytes } := by
  rcases logged with ⟨names | event | storyId, body, hasBody, fits⟩ <;> rfl

theorem LoggedRecord.apply_segments (segment : ℕ) (segments : List ℕ) (state : RecoveredState)
    (logged : LoggedRecord) : logged.apply segment { state with segments := segments } =
      { logged.apply segment state with segments := segments } := by
  rcases logged with ⟨names | event | storyId, body, hasBody, fits⟩ <;> rfl

theorem foldl_apply_bytesRead (segment bytes : ℕ) (state : RecoveredState)
    (records : List LoggedRecord) :
    records.foldl (LoggedRecord.apply segment) { state with bytesRead := bytes } =
      { records.foldl (LoggedRecord.apply segment) state with bytesRead := bytes } :=
  List.foldl_hom (fun state : RecoveredState => { state with bytesRead := bytes })
    (LoggedRecord.apply_bytesRead segment bytes)

theorem foldl_apply_segments (segment : ℕ) (segments : List ℕ) (state : RecoveredState)
    (records : List LoggedRecord) :
    records.foldl (LoggedRecord.apply segment) { state with segments := segments } =
      { records.foldl (LoggedRecord.apply segment) state with segments := segments } :=
  List.foldl_hom (fun state : RecoveredState => { state with segments := segments })
    (LoggedRecord.apply_segments segment segments)

theorem LoggedGroup.apply_bytesRead (segment bytes : ℕ) (state : RecoveredState)
    (group : LoggedGroup) : group.apply segment { state with bytesRead := bytes } =
      { group.apply segment state with bytesRead := bytes } :=
  foldl_apply_bytesRead segment bytes state group.records

theorem LoggedGroup.apply_segments (segment : ℕ) (segments : List ℕ) (state : RecoveredState)
    (group : LoggedGroup) : group.apply segment { state with segments := segments } =
      { group.apply segment state with segments := segments } :=
  foldl_apply_segments segment segments state group.records

theorem LoggedSegment.apply_bytesRead (bytes : ℕ) (state : RecoveredState)
    (segment : LoggedSegment) : segment.apply { state with bytesRead := bytes } =
      { segment.apply state with bytesRead := bytes } := by
  rw [LoggedSegment.apply, LoggedSegment.apply]
  exact List.foldl_hom (fun state : RecoveredState => { state with bytesRead := bytes })
    (LoggedGroup.apply_bytesRead segment.number bytes)

theorem LoggedSegment.apply_segments (segments : List ℕ) (state : RecoveredState)
    (segment : LoggedSegment) : segment.apply { state with segments := segments } =
      { segment.apply state with segments := segments } := by
  rw [LoggedSegment.apply, LoggedSegment.apply]
  exact List.foldl_hom (fun state : RecoveredState => { state with segments := segments })
    (LoggedGroup.apply_segments segment.number segments)

/-- What the replay of segments does. -/
def replay (segments : List LoggedSegment) : RecoveredState :=
  segments.foldl LoggedSegment.apply {}

theorem foldl_segments_bytesRead (bytes : ℕ) (state : RecoveredState)
    (segments : List LoggedSegment) :
    segments.foldl LoggedSegment.apply { state with bytesRead := bytes } =
      { segments.foldl LoggedSegment.apply state with bytesRead := bytes } :=
  List.foldl_hom (fun state : RecoveredState => { state with bytesRead := bytes })
    (LoggedSegment.apply_bytesRead bytes)

theorem foldl_segments_segments (numbers : List ℕ) (state : RecoveredState)
    (segments : List LoggedSegment) :
    segments.foldl LoggedSegment.apply { state with segments := numbers } =
      { segments.foldl LoggedSegment.apply state with segments := numbers } :=
  List.foldl_hom (fun state : RecoveredState => { state with segments := numbers })
    (LoggedSegment.apply_segments numbers)

theorem foldl_segments_of_empty {segments : List LoggedSegment}
    (h : ∀ segment ∈ segments, segment.groups = []) (state : RecoveredState) :
    segments.foldl LoggedSegment.apply state = state := by
  induction segments with
  | nil => rfl
  | cons segment segments ih =>
    rw [List.forall_mem_cons] at h
    rw [List.foldl_cons, LoggedSegment.apply, h.1, List.foldl_nil]
    exact ih h.2

/-- What is read of a segment that is zero past its last group. -/
theorem readSegment_file (segment : LoggedSegment) (state : RecoveredState) :
    ∃ ends, readSegment segment.file.1 segment.file.2 state =
        .ok ({ segment.apply state with
          bytesRead := state.bytesRead + segment.file.2.length }, ends) ∧
      ends.Clean ∧ (segment.groups = [] → ends.dataAfterHeader = false) := by
  have hzero : allZero (List.replicate segment.free (0 : UInt8)) := allZero_replicate _
  have hread := readSegment_framed segment (sized_groupBodies segment.groups)
    (noFrame_of_allZero hzero) state
  rw [applyRecords_groups] at hread
  rw [show segment.groups.foldl (LoggedGroup.apply segment.number) _ = segment.apply _ from rfl,
    segment.apply_bytesRead] at hread
  have hafter : firstNonZero (framed (segment.header.body :: groupBodies segment.groups) ++
      List.replicate segment.free 0)
      (framed (segment.header.body :: groupBodies segment.groups)).length = none := by
    rw [firstNonZero_eq_none, List.drop_left]
    exact hzero
  refine ⟨_, hread, ⟨?_, hafter⟩, fun hempty => ?_⟩
  · rw [segmentEnd, readFrame_of_allZero hzero]
    rfl
  · have hend : (framed (segment.header.body :: groupBodies segment.groups)).length =
        kFrameHeaderBytes + segment.header.body.length := by
      rw [hempty, groupBodies, List.flatMap_nil, framed_cons, framed_nil, List.append_nil,
        length_frame]
    rw [hend] at hafter
    simp only [SegmentEnd.dataAfterHeader, segmentEnd, hend, hafter, lt_irrefl, decide_false,
      Option.isSome_none, Bool.or_false]

theorem readSegments_files (segments : List LoggedSegment) (state : RecoveredState) :
    ∃ bytes ends, readSegments (segments.map LoggedSegment.file) state =
        .ok ({ segments.foldl LoggedSegment.apply state with bytesRead := bytes }, ends) ∧
      (∀ e ∈ ends, e.Clean) ∧
      ((∀ segment ∈ segments, segment.groups = []) → ∀ e ∈ ends, e.dataAfterHeader = false) := by
  induction segments generalizing state with
  | nil => exact ⟨state.bytesRead, [], rfl, by simp, by simp⟩
  | cons segment segments ih =>
    obtain ⟨e, hread, hclean, hempty⟩ := readSegment_file segment state
    obtain ⟨bytes, ends, hreads, hcleans, hempties⟩ :=
      ih { segment.apply state with bytesRead := state.bytesRead + segment.file.2.length }
    refine ⟨bytes, e :: ends, ?_, ?_, fun hall x hx => ?_⟩
    · rw [List.map_cons, readSegments, hread]
      simp only [bind, Except.bind, hreads, pure, Except.pure, List.foldl_cons]
      rw [foldl_segments_bytesRead]
    · exact List.forall_mem_cons.mpr ⟨hclean, hcleans⟩
    · rw [List.forall_mem_cons] at hall
      rcases List.mem_cons.mp hx with rfl | hx
      · exact hempty hall.1
      · exact hempties hall.2 x hx

theorem LoggedSegment.length_written (segment : LoggedSegment) :
    segment.written.length = kFrameHeaderBytes + segment.header.body.length +
      (framed (groupBodies segment.groups)).length := by
  rw [LoggedSegment.written, framed_cons, List.length_append, length_frame]

/-- What is read of whole groups, with bytes that are no frame after them. -/
theorem readSegment_groups (segment : LoggedSegment) {tail : Bytes}
    (hwhole : ∀ group ∈ segment.groups, group.Whole) (htail : NoFrame tail)
    (state : RecoveredState) :
    ∃ bytes ends, readSegment segment.number (segment.written ++ tail) state =
        .ok ({ segment.apply state with bytesRead := bytes }, ends) ∧
      checkNewest ends = .ok () := by
  have hread := readSegment_framed segment (sized_groupBodies segment.groups) htail state
  rw [applyRecords_groups] at hread
  rw [show segment.groups.foldl (LoggedGroup.apply segment.number) _ = segment.apply _ from rfl,
    segment.apply_bytesRead] at hread
  refine ⟨_, _, hread, checkNewest_eq_ok.mpr fun _ => ?_⟩
  simp only [segmentEnd]
  rcases lastGroupEnd_groups (kFrameHeaderBytes + segment.header.body.length) segment.groups
    hwhole with ⟨hnone, -⟩ | hend
  · rw [hnone]
    intro groupEnd heq
    cases heq
  · rw [hend, Option.bind_some, ← segment.length_written]
    intro groupEnd heq
    cases heq
    exact ⟨le_rfl, if_neg fun h => absurd h.1 (lt_irrefl _)⟩

/-- The first records of a group end within it. -/
theorem LoggedGroup.length_begun_le (torn : LoggedGroup) {records : List LoggedRecord}
    (h : records <+: torn.records) :
    (framed (groupBody torn.size :: records.map LoggedRecord.body)).length ≤ torn.size := by
  obtain ⟨rest, hrest⟩ := h
  have hle := torn.length_le
  rw [← torn.length_framed, LoggedGroup.bodies, ← hrest, List.map_append, ← List.cons_append,
    framed_append, List.length_append] at hle
  omega

/-- What is read of whole groups and the first records of another one, with bytes that
are no frame after them. -/
theorem readSegment_begun (segment : LoggedSegment) {torn : LoggedGroup}
    {records : List LoggedRecord} {tail : Bytes} (hrecords : records <+: torn.records)
    (htail : NoFrame tail)
    (hzero : allZero ((framed (groupBody torn.size :: records.map LoggedRecord.body) ++ tail).drop
      torn.size)) (state : RecoveredState) :
    ∃ bytes ends, readSegment segment.number (segment.written ++
          (framed (groupBody torn.size :: records.map LoggedRecord.body) ++ tail)) state =
        .ok ({ records.foldl (LoggedRecord.apply segment.number) (segment.apply state) with
          bytesRead := bytes }, ends) ∧
      checkNewest ends = .ok () := by
  have hsized : ∀ body ∈ groupBodies segment.groups ++
      groupBody torn.size :: records.map LoggedRecord.body, WellSized body := by
    intro body hbody
    rcases List.mem_append.mp hbody with hbody | hbody
    · exact sized_groupBodies _ body hbody
    · rcases List.mem_cons.mp hbody with rfl | hbody
      · exact sized_groupBody _
      · obtain ⟨logged, -, rfl⟩ := List.mem_map.mp hbody
        exact logged.sized
  have hfile : segment.written ++
      (framed (groupBody torn.size :: records.map LoggedRecord.body) ++ tail) =
      framed (segment.header.body :: (groupBodies segment.groups ++
        groupBody torn.size :: records.map LoggedRecord.body)) ++ tail := by
    simp only [LoggedSegment.written, framed_cons, framed_append, List.append_assoc]
  have hread := readSegment_framed segment hsized htail state
  rw [scannedFrom_append, applyRecords_append, applyRecords_groups, Except.bind,
    applyRecords_begun, ← hfile] at hread
  rw [show segment.groups.foldl (LoggedGroup.apply segment.number) _ = segment.apply _ from rfl,
    segment.apply_bytesRead, foldl_apply_bytesRead] at hread
  have hend : lastGroupEnd (scannedFrom (kFrameHeaderBytes + segment.header.body.length)
      (groupBodies segment.groups) ++ scannedFrom (kFrameHeaderBytes + segment.header.body.length +
        (framed (groupBodies segment.groups)).length)
        (groupBody torn.size :: records.map LoggedRecord.body)) =
      some (segment.written.length + torn.size) := by
    rw [lastGroupEnd_append, lastGroupEnd_begun, Option.some_or, ← segment.length_written]
  refine ⟨_, _, hread, checkNewest_eq_ok.mpr fun _ => ?_⟩
  simp only [segmentEnd, hend, Option.some.injEq]
  rintro groupEnd rfl
  constructor
  · rw [← List.cons_append, framed_append, List.length_append, ← LoggedSegment.written]
    exact Nat.add_le_add_left (torn.length_begun_le hrecords) _
  · simp only [Option.bind_some, ite_eq_right_iff]
    intro
    rw [firstNonZero_eq_none, ← List.drop_drop, List.drop_left]
    exact hzero

/-- **What is read of a segment with a torn last group**: its whole groups, and the first
records of the torn one. -/
theorem readSegment_torn (segment : LoggedSegment) {torn : LoggedGroup} {left : Bytes} {free : ℕ}
    (hwhole : ∀ group ∈ segment.groups, group.Whole) (hgroup : torn.Whole)
    (htorn : TornFrom (framed torn.bodies) left)
    (hrevealed : Revealed torn.bodies (left ++ List.replicate free 0)) (state : RecoveredState) :
    ∃ kept, kept <+: torn.records ∧ ∃ bytes ends,
      readSegment segment.number (segment.written ++ (left ++ List.replicate free 0)) state =
        .ok ({ kept.foldl (LoggedRecord.apply segment.number) (segment.apply state) with
          bytesRead := bytes }, ends) ∧
      checkNewest ends = .ok () := by
  obtain ⟨kept, later, tail, hbodies, hrest, hnone⟩ := exists_kept htorn hrevealed
  rcases kept with - | ⟨mark, kept⟩
  · -- the G record is lost, and every record of the group with it
    rw [framed_nil, List.nil_append] at hrest
    rw [hrest]
    exact ⟨[], List.nil_prefix, readSegment_groups segment hwhole hnone state⟩
  · rw [LoggedGroup.bodies, List.cons_append, List.cons.injEq] at hbodies
    obtain ⟨rfl, hkept⟩ := hbodies
    obtain ⟨records, rest, hrecords, rfl, -⟩ := List.map_eq_append_iff.mp hkept
    have hfront : records <+: torn.records := ⟨rest, hrecords.symm⟩
    -- past the torn group there are zeros
    have hzero : allZero ((left ++ List.replicate free 0).drop torn.size) := by
      have hsize : torn.size = left.length := by
        rw [← htorn.length_eq, torn.length_framed]
        exact hgroup
      rw [hsize, List.drop_left]
      exact allZero_replicate free
    rw [hrest] at hzero ⊢
    exact ⟨records, hfront, readSegment_begun segment hfront hnone hzero state⟩

/-- **A log with a torn last group is read**: every record of the groups before it, and
the first records of that one. -/
theorem readLog_torn (older spares : List LoggedSegment) (segment : LoggedSegment)
    {torn : LoggedGroup} {left : Bytes} {free : ℕ}
    (hwhole : ∀ group ∈ segment.groups, group.Whole) (hgroup : torn.Whole)
    (htorn : TornFrom (framed torn.bodies) left)
    (hrevealed : Revealed torn.bodies (left ++ List.replicate free 0))
    (hspares : ∀ spare ∈ spares, spare.groups = []) :
    ∃ kept, kept <+: torn.records ∧ ∃ numbers bytes ends,
      readLog (older.map LoggedSegment.file ++
          (segment.number, segment.written ++ (left ++ List.replicate free 0)) ::
          spares.map LoggedSegment.file) =
        .ok ({ kept.foldl (LoggedRecord.apply segment.number) (replay (older ++ [segment])) with
          segments := numbers, bytesRead := bytes }, ends) := by
  obtain ⟨numbers, hnumbers⟩ : ∃ numbers : List ℕ, (older.map LoggedSegment.file ++
      (segment.number, segment.written ++ (left ++ List.replicate free 0)) ::
      spares.map LoggedSegment.file).map Prod.fst = numbers := ⟨_, rfl⟩
  obtain ⟨bytes₁, ends₁, hread₁, hclean₁, -⟩ := readSegments_files older { segments := numbers }
  obtain ⟨kept, hkept, bytes₂, e, hread₂, hnewest⟩ := readSegment_torn segment hwhole hgroup htorn
    hrevealed { older.foldl LoggedSegment.apply { segments := numbers } with bytesRead := bytes₁ }
  obtain ⟨bytes₃, ends₃, hread₃, -, hempty₃⟩ := readSegments_files spares
    { kept.foldl (LoggedRecord.apply segment.number) (segment.apply
      { older.foldl LoggedSegment.apply { segments := numbers } with bytesRead := bytes₁ }) with
      bytesRead := bytes₂ }
  refine ⟨kept, hkept, numbers, bytes₃, ends₁ ++ e :: ends₃, ?_⟩
  have hchecks : checkEnds (ends₁ ++ e :: ends₃) = .ok () :=
    checkEnds_eq_ok hclean₁ hnewest (hempty₃ hspares)
  have hreplay : replay (older ++ [segment]) =
      segment.apply (older.foldl LoggedSegment.apply {}) := by
    rw [replay, List.foldl_append]
    rfl
  rw [foldl_segments_of_empty hspares] at hread₃
  simp only [readLog, hnumbers, readSegments_append, hread₁, Except.bind, readSegments, hread₂,
    hread₃, bind, pure, Except.pure, Except.map, hchecks]
  rw [foldl_segments_segments numbers {} older, segment.apply_bytesRead, segment.apply_segments,
    foldl_apply_bytesRead, foldl_apply_segments, ← hreplay]

/-! ### Damage -/

/-- The segment holds something other than zeros after its H record. -/
def HoldsData (file : ℕ × Bytes) : Prop :=
  ∃ header rest, WellSized header ∧ file.2 = frame header ++ rest ∧ ¬allZero rest

/-- A record of the segment is damaged, and revealed: the bytes from it on do not start
with a frame, and behind the H record they are not just zeros, which no reader could tell
from the end of the records. -/
def DamagedRecord (segment : LoggedSegment) (bytes : Bytes) : Prop :=
  ∃ before body later damaged rest,
    segment.header.body :: groupBodies segment.groups = before ++ body :: later ∧
    bytes = framed before ++ (damaged ++ rest) ∧ damaged.length = (frame body).length ∧
    NoFrame (damaged ++ rest) ∧ (before ≠ [] → ¬allZero (damaged ++ rest))

/-- A group whose G record is intact is damaged behind it, revealed, and another group
follows it. -/
def DamagedGroup (segment : LoggedSegment) (bytes : Bytes) : Prop :=
  ∃ earlier damagedGroup next later kept lost damaged rest,
    segment.groups = earlier ++ damagedGroup :: next :: later ∧ damagedGroup.Whole ∧
    damagedGroup.records = kept ++ lost ∧
    damaged.length = (framed (lost.map LoggedRecord.body)).length ∧
    bytes = framed (segment.header.body :: groupBodies earlier) ++
      (framed (groupBody damagedGroup.size :: kept.map LoggedRecord.body) ++
        (damaged ++ (framed next.bodies ++ rest))) ∧
    NoFrame (damaged ++ (framed next.bodies ++ rest))

/-- A frame is not just zeros. -/
theorem not_allZero_of_frame {body : Bytes} (h : WellSized body) (rest : Bytes) :
    ¬allZero (frame body ++ rest) := by
  intro hzero
  have hread := readFrame_frame h rest
  rw [readFrame_of_allZero hzero] at hread
  cases hread

/-- One of the segments that were read. -/
theorem exists_of_readSegments {before after : List (ℕ × Bytes)} {file : ℕ × Bytes}
    {state state' : RecoveredState} {ends : List SegmentEnd}
    (h : readSegments (before ++ file :: after) state = .ok (state', ends)) :
    ∃ state₁ state₂ ends₁ e ends₂, readSegment file.1 file.2 state₁ = .ok (state₂, e) ∧
      readSegments after state₂ = .ok (state', ends₂) ∧ ends = ends₁ ++ e :: ends₂ := by
  induction before generalizing state ends with
  | nil =>
    obtain ⟨state₁, e, rest, hfile, hrest, rfl⟩ := readSegments_cons h
    exact ⟨state, state₁, [], e, rest, hfile, hrest, rfl⟩
  | cons b before ih =>
    obtain ⟨state₁, e, rest, -, hrest, rfl⟩ := readSegments_cons h
    obtain ⟨state₂, state₃, ends₁, e', ends₂, hfile, hafter, rfl⟩ := ih hrest
    exact ⟨state₂, state₃, e :: ends₁, e', ends₂, hfile, hafter, rfl⟩

/-- A segment that holds data is read as one that does. -/
theorem HoldsData.dataAfterHeader {file : ℕ × Bytes} (h : HoldsData file)
    {state state' : RecoveredState} {ends : SegmentEnd}
    (hread : readSegment file.1 file.2 state = .ok (state', ends)) :
    ends.dataAfterHeader = true := by
  obtain ⟨header, rest, hheader, hfile, hrest⟩ := h
  obtain ⟨bodies, tail, rfl, hsized, htail⟩ := exists_framed rest
  have hframed : file.2 = framed (header :: bodies) ++ tail := by
    rw [hfile, framed_cons, List.append_assoc]
  rw [hframed] at hread
  obtain ⟨header', records, heq, rfl⟩ := segmentEnd_of_readSegment
    (List.forall_mem_cons.mpr ⟨hheader, hsized⟩) htail hread
  cases heq
  rw [SegmentEnd.dataAfterHeader, Bool.or_eq_true]
  rcases bodies with - | ⟨body, bodies⟩
  · right
    simp only [segmentEnd, isSome_firstNonZero, List.drop_left]
    exact hrest
  · refine .inl (decide_eq_true ?_)
    simp only [segmentEnd, framed_cons, List.length_append, length_frame, kFrameHeaderBytes]
    omega

/-- Where the checks pass, a segment whose records do not end in zeros is the newest with
data, and passes its own check. -/
theorem checkNewest_of_checkEnds {before after : List SegmentEnd} {e : SegmentEnd}
    (h : checkEnds (before ++ e :: after) = .ok ()) (hafter : e.afterEnd.isSome) :
    (∀ x ∈ after, x.dataAfterHeader = false) ∧ checkNewest e = .ok () := by
  have hdata : e.dataAfterHeader = true := by simp [SegmentEnd.dataAfterHeader, hafter]
  have hlast : ∀ x ∈ after, x.dataAfterHeader = false := by
    by_contra hsome
    push Not at hsome
    obtain ⟨x, hx, hxdata⟩ := hsome
    obtain ⟨older, newest, heq, hmem⟩ := exists_newestWithData before e
      ⟨x, hx, Bool.eq_true_of_not_eq_false hxdata⟩
    rw [checkEnds, heq] at h
    rcases hall : checkAllOlder older with err | u
    · simp only [hall, bind, Except.bind] at h
      cases h
    · have hclean := checkAllOlder_eq_ok.mp hall e hmem
      rw [hclean.2] at hafter
      cases hafter
  refine ⟨hlast, ?_⟩
  rw [checkEnds, newestWithData_append hdata hlast] at h
  rcases hall : checkAllOlder before with err | u
  · simp only [hall, bind, Except.bind] at h
    cases h
  · simpa only [hall, bind, Except.bind] using h

theorem readLog_eq_ok {files : List (ℕ × Bytes)} {state : RecoveredState}
    {ends : List SegmentEnd} (h : readLog files = .ok (state, ends)) :
    readSegments files { segments := files.map Prod.fst } = .ok (state, ends) ∧
      checkEnds ends = .ok () := by
  rw [readLog] at h
  rcases hread : readSegments files { segments := files.map Prod.fst } with err | ⟨state', ends'⟩
  · simp only [hread, bind, Except.bind] at h
    cases h
  · rcases hcheck : checkEnds ends' with err | u
    · simp only [hread, hcheck, bind, Except.bind] at h
      cases h
    · simp only [hread, hcheck, bind, Except.bind, pure, Except.pure] at h
      cases h
      exact ⟨rfl, hcheck⟩

/-- **A damaged record is refused** in a segment that a later one with data follows. -/
theorem readLog_damagedRecord (before : List (ℕ × Bytes)) {after : List (ℕ × Bytes)}
    {segment : LoggedSegment}
    {bytes : Bytes} (hdamaged : DamagedRecord segment bytes)
    (hafter : ∃ file ∈ after, HoldsData file) :
    ∃ err, readLog (before ++ (segment.number, bytes) :: after) = .error err := by
  rcases hlog : readLog (before ++ (segment.number, bytes) :: after) with err | ⟨state, ends⟩
  · exact ⟨err, rfl⟩
  exfalso
  obtain ⟨hread, hcheck⟩ := readLog_eq_ok hlog
  obtain ⟨state₁, state₂, ends₁, e, ends₂, hfile, hrest, rfl⟩ := exists_of_readSegments hread
  obtain ⟨kept, body, later, damaged, rest, hbodies, rfl, -, hnone, hzero⟩ := hdamaged
  have hsized : ∀ body ∈ kept, WellSized body := by
    intro b hb
    have hmem : b ∈ segment.header.body :: groupBodies segment.groups := by
      rw [hbodies]
      exact List.mem_append_left _ hb
    rcases List.mem_cons.mp hmem with rfl | hmem
    · exact segment.sized_header
    · exact sized_groupBodies _ b hmem
  obtain ⟨header, records, rfl, rfl⟩ := segmentEnd_of_readSegment hsized hnone hfile
  have hend : (firstNonZero (framed (header :: records) ++ (damaged ++ rest))
      (framed (header :: records)).length).isSome := by
    rw [isSome_firstNonZero, List.drop_left]
    exact hzero (by simp)
  -- so no later segment has data
  obtain ⟨hlast, -⟩ := checkNewest_of_checkEnds hcheck hend
  obtain ⟨file, hmem, hdata⟩ := hafter
  obtain ⟨after₁, after₂, rfl⟩ := List.append_of_mem hmem
  obtain ⟨state₃, state₄, ends₃, x, ends₄, hx, -, rfl⟩ := exists_of_readSegments hrest
  have hfalse := hlast x (by simp)
  rw [hdata.dataAfterHeader hx] at hfalse
  cases hfalse

/-- The end of a segment inside a group that data follows. -/
theorem checkNewest_dataAfterGroup (segment : ℕ) {front begun damaged follow : Bytes}
    (header : ScannedRecord) {records : List ScannedRecord} (bad : Option BadFrame)
    (hgroup : lastGroupEnd records =
      some (front.length + (begun.length + damaged.length)))
    (hpos : 0 < damaged.length) (hfollow : ¬allZero follow) :
    (segmentEnd segment (front ++ (begun ++ (damaged ++ follow))) header records
      (front.length + begun.length) bad).afterEnd.isSome ∧
    checkNewest (segmentEnd segment (front ++ (begun ++ (damaged ++ follow))) header records
      (front.length + begun.length) bad) ≠ .ok () := by
  have hafterEnd : (firstNonZero (front ++ (begun ++ (damaged ++ follow)))
      (front.length + begun.length)).isSome := by
    rw [isSome_firstNonZero, ← List.drop_drop, List.drop_left, List.drop_left]
    intro hzero
    rw [allZero_iff] at hzero
    exact hfollow (allZero_iff.mpr fun b hb => hzero b (List.mem_append_right _ hb))
  obtain ⟨offset, hoffset⟩ := Option.isSome_iff_exists.mp (show (firstNonZero
      (front ++ (begun ++ (damaged ++ follow)))
      (front.length + (begun.length + damaged.length))).isSome by
    rw [isSome_firstNonZero, ← List.drop_drop, ← List.drop_drop, List.drop_left, List.drop_left,
      List.drop_left]
    exact hfollow)
  have hlength : front.length + (begun.length + damaged.length) <
      (front ++ (begun ++ (damaged ++ follow))).length := by
    have hfollowPos : follow ≠ [] := fun hnil => hfollow (by rw [hnil]; rfl)
    have := List.length_pos_of_ne_nil hfollowPos
    simp only [List.length_append]
    omega
  refine ⟨hafterEnd, ?_⟩
  have htorn : (segmentEnd segment (front ++ (begun ++ (damaged ++ follow))) header records
      (front.length + begun.length) bad).tornTail = true := by
    simp only [SegmentEnd.tornTail, segmentEnd, hafterEnd, Bool.or_true]
  rw [checkNewest, if_pos htorn]
  simp only [segmentEnd, hgroup, Option.bind_some, hoffset, hlength, and_true]
  rw [if_neg (by omega), if_pos (by omega)]
  exact fun h => by cases h

/-- **A damaged group is refused** where another group follows it. -/
theorem readLog_damagedGroup (before after : List (ℕ × Bytes)) {segment : LoggedSegment}
    {bytes : Bytes} (hdamaged : DamagedGroup segment bytes) :
    ∃ err, readLog (before ++ (segment.number, bytes) :: after) = .error err := by
  rcases hlog : readLog (before ++ (segment.number, bytes) :: after) with err | ⟨state, ends⟩
  · exact ⟨err, rfl⟩
  exfalso
  obtain ⟨hread, hcheck⟩ := readLog_eq_ok hlog
  obtain ⟨state₁, state₂, ends₁, e, ends₂, hfile, hrest, rfl⟩ := exists_of_readSegments hread
  obtain ⟨earlier, group, next, later, kept, lost, damaged, rest, hgroups, hwhole, hrecords,
    hlength, rfl, hnone⟩ := hdamaged
  have hmark : framed next.bodies ++ rest =
      frame (groupBody next.size) ++ (framed (next.records.map LoggedRecord.body) ++ rest) := by
    rw [LoggedGroup.bodies, framed_cons, List.append_assoc]
  have hnext : ¬allZero (framed next.bodies ++ rest) := by
    rw [hmark]
    exact not_allZero_of_frame (sized_groupBody _) _
  have hlost : 0 < (framed (lost.map LoggedRecord.body)).length := by
    rcases lost with - | ⟨logged, lost⟩
    · -- with nothing lost the next group is what stands there
      rw [List.eq_nil_of_length_eq_zero hlength, List.nil_append, hmark] at hnone
      exact absurd (readFrame_frame (sized_groupBody _) _) (hnone _)
    · rw [List.map_cons, framed_cons, List.length_append, length_frame, kFrameHeaderBytes]
      omega
  -- the bytes up to the damage
  have hsized : ∀ body ∈ segment.header.body :: (groupBodies earlier ++
      groupBody group.size :: kept.map LoggedRecord.body), WellSized body := by
    intro body hbody
    rcases List.mem_cons.mp hbody with rfl | hbody
    · exact segment.sized_header
    · rcases List.mem_append.mp hbody with hbody | hbody
      · exact sized_groupBodies _ body hbody
      · refine group.sized body ?_
        rw [LoggedGroup.bodies, hrecords, List.map_append, ← List.cons_append]
        exact List.mem_append_left _ hbody
  have hbytes : framed (segment.header.body :: groupBodies earlier) ++
      (framed (groupBody group.size :: kept.map LoggedRecord.body) ++
        (damaged ++ (framed next.bodies ++ rest))) =
      framed (segment.header.body :: (groupBodies earlier ++
        groupBody group.size :: kept.map LoggedRecord.body)) ++
        (damaged ++ (framed next.bodies ++ rest)) := by
    simp only [framed_cons, framed_append, List.append_assoc]
  -- where the damaged group ends
  have hsize : (framed (groupBody group.size :: kept.map LoggedRecord.body)).length +
      damaged.length = group.size := by
    rw [hlength, ← List.length_append, ← framed_append, List.cons_append, ← List.map_append,
      ← hrecords, ← LoggedGroup.bodies, group.length_framed]
    exact hwhole.symm
  have hdata : (framed (segment.header.body :: (groupBodies earlier ++
      groupBody group.size :: kept.map LoggedRecord.body))).length =
      (framed (segment.header.body :: groupBodies earlier)).length +
        (framed (groupBody group.size :: kept.map LoggedRecord.body)).length := by
    rw [← List.length_append, ← framed_append, List.cons_append]
  have hgroupEnd : lastGroupEnd (scannedFrom (kFrameHeaderBytes + segment.header.body.length)
      (groupBodies earlier ++ groupBody group.size :: kept.map LoggedRecord.body)) =
      some ((framed (segment.header.body :: groupBodies earlier)).length +
        ((framed (groupBody group.size :: kept.map LoggedRecord.body)).length +
          damaged.length)) := by
    rw [scannedFrom_append, lastGroupEnd_append, lastGroupEnd_begun, Option.some_or, hsize,
      framed_cons, List.length_append, length_frame]
  rw [hbytes] at hfile
  obtain ⟨header, records, heq, rfl⟩ := segmentEnd_of_readSegment hsized hnone hfile
  cases heq
  rw [← hbytes, hdata] at hcheck
  obtain ⟨hafterEnd, hrefused⟩ := checkNewest_dataAfterGroup segment.number
    ⟨0, segment.header.body⟩ (readFrame (damaged ++ (framed next.bodies ++ rest))).reason hgroupEnd
    (by rw [hlength]; exact hlost) hnext
  exact hrefused (checkNewest_of_checkEnds hcheck hafterEnd).2

end ChronoLog
