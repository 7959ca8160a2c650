import ChronoLog.Wal.RecoverySyncs

/-!
# Crashes during recovery

Recovery changes the log it reads: it zeroes the torn tail and prunes the file of
drops.  A crash in the middle leaves part of that done.  This module proves that a
second recovery makes the same of what is left, as long as the crash loses nothing
that the first one had read, and the checksums still reveal the torn tail once some of
its bytes are zeros.

## Main definitions

* `ZeroedFrom` — some of the bytes from an offset on are zeroed.
* `ZeroingRevealed` — no zeroing of part of the torn tail makes a frame of it.
* `Showing`, `Recovering` — the directories between two effects of a recovery: what reads
  return of them, and what a crash may leave of them once everything is synced.
* `Settled` — nothing that a recovery read is left to sync.

## Main results

* `readLog_zeroed` — the log is read the same with part of its tail zeroed.
* `applyDrops_stillNeeded` — the lines that are pruned drop nothing.
* `recovery_idempotent` — recovery after a crash in a recovery.
-/

namespace ChronoLog

open Wal

/-! ### A tail that is partly zeroed -/

/-- Some of the bytes from `start` on are zeroed. -/
def ZeroedFrom (start : ℕ) (bytes left : Bytes) : Prop :=
  left.length = bytes.length ∧ ∀ i < bytes.length,
    left.getD i 0 = bytes.getD i 0 ∨ start ≤ i ∧ left.getD i 0 = 0

namespace ZeroedFrom

theorem refl (start : ℕ) (bytes : Bytes) : ZeroedFrom start bytes bytes :=
  ⟨rfl, fun _ _ => .inl rfl⟩

variable {start : ℕ} {bytes left : Bytes}

/-- The bytes before it are as they were. -/
theorem take_eq (h : ZeroedFrom start bytes left) : left.take start = bytes.take start := by
  refine List.ext_getElem (by simp [h.1]) fun i hleft hbytes => ?_
  rw [List.length_take] at hleft hbytes
  rw [List.getElem_take, List.getElem_take]
  rcases h.2 i (by omega) with heq | ⟨hle, -⟩
  · rwa [List.getD_eq_getElem _ _ (by omega), List.getD_eq_getElem _ _ (by omega)] at heq
  · omega

/-- Past the end there is nothing to zero. -/
theorem eq_of_length (h : ZeroedFrom bytes.length bytes left) : left = bytes := by
  have htake := h.take_eq
  rw [List.take_length] at htake
  rw [← htake, ← h.1, List.take_length]

theorem torn (h : ZeroedFrom start bytes left) :
    TornFrom (bytes.drop start) (left.drop start) := by
  refine List.forall₂_iff_get.mpr ⟨by simp [h.1], fun i hbytes hleft => ?_⟩
  rw [List.length_drop] at hleft hbytes
  simp only [List.get_eq_getElem, List.getElem_drop]
  have hbyte := h.2 (start + i) (by omega)
  rw [List.getD_eq_getElem _ _ (by omega), List.getD_eq_getElem _ _ (by omega)] at hbyte
  exact hbyte.imp_right And.right

/-- Zeros written over such a tail. -/
theorem overwrite {n : ℕ} (h : ZeroedFrom start bytes left) (hstart : start ≤ bytes.length)
    (hn : n ≤ bytes.length - start) :
    ZeroedFrom start bytes (Disk.overwrite left start (List.replicate n 0)) := by
  have hlength := h.1
  have hsplit : Disk.overwrite left start (List.replicate n 0) =
      left.take start ++ (List.replicate n 0 ++ left.drop (start + n)) := by
    simp [Disk.overwrite, show start - left.length = 0 by omega]
  rw [hsplit]
  refine ⟨?_, fun i hi => ?_⟩
  · simp only [List.length_append, List.length_take, List.length_replicate, List.length_drop]
    omega
  · have hbyte := h.2 i hi
    simp only [List.getD_eq_getElem?_getD] at hbyte ⊢
    rcases lt_or_ge i start with hlt | hge
    · rw [List.getElem?_append_left (by rw [List.length_take]; omega), List.getElem?_take_of_lt hlt]
      exact hbyte
    have htake : (left.take start).length = start := by
      rw [List.length_take]
      omega
    rw [List.getElem?_append_right (by omega), htake]
    rcases lt_or_ge i (start + n) with hlt | hge'
    · rw [List.getElem?_append_left (by rw [List.length_replicate]; omega), List.getElem?_replicate]
      right
      exact ⟨hge, by split <;> rfl⟩
    · rw [List.getElem?_append_right (by rw [List.length_replicate]; omega), List.getElem?_drop,
        List.length_replicate, show start + n + (i - start - n) = i by omega]
      exact hbyte

end ZeroedFrom

theorem TornFrom.allZero {bytes left : Bytes} (h : TornFrom bytes left) (hzero : allZero bytes) :
    allZero left := by
  induction h with
  | nil => rfl
  | cons hb _ ih =>
    rw [allZero_iff, List.forall_mem_cons] at hzero ⊢
    refine ⟨?_, allZero_iff.mp (ih (allZero_iff.mpr hzero.2))⟩
    rcases hb with rfl | rfl
    · exact hzero.1
    · rfl

theorem TornFrom.drop {bytes left : Bytes} (h : TornFrom bytes left) (n : ℕ) :
    TornFrom (bytes.drop n) (left.drop n) :=
  List.forall₂_drop n h

/-- The segment whose end is read. -/
theorem segment_of_readSegment {segment : ℕ} {bytes : Bytes} {state state' : RecoveredState}
    {ends : SegmentEnd} (h : readSegment segment bytes state = .ok (state', ends)) :
    ends.segment = segment := by
  obtain ⟨bodies, rest, rfl, hsized, hrest⟩ := exists_framed bytes
  obtain ⟨header, records, -, rfl⟩ := segmentEnd_of_readSegment hsized hrest h
  rfl

/-- What a zeroed tail changes of where a segment ends. -/
structure SegmentEnd.Zeroed (ends ends' : SegmentEnd) : Prop where
  segment : ends'.segment = ends.segment
  headerEnd : ends'.headerEnd = ends.headerEnd
  dataEnd : ends'.dataEnd = ends.dataEnd
  groupEnd : ends'.groupEnd = ends.groupEnd
  afterGroup : ends.afterGroup = none → ends'.afterGroup = none

/-- The records of a segment are the same with part of what follows them zeroed. -/
theorem readSegment_zeroed {segment : ℕ} {bytes left : Bytes} {state state' : RecoveredState}
    {ends : SegmentEnd} (h : readSegment segment bytes state = .ok (state', ends))
    (hzeroed : ZeroedFrom ends.dataEnd bytes left) (hnone : NoFrame (left.drop ends.dataEnd)) :
    ∃ ends', readSegment segment left state = .ok (state', ends') ∧ ends.Zeroed ends' := by
  obtain ⟨bodies, rest, rfl, hsized, hrest⟩ := exists_framed bytes
  obtain ⟨header, records, -, rfl⟩ := segmentEnd_of_readSegment hsized hrest h
  obtain ⟨header', records', hbodies, hread⟩ := readSegment_eq_ok hsized hrest h
  have hfront := hzeroed.take_eq
  have htail := hzeroed.torn
  simp only [segmentEnd, List.take_left, List.drop_left] at hfront htail hnone
  obtain ⟨tail, rfl⟩ : ∃ tail, left = framed bodies ++ tail := by
    have hsplit := List.take_append_drop (framed bodies).length left
    rw [hfront] at hsplit
    exact ⟨_, hsplit.symm⟩
  rw [List.drop_left] at htail hnone
  have hlength : tail.length = rest.length := htail.length_eq.symm
  have hsame := hread rest hrest rfl
  rw [h] at hsame
  obtain ⟨-, hends⟩ := Prod.mk.inj (Except.ok.inj hsame)
  refine ⟨_, hread tail hnone hlength, ?_⟩
  rw [hends]
  refine ⟨rfl, rfl, rfl, rfl, fun hafter => ?_⟩
  -- what follows the last group was zeros already
  simp only [segmentEnd, List.length_append, hlength] at hafter ⊢
  rcases hgroup : lastGroupEnd (scannedFrom (kFrameHeaderBytes + header'.length) records') with
    - | groupEnd
  · rfl
  rw [hgroup, Option.bind_some] at hafter
  rw [Option.bind_some]
  split
  · rename_i hlt
    rw [if_pos hlt, firstNonZero_eq_none] at hafter
    rw [firstNonZero_eq_none]
    rw [← Nat.add_sub_cancel' hlt.1.le, ← List.drop_drop, List.drop_left] at hafter ⊢
    exact (htail.drop _).allZero hafter
  · rfl

/-! ### The whole log -/

/-- The segments of which each part of a list of ends was read. -/
theorem readSegments_split {files : List (ℕ × Bytes)} {state state' : RecoveredState}
    {before after : List SegmentEnd} {e : SegmentEnd}
    (h : readSegments files state = .ok (state', before ++ e :: after)) :
    ∃ files₁ file files₂ state₁ state₂, files = files₁ ++ file :: files₂ ∧
      readSegments files₁ state = .ok (state₁, before) ∧
      readSegment file.1 file.2 state₁ = .ok (state₂, e) ∧
      readSegments files₂ state₂ = .ok (state', after) := by
  induction before generalizing files state with
  | nil =>
    rcases files with - | ⟨file, files⟩
    · cases h
    obtain ⟨state₁, e', rest, hfile, hrest, heq⟩ := readSegments_cons h
    cases heq
    exact ⟨[], file, files, state, state₁, rfl, rfl, hfile, hrest⟩
  | cons b before ih =>
    rcases files with - | ⟨file, files⟩
    · cases h
    obtain ⟨state₁, e', rest, hfile, hrest, heq⟩ := readSegments_cons h
    cases heq
    obtain ⟨files₁, file', files₂, state₂, state₃, rfl, hbefore, hread, hafter⟩ := ih hrest
    refine ⟨file :: files₁, file', files₂, state₂, state₃, rfl, ?_, hread, hafter⟩
    simp only [readSegments, hfile, bind, Except.bind, hbefore]
    rfl

/-- The segments before the newest with data, it, and those after it. -/
theorem split_of_newestWithData {ends older : List SegmentEnd} {newest : SegmentEnd}
    (h : newestWithData ends = some (older, newest)) :
    newest.dataAfterHeader = true ∧ ∃ after, ends = older ++ newest :: after ∧
      ∀ e ∈ after, e.dataAfterHeader = false := by
  induction ends generalizing older with
  | nil => cases h
  | cons e ends ih =>
    rw [newestWithData] at h
    rcases hrest : newestWithData ends with - | ⟨older', newest'⟩
    · rw [hrest] at h
      by_cases hdata : e.dataAfterHeader
      · rw [if_pos hdata] at h
        cases h
        exact ⟨hdata, ends, rfl, newestWithData_eq_none.mp hrest⟩
      · rw [if_neg hdata] at h
        cases h
    · rw [hrest] at h
      cases h
      obtain ⟨hdata, after, rfl, hafter⟩ := ih hrest
      exact ⟨hdata, after, rfl, hafter⟩

/-- A torn segment is the newest with data, and the checks passed on it. -/
theorem split_of_tornSegment {ends : List SegmentEnd} {torn : SegmentEnd}
    (htorn : tornSegment ends = some torn) (hcheck : checkEnds ends = .ok ()) :
    ∃ older after, ends = older ++ torn :: after ∧ (∀ e ∈ older, e.Clean) ∧
      (∀ e ∈ after, e.dataAfterHeader = false) ∧ torn.afterEnd.isSome ∧
      checkNewest torn = .ok () := by
  rw [tornSegment, Option.bind_eq_some_iff] at htorn
  obtain ⟨⟨older, newest⟩, hnewest, htorn⟩ := htorn
  simp only [Option.ite_none_right_eq_some, Option.some.injEq] at htorn
  obtain ⟨hafterEnd, rfl⟩ := htorn
  obtain ⟨-, after, rfl, hafter⟩ := split_of_newestWithData hnewest
  rw [checkEnds, hnewest] at hcheck
  rcases hall : checkAllOlder older with err | u
  · simp only [hall, bind, Except.bind] at hcheck
    cases hcheck
  · simp only [hall, bind, Except.bind] at hcheck
    exact ⟨older, after, rfl, checkAllOlder_eq_ok.mp hall, hafter, hafterEnd, hcheck⟩

/-- The newest segment can be reused where it holds only its H record. -/
theorem reusableSpareOf_tornSegment (ends : List SegmentEnd) :
    reusableSpareOf ends (tornSegment ends) = ends.getLast?.bind fun last =>
      if last.headerEnd < last.dataEnd then none else some last.segment := by
  rcases List.eq_nil_or_concat' ends with rfl | ⟨before, last, rfl⟩
  · rfl
  rw [reusableSpareOf, List.getLast?_concat, Option.bind_some, Option.bind_some]
  by_cases hafter : last.afterEnd.isSome
  · -- then the last segment is the torn one
    have hdata : last.dataAfterHeader = true := by simp [SegmentEnd.dataAfterHeader, hafter]
    have htorn : tornSegment (before ++ [last]) = some last := by
      simp [tornSegment, newestWithData_append hdata, hafter]
    simp [htorn, SegmentEnd.dataAfterHeader]
  · rw [Option.not_isSome_iff_eq_none] at hafter
    have hsame : (if tornSegment (before ++ [last]) = some last then
        { last with afterEnd := none } else last) = last := by
      split
      · rw [← hafter]
      · rfl
    simp [hsame, SegmentEnd.dataAfterHeader, hafter]

/-- **The log is read the same with part of its torn tail zeroed.** -/
theorem readLog_zeroed {before after : List (ℕ × Bytes)} {segment : ℕ} {bytes left : Bytes}
    {state : RecoveredState} {ends : List SegmentEnd} {torn : SegmentEnd}
    (h : readLog (before ++ (segment, bytes) :: after) = .ok (state, ends))
    (htorn : tornSegment ends = some torn)
    (hnumber : torn.segment = segment)
    (hother : ∀ file ∈ before ++ after, file.1 ≠ segment)
    (hzeroed : ZeroedFrom torn.dataEnd bytes left) (hnone : NoFrame (left.drop torn.dataEnd)) :
    ∃ ends', readLog (before ++ (segment, left) :: after) = .ok (state, ends') ∧
      reusableSpareOf ends' (tornSegment ends') = reusableSpareOf ends (tornSegment ends) := by
  obtain ⟨hread, hcheck⟩ := readLog_eq_ok h
  obtain ⟨older, spares, rfl, hclean, hdata, hafterEnd, hok⟩ := split_of_tornSegment htorn hcheck
  obtain ⟨files₁, file, files₂, state₁, state₂, hfiles, h₁, hfile, h₂⟩ := readSegments_split hread
  -- the file that was read as the torn segment is the one whose tail is zeroed
  have hnotMem : ∀ files, files ⊆ before ++ after → file ∉ files := by
    intro files hsub hmem
    exact hother file (hsub hmem) ((segment_of_readSegment hfile).symm.trans hnumber)
  obtain ⟨rfl, rfl, rfl⟩ := (List.append_cons_inj_of_notMem
    (hnotMem before (List.subset_append_left _ _))
    (hnotMem after (List.subset_append_right _ _))).mp hfiles
  obtain ⟨torn', hleft, hsame⟩ := readSegment_zeroed hfile hzeroed hnone
  refine ⟨older ++ torn' :: spares, ?_, ?_⟩
  · have hnewest : checkNewest torn' = .ok () := by
      refine checkNewest_eq_ok.mpr fun _ groupEnd hgroup => ?_
      have htail : torn.tornTail = true := by simp [SegmentEnd.tornTail, hafterEnd]
      obtain ⟨hle, hafter⟩ := checkNewest_eq_ok.mp hok htail groupEnd
        (hsame.groupEnd.symm.trans hgroup)
      exact ⟨hsame.dataEnd ▸ hle, hsame.afterGroup hafter⟩
    have hchecks : checkEnds (older ++ torn' :: spares) = .ok () :=
      checkEnds_eq_ok hclean hnewest hdata
    rw [List.map_append, List.map_cons] at h₁
    simp only [readLog, readSegments_append, List.map_append, List.map_cons, h₁, Except.bind,
      readSegments, hleft, h₂, bind, pure, Except.pure, Except.map, hchecks]
  · rw [reusableSpareOf_tornSegment, reusableSpareOf_tornSegment]
    rcases List.eq_nil_or_concat' spares with rfl | ⟨rest, last, rfl⟩
    · simp only [List.getLast?_concat, Option.bind_some, hsame.headerEnd, hsame.dataEnd,
        hsame.segment]
    · simp only [← List.cons_append, ← List.append_assoc, List.getLast?_concat]

/-! ### Pruned drops -/

/-- Every event has a copy, and every copy lies in a segment from `oldest` on. -/
def RecoveredStory.Located (oldest : ℕ) (story : RecoveredStory) : Prop :=
  ∀ (sequence : EventSequence) (copies : List (ℕ × ℕ)), story.copies[sequence]? = some copies →
    copies ≠ [] ∧ ∀ copy ∈ copies, oldest ≤ copy.1

/-- The same of every story. -/
def RecoveredState.Located (oldest : ℕ) (state : RecoveredState) : Prop :=
  ∀ (storyId : StoryId) (story : RecoveredStory), state.stories[storyId]? = some story →
    story.Located oldest

namespace RecoveredState.Located

variable {oldest : ℕ} {state : RecoveredState}

theorem storyOf (h : state.Located oldest) (storyId : StoryId) :
    (state.storyOf storyId).Located oldest := by
  rw [RecoveredState.storyOf]
  rcases hstory : state.stories[storyId]? with - | story
  · intro sequence copies hcopies
    simp at hcopies
  · exact h storyId story hstory

theorem setStory (h : state.Located oldest) {story : RecoveredStory}
    (hstory : story.Located oldest) (storyId : StoryId) :
    (state.setStory storyId story).Located oldest := by
  intro other found hfound
  simp only [RecoveredState.setStory, Std.ExtTreeMap.getElem?_insert,
    Std.compare_eq_iff_eq] at hfound
  split at hfound
  · cases hfound
    exact hstory
  · exact h other found hfound

theorem applyNames (h : state.Located oldest) (names : NamesRecord) :
    (state.applyNames names).Located oldest := by
  refine h.setStory ?_ names.storyId
  exact h.storyOf names.storyId

theorem applyEvent (h : state.Located oldest) {segment : ℕ} (hsegment : oldest ≤ segment)
    (event : LogEvent) (frameBytes : ℕ) :
    (state.applyEvent segment event frameBytes).Located oldest := by
  refine h.setStory ?_ event.storyId
  intro sequence copies hcopies
  simp only [Std.ExtTreeMap.getElem?_insert, Std.compare_eq_iff_eq] at hcopies
  split at hcopies
  · cases hcopies
    refine ⟨by simp, fun copy hcopy => ?_⟩
    rcases List.mem_append.mp hcopy with hcopy | hcopy
    · rcases hold : (state.storyOf event.storyId).copies[event.sequence]? with - | older
      · simp [hold] at hcopy
      · rw [hold] at hcopy
        exact (h.storyOf event.storyId event.sequence older hold).2 copy hcopy
    · rw [List.mem_singleton.mp hcopy]
      exact hsegment
  · exact h.storyOf event.storyId sequence copies hcopies

/-- What changes a story in place keeps this where the story keeps it. -/
theorem alter (h : state.Located oldest) (storyId : StoryId)
    {f : RecoveredStory → RecoveredStory}
    (hf : ∀ story : RecoveredStory, story.Located oldest → (f story).Located oldest) :
    ({ state with stories := state.stories.alter storyId fun story => story.map f } :
      RecoveredState).Located oldest := by
  intro other found hfound
  simp only [Std.ExtTreeMap.getElem?_alter, Std.compare_eq_iff_eq] at hfound
  split at hfound
  · obtain ⟨story, hstory, rfl⟩ := Option.map_eq_some_iff.mp hfound
    exact hf story (h storyId story hstory)
  · exact h other found hfound

theorem applyDropped (h : state.Located oldest) (segment : ℕ) (storyId : StoryId) :
    (state.applyDropped segment storyId).Located oldest := by
  refine h.alter storyId fun story _ sequence copies hcopies => ?_
  simp at hcopies

end RecoveredState.Located

theorem RecoveredStory.Located.applyDrop {oldest : ℕ} {story : RecoveredStory}
    (h : story.Located oldest) (drop : UnloggedDrop) : (story.applyDrop drop).Located oldest := by
  intro sequence copies hcopies
  simp only [RecoveredStory.applyDrop, Std.ExtTreeMap.getElem?_filter',
    Option.filter_eq_some_iff] at hcopies
  exact h sequence copies hcopies.1

/-- A line about segments that are all gone drops nothing. -/
theorem RecoveredStory.applyDrop_of_lt {oldest : ℕ} {story : RecoveredStory}
    (h : story.Located oldest) {drop : UnloggedDrop} (hlt : drop.lastSegment < oldest) :
    story.applyDrop drop = story := by
  have hkeeps : ∀ (sequence : EventSequence) (copies : List (ℕ × ℕ)),
      story.copies[sequence]? = some copies → beforeTheDrop drop copies = false := by
    intro sequence copies hcopies
    obtain ⟨hne, hall⟩ := h sequence copies hcopies
    obtain ⟨copy, hcopy⟩ := List.exists_mem_of_ne_nil copies hne
    rw [beforeTheDrop, List.all_eq_false]
    exact ⟨copy, hcopy, by have := hall copy hcopy; simp; omega⟩
  have hevents : (story.events.filter fun event _ =>
      !(story.copies[event]?.any (beforeTheDrop drop))) = story.events := by
    apply Std.ExtTreeMap.ext_getElem?
    intro sequence
    rw [Std.ExtTreeMap.getElem?_filter']
    have hkept : (story.copies[sequence]?.any (beforeTheDrop drop)) = false := by
      rcases hcopies : story.copies[sequence]? with - | copies
      · rfl
      · exact hkeeps sequence copies hcopies
    rw [hkept]
    cases story.events[sequence]? <;> rfl
  have hcopies : (story.copies.filter fun _ copies => !beforeTheDrop drop copies) =
      story.copies := by
    apply Std.ExtTreeMap.ext_getElem?
    intro sequence
    rw [Std.ExtTreeMap.getElem?_filter']
    rcases hsome : story.copies[sequence]? with - | copies
    · rfl
    · simp [hkeeps sequence copies hsome]
  rw [RecoveredStory.applyDrop, hevents, hcopies]

theorem RecoveredState.Located.applyDrop {oldest : ℕ} {state : RecoveredState}
    (h : state.Located oldest) (drop : UnloggedDrop) : (state.applyDrop drop).Located oldest :=
  h.alter drop.storyId fun _ hstory => hstory.applyDrop drop

theorem RecoveredState.applyDrop_of_lt {oldest : ℕ} {state : RecoveredState}
    (h : state.Located oldest) {drop : UnloggedDrop} (hlt : drop.lastSegment < oldest) :
    state.applyDrop drop = state := by
  have hstories : (state.stories.alter drop.storyId fun story =>
      story.map fun story => story.applyDrop drop) = state.stories := by
    apply Std.ExtTreeMap.ext_getElem?
    intro storyId
    rw [Std.ExtTreeMap.getElem?_alter]
    split
    · rename_i heq
      rw [Std.compare_eq_iff_eq] at heq
      subst heq
      rcases hstory : state.stories[drop.storyId]? with - | story
      · rfl
      · rw [Option.map_some, RecoveredStory.applyDrop_of_lt (h drop.storyId story hstory) hlt]
    · rfl
  rw [RecoveredState.applyDrop, hstories]

/-- **The lines that are pruned drop nothing.** -/
theorem applyDrops_filter {oldest : ℕ} {state : RecoveredState} (h : state.Located oldest)
    (drops : List UnloggedDrop) :
    applyDrops (drops.filter fun drop => oldest ≤ drop.lastSegment) state =
      applyDrops drops state := by
  induction drops generalizing state with
  | nil => rfl
  | cons drop drops ih =>
    by_cases hle : oldest ≤ drop.lastSegment
    · rw [List.filter_cons_of_pos (by simpa using hle)]
      exact ih (h.applyDrop drop)
    · rw [List.filter_cons_of_neg (by simpa using hle), ih h]
      show _ = applyDrops drops (state.applyDrop drop)
      rw [RecoveredState.applyDrop_of_lt h (Nat.lt_of_not_le hle)]

theorem applyDrops_of_empty {state : RecoveredState} (h : ∀ oldest, state.Located oldest)
    (drops : List UnloggedDrop) : applyDrops drops state = state := by
  induction drops with
  | nil => rfl
  | cons drop drops ih =>
    show applyDrops drops (state.applyDrop drop) = state
    rw [RecoveredState.applyDrop_of_lt (h (drop.lastSegment + 1)) (Nat.lt_succ_self _), ih]

/-- **What is read lies in the segments that were read.** -/
theorem located_of_readSegments {files : List (ℕ × Bytes)} {state : RecoveredState}
    {ends : List SegmentEnd} {oldest : ℕ} (hfiles : ∀ file ∈ files, oldest ≤ file.1)
    (h : readSegments files { segments := files.map Prod.fst } = .ok (state, ends)) :
    state.Located oldest := by
  refine ReplayInvariant.readSegments (I := RecoveredState.Located oldest)
    (P := fun segment => oldest ≤ segment) ?_ hfiles ?_ h
  · exact ⟨fun _ names h => h.applyNames names,
      fun _ segment event bytes hsegment h => h.applyEvent hsegment event bytes,
      fun _ segment storyId _ h => h.applyDropped segment storyId, fun _ _ h => h⟩
  · intro storyId story hstory
    simp at hstory

theorem segments_of_readSegments {files : List (ℕ × Bytes)} {state state' : RecoveredState}
    {ends : List SegmentEnd} (h : readSegments files state = .ok (state', ends)) :
    state'.segments = state.segments :=
  ReplayInvariant.readSegments (I := fun t => t.segments = state.segments) (P := fun _ => True)
    ⟨fun _ _ h => h, fun _ _ _ _ _ h => h, fun _ _ _ _ h => h, fun _ _ h => h⟩
    (fun _ _ => trivial) rfl h

/-- The lines that a recovery prunes drop nothing. -/
theorem applyDrops_stillNeeded {files : List (ℕ × Bytes)} {state : RecoveredState}
    {ends : List SegmentEnd} (hsorted : files.Pairwise fun a b => a.1 < b.1)
    (h : readLog files = .ok (state, ends)) (spare : Option ℕ) (drops : List UnloggedDrop) :
    applyDrops (stillNeeded state.segments drops) { state with reusableSpare := spare } =
      applyDrops drops { state with reusableSpare := spare } := by
  obtain ⟨hread, -⟩ := readLog_eq_ok h
  have hsegments := segments_of_readSegments hread
  rcases files with - | ⟨file, files⟩
  · cases hread
    rw [applyDrops_of_empty, applyDrops_of_empty] <;>
    · intro oldest storyId story hstory
      simp at hstory
  · have holdest : ∀ other ∈ file :: files, file.1 ≤ other.1 := by
      rw [List.pairwise_cons] at hsorted
      exact List.forall_mem_cons.mpr ⟨le_rfl, fun other hother => (hsorted.1 other hother).le⟩
    have hlocated : state.Located file.1 := located_of_readSegments holdest hread
    have hspare : RecoveredState.Located file.1 { state with reusableSpare := spare } := hlocated
    have hneeded : stillNeeded state.segments drops =
        drops.filter fun drop => file.1 ≤ drop.lastSegment := by
      rw [hsegments]
      rfl
    rw [hneeded]
    exact applyDrops_filter hspare drops

/-! ### The directory along a recovery -/

/-- Each byte of one of several contents with such a tail. -/
theorem SegmentFile.Survives.zeroedFrom {file : SegmentFile} {left bytes : Bytes} {start : ℕ}
    (h : file.Survives left)
    (hall : ∀ version ∈ file.content :: file.unsynced, ZeroedFrom start bytes version) :
    ZeroedFrom start bytes left := by
  obtain ⟨⟨version, hversion, hlength⟩, hbytes⟩ := h
  have hlen : left.length = bytes.length :=
    hlength.trans (hall version hversion).1
  refine ⟨hlen, fun i hi => ?_⟩
  obtain ⟨other, hother, heq⟩ := hbytes i (by omega)
  rw [heq]
  exact (hall other hother).2 i hi

/-- Nothing in the directory is still to be synced, as after a crash. -/
structure Disk.Synced (disk : Disk) : Prop where
  segments : ∀ (segment : ℕ) (file : SegmentFile), disk.segments[segment]? = some file →
    file = { content := file.content, unsynced := [], linked := true, linkUnsynced := false }
  olderDrops : disk.olderDrops = []

theorem Disk.synced_of_one {disk : Disk} {segment : ℕ} {bytes : Bytes}
    (hdisk : ∀ other : ℕ, disk.segments[other]? =
      if other = segment then some ⟨bytes, [], true, false⟩ else none)
    (holder : disk.olderDrops = []) : disk.Synced := by
  refine ⟨fun other file hother => ?_, holder⟩
  rw [hdisk] at hother
  split at hother
  · cases hother
    rfl
  · cases hother

/-- Where a recovery may have zeroed bytes of a segment: from the end of its data on, where
its tail is torn. -/
def zeroedOffset (torn : Option SegmentEnd) (segment : ℕ) (bytes : Bytes) : ℕ :=
  match torn with
  | some ends => if ends.segment = segment then ends.dataEnd else bytes.length
  | none => bytes.length

/-- The segment files between two effects of a recovery: every content since the last data
sync is the one that was read, but for zeros over the torn tail. -/
def RecoveringFile (torn : Option SegmentEnd) (segment : ℕ) :
    Option Bytes → Option SegmentFile → Prop
  | none, file => file = none
  | some bytes, some file => file.linked = true ∧ file.linkUnsynced = false ∧
      ∀ version ∈ file.content :: file.unsynced,
        ZeroedFrom (zeroedOffset torn segment bytes) bytes version
  | some _, none => False

/-- The directory between two effects of a recovery, when nothing that was read at its start is
left to sync. -/
structure Recovering (start : Disk) (torn : Option SegmentEnd) (needed : List UnloggedDrop)
    (disk : Disk) : Prop where
  segments : ∀ segment : ℕ,
    RecoveringFile torn segment (start.readFile segment) disk.segments[segment]?
  drops : ∀ drops ∈ disk.drops :: disk.olderDrops,
    drops = start.drops ∨ drops.getD [] = needed

namespace Recovering

variable {start disk : Disk} {torn : Option SegmentEnd} {needed : List UnloggedDrop}

/-- What keeps each file keeps the directory. -/
theorem of_segments (h : Recovering start torn needed disk) {disk' : Disk}
    (hsegments : ∀ segment : ℕ, ∀ file, RecoveringFile torn segment file disk.segments[segment]? →
      RecoveringFile torn segment file disk'.segments[segment]?)
    (hdrops : ∀ drops ∈ disk'.drops :: disk'.olderDrops, drops ∈ disk.drops :: disk.olderDrops) :
    Recovering start torn needed disk' :=
  ⟨fun segment => hsegments segment _ (h.segments segment),
    fun drops hmem => h.drops drops (hdrops drops hmem)⟩

theorem syncData (h : Recovering start torn needed disk) (segment : ℕ) :
    Recovering start torn needed (disk.syncData segment) := by
  refine h.of_segments (fun other file hfile => ?_) fun _ hmem => hmem
  simp only [Disk.syncData, Std.ExtTreeMap.getElem?_alter, Std.compare_eq_iff_eq]
  split
  · rename_i heq
    subst heq
    rcases hnow : disk.segments[segment]? with - | now <;> rw [hnow] at hfile
    · exact hfile
    · rcases file with - | bytes
      · cases hfile
      · refine ⟨hfile.1, hfile.2.1, fun version hversion => ?_⟩
        rw [List.mem_singleton.mp hversion]
        exact hfile.2.2 _ List.mem_cons_self
  · exact hfile

theorem syncDirectory (h : Recovering start torn needed disk) :
    Recovering start torn needed disk.syncDirectory := by
  refine h.of_segments (fun segment file hfile => ?_) fun drops hmem => ?_
  · simp only [Disk.syncDirectory, Std.ExtTreeMap.getElem?_map, Std.ExtTreeMap.getElem?_filter']
    rcases hnow : disk.segments[segment]? with - | now <;> rw [hnow] at hfile
    · exact hfile
    · rcases file with - | bytes
      · cases hfile
      · simp only [Option.filter, hfile.1, if_true, Option.map_some]
        exact ⟨rfl, rfl, hfile.2.2⟩
  · rw [List.mem_singleton.mp hmem]
    exact List.mem_cons_self

theorem zero (h : Recovering start torn needed disk) {ends : SegmentEnd}
    (htorn : torn = some ends)
    (hsize : ∀ bytes, start.readFile ends.segment = some bytes →
      ends.dataEnd ≤ ends.size ∧ ends.size = bytes.length)
    {n : ℕ} (hn : n ≤ ends.size - ends.dataEnd) :
    Recovering start torn needed
      (disk.writeAt ends.segment ends.dataEnd (List.replicate n 0)) := by
  refine ⟨fun segment => ?_, h.drops⟩
  have hfile := h.segments segment
  simp only [Disk.writeAt, Std.ExtTreeMap.getElem?_alter, Std.compare_eq_iff_eq]
  split
  · rename_i heq
    subst heq
    rcases hnow : disk.segments[ends.segment]? with - | now <;> rw [hnow] at hfile
    · exact hfile
    · rcases hstart : start.readFile ends.segment with - | bytes <;> rw [hstart] at hfile
      · cases hfile
      · obtain ⟨hle, hlength⟩ := hsize bytes hstart
        have hoffset : zeroedOffset torn ends.segment bytes = ends.dataEnd := by
          rw [htorn, zeroedOffset, if_pos rfl]
        refine ⟨hfile.1, hfile.2.1, fun version hversion => ?_⟩
        rcases List.mem_cons.mp hversion with rfl | hversion
        · have hcontent := hfile.2.2 _ List.mem_cons_self
          rw [hoffset] at hcontent ⊢
          exact hcontent.overwrite (by omega) (by omega)
        · exact hfile.2.2 version hversion
  · exact hfile

theorem changeDrops (h : Recovering start torn needed disk) {drops : Option (List UnloggedDrop)}
    (hdrops : drops.getD [] = needed) : Recovering start torn needed
      { disk with drops := drops, olderDrops := disk.drops :: disk.olderDrops } := by
  refine ⟨h.segments, fun other hother => ?_⟩
  rcases List.mem_cons.mp hother with rfl | hother
  · exact .inr hdrops
  · exact h.drops other hother

end Recovering

/-- A recovery keeps the directory so. -/
theorem keptByRecovery_recovering {start : Disk} {torn : Option SegmentEnd}
    (needed : List UnloggedDrop)
    (hsize : ∀ ends, torn = some ends → ∀ bytes, start.readFile ends.segment = some bytes →
      ends.dataEnd ≤ ends.size ∧ ends.size = bytes.length) :
    KeeperWal.KeptByRecovery (Recovering start torn needed) torn needed where
  syncData _ segment h := h.syncData segment
  syncDirectory _ h := h.syncDirectory
  zero ends htorn _ _ hn h := h.zero htorn (hsize ends htorn) hn
  prune _ h := h.changeDrops rfl
  pruneAll hnone _ h := h.changeDrops hnone.symm

/-- What reads return along a recovery: what they returned at its start, but for zeros over
the torn tail. -/
structure Showing (start : Disk) (torn : Option SegmentEnd) (needed : List UnloggedDrop)
    (disk : Disk) : Prop where
  segments : ∀ segment : ℕ,
    Option.Rel (fun bytes left => ZeroedFrom (zeroedOffset torn segment bytes) bytes left)
      (start.readFile segment) (disk.readFile segment)
  drops : disk.drops = start.drops ∨ disk.drops.getD [] = needed

theorem Showing.refl (disk : Disk) (torn : Option SegmentEnd) (needed : List UnloggedDrop) :
    Showing disk torn needed disk := by
  refine ⟨fun segment => ?_, .inl rfl⟩
  rcases disk.readFile segment with - | bytes
  · exact .none
  · exact .some (.refl _ _)

/-- A recovery keeps the reads so. -/
theorem keptByRecovery_showing {start : Disk} {torn : Option SegmentEnd}
    (needed : List UnloggedDrop)
    (hsize : ∀ ends, torn = some ends → ∀ bytes, start.readFile ends.segment = some bytes →
      ends.dataEnd ≤ ends.size ∧ ends.size = bytes.length) :
    KeeperWal.KeptByRecovery (Showing start torn needed) torn needed where
  syncData disk other h := by
    refine ⟨fun segment => ?_, h.drops⟩
    rw [Disk.readFile_syncData]
    exact h.segments segment
  syncDirectory disk h := by
    refine ⟨fun segment => ?_, h.drops⟩
    rw [Disk.readFile_syncDirectory]
    exact h.segments segment
  zero ends htorn disk n hn h := by
    refine ⟨fun segment => ?_, h.drops⟩
    rw [Disk.readFile_writeAt]
    have hread := h.segments segment
    rcases hstart : start.readFile segment with - | bytes <;>
      rcases hnow : disk.readFile segment with - | now <;> rw [hstart, hnow] at hread
    · exact .none
    · cases hread
    · cases hread
    · cases hread with
      | some hzeroed =>
        refine .some ?_
        split
        · next heq =>
          subst heq
          obtain ⟨hle, hlength⟩ := hsize ends htorn bytes hstart
          have hoffset : zeroedOffset torn ends.segment bytes = ends.dataEnd := by
            rw [htorn, zeroedOffset, if_pos rfl]
          rw [hoffset] at hzeroed ⊢
          exact hzeroed.overwrite (by omega) (by omega)
        · exact hzeroed
  prune disk h := ⟨h.segments, .inr rfl⟩
  pruneAll hnone disk h := ⟨h.segments, .inr hnone.symm⟩

/-- The directory that a recovery starts from, with nothing left to sync. -/
theorem Recovering.start {disk : Disk} (hsynced : disk.Synced) (torn : Option SegmentEnd)
    (needed : List UnloggedDrop) : Recovering disk torn needed disk := by
  refine ⟨fun segment => ?_, fun drops hdrops => ?_⟩
  · rw [Disk.readFile]
    rcases hfile : disk.segments[segment]? with - | file
    · rfl
    · have hsame := hsynced.segments segment file hfile
      rw [hsame]
      refine ⟨rfl, rfl, fun version hversion => ?_⟩
      rw [List.mem_singleton.mp hversion]
      exact .refl _ _
  · rw [hsynced.olderDrops] at hdrops
    exact .inl (List.mem_singleton.mp hdrops)

/-- The directory once everything that was read is synced. -/
theorem Showing.recovering {start disk : Disk} {torn : Option SegmentEnd}
    (h : Showing start torn (KeeperWal.neededDrops start.list start) disk)
    (hsynced : KeeperWal.SyncedFrom start disk) :
    Recovering start torn (KeeperWal.neededDrops start.list start) disk := by
  refine ⟨fun segment => ?_, hsynced.drops⟩
  have hread := h.segments segment
  rcases hfile : disk.segments[segment]? with - | file <;>
    rcases hstart : start.readFile segment with - | bytes <;>
    rw [hstart, Disk.readFile, hfile] at hread
  · rfl
  · cases hread
  · rw [Option.filter_some_pos (hsynced.links segment file hfile).1] at hread
    cases hread
  · obtain ⟨hlinked, hunsynced⟩ := hsynced.links segment file hfile
    rw [Option.filter_some_pos hlinked, Option.map_some] at hread
    have hlisted : segment ∈ start.list := by
      rw [Disk.list_eq]
      exact List.mem_map.mpr ⟨(segment, bytes), Disk.mem_image.mpr hstart, rfl⟩
    refine ⟨hlinked, hunsynced, fun version hversion => ?_⟩
    rw [hsynced.data segment hlisted file hfile, List.mem_singleton] at hversion
    subst hversion
    cases hread with
    | some hzeroed => exact hzeroed

/-! ### Crashes -/

/-- What a read of a segment returns after a crash in a recovery. -/
theorem Recovering.readFile_crash {start disk left : Disk} {torn : Option SegmentEnd}
    {needed : List UnloggedDrop} (h : Recovering start torn needed disk)
    (hcrash : disk.Crash left) (segment : ℕ) :
    Option.Rel (fun bytes left => ZeroedFrom (zeroedOffset torn segment bytes) bytes left)
      (start.readFile segment) (left.readFile segment) := by
  have hfile := h.segments segment
  have hleft := hcrash.segments segment
  rcases hstart : start.readFile segment with - | bytes <;> rw [Disk.readFile]
  · rw [hstart] at hfile
    rw [show disk.segments[segment]? = none from hfile] at hleft
    rw [show left.segments[segment]? = none from hleft]
    exact .none
  · rcases hnow : disk.segments[segment]? with - | now
    · rw [hstart, hnow] at hfile
      cases hfile
    rw [hstart, hnow] at hfile
    rw [hnow] at hleft
    obtain ⟨hlinked, hunsynced, hversions⟩ := hfile
    rcases hafter : left.segments[segment]? with - | survivor <;> rw [hafter] at hleft
    · -- a link that was synced is there
      rcases hleft with hnot | hun
      · exact absurd hlinked hnot
      · rw [hunsynced] at hun
        cases hun
    · obtain ⟨-, hsurvives, heq⟩ := hleft
      rw [Option.filter_some_pos (by rw [heq]), Option.map_some]
      exact .some (hsurvives.zeroedFrom hversions)

theorem Recovering.drops_crash {start disk left : Disk} {torn : Option SegmentEnd}
    {needed : List UnloggedDrop} (h : Recovering start torn needed disk)
    (hcrash : disk.Crash left) : left.drops = start.drops ∨ left.drops.getD [] = needed :=
  h.drops _ hcrash.drops

/-- No zeroing of part of the torn tail makes a frame of it. -/
def ZeroingRevealed (files : List (ℕ × Bytes)) : Prop :=
  ∀ state ends torn, readLog files = .ok (state, ends) → tornSegment ends = some torn →
    ∀ bytes, (torn.segment, bytes) ∈ files → ∀ left, ZeroedFrom torn.dataEnd bytes left →
      NoFrame (left.drop torn.dataEnd)

/-- What a listing shows after a crash in a recovery. -/
theorem Recovering.image_crash {start disk left : Disk} {torn : Option SegmentEnd}
    {needed : List UnloggedDrop} (h : Recovering start torn needed disk)
    (hcrash : disk.Crash left) :
    left.image = start.image.map fun file => (file.1, (left.readFile file.1).getD file.2) := by
  refine Disk.image_eq_map fun segment => ?_
  have hread := h.readFile_crash hcrash segment
  rcases hstart : start.readFile segment with - | bytes <;>
    rcases hleft : left.readFile segment with - | bytes' <;> rw [hstart, hleft] at hread
  · cases hread
  · cases hread
  · rfl

/-- What a read of a segment in such a listing returns. -/
theorem Recovering.getD_crash {start disk left : Disk} {torn : Option SegmentEnd}
    {needed : List UnloggedDrop} (h : Recovering start torn needed disk)
    (hcrash : disk.Crash left) {file : ℕ × Bytes} (hfile : file ∈ start.image) :
    ZeroedFrom (zeroedOffset torn file.1 file.2) file.2
      ((left.readFile file.1).getD file.2) := by
  have hread := h.readFile_crash hcrash file.1
  rw [Disk.mem_image.mp hfile] at hread
  rcases hleft : left.readFile file.1 with - | bytes' <;> rw [hleft] at hread
  · cases hread
  · cases hread with
    | some hzeroed => exact hzeroed

/-- The log after a crash in a recovery is read as the recovery had read it. -/
theorem Recovering.readLog_crash {start disk left : Disk} {ends : List SegmentEnd}
    {needed : List UnloggedDrop} {state : RecoveredState}
    (h : Recovering start (tornSegment ends) needed disk)
    (hcrash : disk.Crash left) (hlog : readLog start.image = .ok (state, ends))
    (hrevealed : ZeroingRevealed start.image) :
    ∃ ends', readLog left.image = .ok (state, ends') ∧
      reusableSpareOf ends' (tornSegment ends') = reusableSpareOf ends (tornSegment ends) := by
  have himage := h.image_crash hcrash
  -- a segment that is not torn is as it was
  have hsame : ∀ file ∈ start.image, zeroedOffset (tornSegment ends) file.1 file.2 = file.2.length →
      (file.1, (left.readFile file.1).getD file.2) = file := by
    intro file hfile hoffset
    have hzeroed := h.getD_crash hcrash hfile
    rw [hoffset] at hzeroed
    rw [hzeroed.eq_of_length]
  rcases htorn : tornSegment ends with - | torn
  · refine ⟨ends, ?_, by rw [htorn]⟩
    rw [himage, List.map_congr_left fun file hfile => hsame file hfile (by rw [htorn]; rfl),
      List.map_id']
    exact hlog
  · obtain ⟨hread, hcheck⟩ := readLog_eq_ok hlog
    obtain ⟨older, spares, hends, -⟩ := split_of_tornSegment htorn hcheck
    rw [hends] at hread
    obtain ⟨files₁, file, files₂, state₁, state₂, hfiles, -, hfile, -⟩ := readSegments_split hread
    have hnumber : torn.segment = file.1 := segment_of_readSegment hfile
    have hmem : file ∈ start.image := by simp [hfiles]
    -- the segments have different numbers
    have hother : ∀ other ∈ files₁ ++ files₂, other.1 ≠ file.1 := by
      have hsorted := start.pairwise_image
      rw [hfiles, List.pairwise_append, List.pairwise_cons] at hsorted
      intro other hmem
      rcases List.mem_append.mp hmem with hmem | hmem
      · exact (hsorted.2.2 other hmem file List.mem_cons_self).ne
      · exact (hsorted.2.1.1 other hmem).ne'
    have hkept : ∀ files, files ⊆ files₁ ++ files₂ →
        files.map (fun file => (file.1, (left.readFile file.1).getD file.2)) = files := by
      intro files hsub
      refine (List.map_congr_left fun other hmem => hsame other ?_ ?_).trans (List.map_id' files)
      · rw [hfiles]
        rcases List.mem_append.mp (hsub hmem) with hmem | hmem
        · exact List.mem_append_left _ hmem
        · exact List.mem_append_right _ (List.mem_cons_of_mem _ hmem)
      · rw [htorn, zeroedOffset, hnumber, if_neg (hother other (hsub hmem)).symm]
    have hleft : left.image =
        files₁ ++ (file.1, (left.readFile file.1).getD file.2) :: files₂ := by
      rw [himage, hfiles, List.map_append, List.map_cons, hkept _ (List.subset_append_left _ _),
        hkept _ (List.subset_append_right _ _)]
    have hzeroed := h.getD_crash hcrash hmem
    rw [htorn, zeroedOffset, if_pos hnumber] at hzeroed
    have hnone := hrevealed state ends torn hlog htorn file.2 (hnumber ▸ hmem) _ hzeroed
    rw [hfiles] at hlog
    rw [hleft, ← htorn]
    exact readLog_zeroed hlog htorn hnumber hother hzeroed hnone

namespace KeeperWal

open Concurrent (Prog)

/-- Where no operation fails, recovery succeeds with this state. -/
def Succeeds (s : KeeperWal) (out : RecoveredState) : Prop :=
  recoverWal.Ensures (Choices false) (fun _ => True) (fun r _ => r = .ok out) s

/-- A crash now leaves a directory on which recovery succeeds with these stories, events and
copies. -/
def SurvivesCrash (s : KeeperWal) (out : RecoveredState) (t : KeeperWal) : Prop :=
  ∀ left, t.disk.Crash left → ∃ out', Succeeds { conf := s.conf, disk := left } out' ∧
    out'.stories = out.stories

/-- Whatever the file system answers, a crash at any point of the recovery leaves such a
directory. -/
def RecoversAnywhere (s : KeeperWal) (out : RecoveredState) : Prop :=
  recoverWal.Ensures (Choices true) (SurvivesCrash s out) (fun _ _ => True) s

/-- Nothing that a recovery read of `start` is left to sync: each content of a file since its
last sync is what was read, but for zeros over the torn tail. -/
def Settled (start disk : Disk) : Prop :=
  ∃ state ends, readLog start.image = .ok (state, ends) ∧
    Recovering start (tornSegment ends) (neededDrops start.list start) disk

/-- Whatever the file system answers, a crash at any point of the recovery at which nothing that
it read is left to sync leaves such a directory.  This is every point, if nothing was left to
sync at the start, and every point from the sync of the directory on, which a recovery that
succeeds has passed. -/
def RecoversAgain (s : KeeperWal) (out : RecoveredState) : Prop :=
  recoverWal.Ensures (Choices true)
    (fun t => (s.disk.Synced ∨ SyncedFrom s.disk t.disk → Settled s.disk t.disk) ∧
      (Settled s.disk t.disk → SurvivesCrash s out t))
    (fun r t => (∃ out', r = .ok out') → s.disk.image ≠ [] → SyncedFrom s.disk t.disk) s

/-- A recovery that succeeds has read the log. -/
theorem Succeeds.readLog {s : KeeperWal} {out : RecoveredState} (h : s.Succeeds out)
    (hclosed : s.segmentFiles.opened = false) :
    ∃ state ends, readLog s.disk.image = .ok (state, ends) ∧
      out = recoveredState state ends (s.disk.drops.getD []) := by
  have hnever : Choices false {} := fun h => by cases h
  rcases hlog : ChronoLog.readLog s.disk.image with err | ⟨state, ends⟩
  · obtain ⟨r, t, rfl, err, hr⟩ := h.meet (recoverWal_refuses hclosed hlog) hnever
    cases hr
  · obtain ⟨r, t, rfl, hr | ⟨hfail, -⟩⟩ := h.meet
      (recoverWal_returns hclosed hlog (.any _ _) trivial) hnever
    · exact ⟨state, ends, rfl, Except.ok.inj hr⟩
    · cases hfail

theorem succeeds_of_readLog {s : KeeperWal} (hclosed : s.segmentFiles.opened = false)
    {state : RecoveredState} {ends : List SegmentEnd}
    (hlog : readLog s.disk.image = .ok (state, ends)) :
    s.Succeeds (recoveredState state ends (s.disk.drops.getD [])) := by
  refine (recoverWal_returns hclosed hlog (.any _ _) trivial).mono (fun _ _ => trivial)
    fun r _ hr => ?_
  obtain rfl | ⟨hfail, -⟩ := hr
  · rfl
  · cases hfail

/-- The torn segment ends within the file that was read. -/
theorem size_of_tornSegment {disk : Disk} {state : RecoveredState}
    {ends : List SegmentEnd} (hlog : ChronoLog.readLog disk.image = .ok (state, ends))
    {torn : SegmentEnd} (htorn : tornSegment ends = some torn) {content : Bytes}
    (hfile : disk.readFile torn.segment = some content) :
    torn.dataEnd ≤ torn.size ∧ torn.size = content.length := by
  obtain ⟨hread, hcheck⟩ := readLog_eq_ok hlog
  obtain ⟨older, spares, rfl, -⟩ := split_of_tornSegment htorn hcheck
  obtain ⟨files₁, ⟨segment, bytes⟩, files₂, state₁, state₂, hfiles, -, hsegment, -⟩ :=
    readSegments_split hread
  obtain rfl : torn.segment = segment := segment_of_readSegment hsegment
  have hmem : (torn.segment, bytes) ∈ disk.image := by simp [hfiles]
  have hbytes := Disk.mem_image.mp hmem
  rw [hfile] at hbytes
  cases hbytes
  obtain ⟨bodies, rest, rfl, hsized, hrest⟩ := exists_framed content
  obtain ⟨header, records, -, hend⟩ := segmentEnd_of_readSegment hsized hrest hsegment
  rw [hend]
  exact ⟨by simp [segmentEnd], rfl⟩

/-- The segments of the state are those that were listed. -/
theorem segments_of_readLog {disk : Disk} {state : RecoveredState} {ends : List SegmentEnd}
    (hlog : ChronoLog.readLog disk.image = .ok (state, ends)) : state.segments = disk.list := by
  rw [Disk.list_eq]
  exact segments_of_readSegments (readLog_eq_ok hlog).1

/-- A recovery that succeeds ends with what it read synced. -/
theorem recoverWal_syncs {s : KeeperWal} (hclosed : s.segmentFiles.opened = false)
    (hsegments : s.disk.image ≠ []) :
    recoverWal.Ensures (Choices true) (fun _ => True)
      (fun r t => (∃ out, r = .ok out) → SyncedFrom s.disk t.disk) s := by
  refine ensures_recoverWal (P := fun _ => True) hclosed trivial trivial
    (fun _ err t ⟨out, hout⟩ => by cases hout) (fun _ _ err t ⟨out, hout⟩ => by cases hout)
    fun state ends hlog t _ hdrops => ?_
  refine ensures_finishRecovery_synced (fun hnone => hsegments ?_)
    (segments_of_readLog hlog) hdrops
  have hread := (readLog_eq_ok hlog).1
  rcases himage : s.disk.image with - | ⟨file, files⟩
  · rfl
  · rw [himage] at hread
    obtain ⟨_, _, _, _, _, heq⟩ := readSegments_cons hread
    rw [hnone] at heq
    cases heq

/-- A crash in a recovery when nothing it read is left to sync. -/
theorem Settled.survivesCrash {s t : KeeperWal} {state : RecoveredState} {ends : List SegmentEnd}
    (hlog : ChronoLog.readLog s.disk.image = .ok (state, ends))
    (hrevealed : ZeroingRevealed s.disk.image) (h : Settled s.disk t.disk) :
    SurvivesCrash s (recoveredState state ends (s.disk.drops.getD [])) t := by
  obtain ⟨state', ends', hlog', hrecovering⟩ := h
  rw [hlog] at hlog'
  cases hlog'
  intro left hcrash
  obtain ⟨ends', hlog', hspare⟩ := hrecovering.readLog_crash hcrash hlog hrevealed
  refine ⟨recoveredState state ends' (left.drops.getD []), succeeds_of_readLog rfl hlog', ?_⟩
  rw [recoveredState, recoveredState, hspare]
  rcases hrecovering.drops_crash hcrash with hdrops | hdrops
  · rw [hdrops]
  · rw [hdrops, neededDrops, ← segments_of_readLog hlog,
      applyDrops_stillNeeded s.disk.pairwise_image hlog]

/-- **Recovery is idempotent under crashes** that lose nothing it had read, where the checksums
reveal the torn tail also once some of its bytes are zeros. -/
theorem recovery_idempotent {s : KeeperWal} (hclosed : s.segmentFiles.opened = false)
    (hrevealed : ZeroingRevealed s.disk.image) {out : RecoveredState}
    (h : s.Succeeds out) : s.RecoversAgain out := by
  obtain ⟨state, ends, hlog, rfl⟩ := h.readLog hclosed
  have hsize : ∀ torn, tornSegment ends = some torn → ∀ bytes,
      s.disk.readFile torn.segment = some bytes →
      torn.dataEnd ≤ torn.size ∧ torn.size = bytes.length :=
    fun torn htorn bytes hbytes => size_of_tornSegment hlog htorn hbytes
  have hneeded : neededDrops state.segments s.disk = neededDrops s.disk.list s.disk := by
    rw [segments_of_readLog hlog]
  have hkept := keptByRecovery_showing (neededDrops s.disk.list s.disk) hsize
  have hkept' := keptByRecovery_recovering (neededDrops s.disk.list s.disk) hsize
  rw [← hneeded] at hkept hkept'
  have hshowing : recoverWal.Ensures (Choices true)
      (fun t => Showing s.disk (tornSegment ends) (neededDrops s.disk.list s.disk) t.disk)
      (fun _ _ => True) s := by
    rw [← hneeded]
    exact (recoverWal_returns hclosed hlog hkept (Showing.refl s.disk _ _)).mono
      (fun _ h => h) fun _ _ _ => trivial
  -- what was synced at the start stays so, but for the zeros
  have hrecovering : recoverWal.Ensures (Choices true)
      (fun t => s.disk.Synced → Settled s.disk t.disk) (fun _ _ => True) s := by
    by_cases hsynced : s.disk.Synced
    · refine (recoverWal_returns hclosed hlog hkept' (Recovering.start hsynced _ _)).mono
        (fun t ht _ => ⟨state, ends, hlog, ?_⟩) fun _ _ _ => trivial
      rw [← hneeded]
      exact ht
    · exact hshowing.mono (fun _ _ hcontra => absurd hcontra hsynced) fun _ _ _ => trivial
  have hsyncs : recoverWal.Ensures (Choices true) (fun _ => True)
      (fun r t => (∃ out', r = .ok out') → s.disk.image ≠ [] → SyncedFrom s.disk t.disk) s := by
    by_cases hsegments : s.disk.image = []
    · exact hshowing.mono (fun _ _ => trivial) fun _ _ _ _ hne => absurd hsegments hne
    · exact (recoverWal_syncs hclosed hsegments).mono (fun _ _ => trivial) fun _ _ h hok _ => h hok
  refine ((hshowing.and hrecovering).and hsyncs).mono (fun t ⟨⟨hshows, hsettled⟩, _⟩ => ?_)
    fun _ _ h => h.2
  refine ⟨fun hcase => ?_, fun hsettles => hsettles.survivesCrash hlog hrevealed⟩
  rcases hcase with hsynced | hsynced
  · exact hsettled hsynced
  · exact ⟨state, ends, hlog, hshows.recovering hsynced⟩

section CutGroup

/-- A segment with a group and the first bytes of another. -/
def cutLog : KeeperWal :=
  logOver [(1, (someSegment 1 [someGroup]).written ++ (framed someGroup.bodies).take 8)]

theorem cutLog_reads : (readLog cutLog.disk.image).toOption.map (fun read =>
    (tornSegment read.2).map SegmentEnd.dataEnd) =
    some (some (someSegment 1 [someGroup]).written.length) := by
  decide +kernel

theorem cutLog_revealed : ZeroingRevealed cutLog.disk.image := by
  intro state ends torn hlog htorn bytes hbytes left hzeroed
  refine noFrame_of_length ?_
  have hreads := cutLog_reads
  rw [hlog] at hreads
  have hdataEnd : torn.dataEnd = (someSegment 1 [someGroup]).written.length := by
    have hsome : (tornSegment ends).map SegmentEnd.dataEnd = _ := Option.some.inj hreads
    rw [htorn, Option.map_some] at hsome
    exact Option.some.inj hsome
  rw [cutLog, image_logOver_one, List.mem_singleton, Prod.mk.injEq] at hbytes
  rw [List.length_drop, hzeroed.1, hbytes.2, hdataEnd, List.length_append, List.length_take,
    kFrameHeaderBytes]
  omega

end CutGroup

section WrittenGroup

/-- The header of a segment, with nothing after it. -/
def emptyLog : KeeperWal :=
  logOver [(1, (someSegment 1 []).written ++ List.replicate (framed someGroup.bodies).length 0)]

/-- A segment with a group that is written and not synced. -/
def writtenFile : SegmentFile where
  content := (someSegment 1 []).written ++ framed someGroup.bodies
  unsynced := [(someSegment 1 []).written ++
    List.replicate (framed someGroup.bodies).length 0]
  linked := true
  linkUnsynced := false

/-- The log of that segment. -/
def writtenLog : KeeperWal :=
  { logOver [] with disk := ⟨(∅ : OrdMap ℕ SegmentFile).insert 1 writtenFile, none, []⟩ }

theorem segments_writtenLog (segment : ℕ) :
    writtenLog.disk.segments[segment]? = if segment = 1 then some writtenFile else none := by
  have hinsert : writtenLog.disk.segments[segment]? =
      if compare 1 segment = .eq then some writtenFile else none := by
    simp [writtenLog, Std.ExtTreeMap.getElem?_insert]
  rw [hinsert]
  simp only [Std.compare_eq_iff_eq]
  exact if_congr eq_comm rfl rfl

/-- The group is read, and its end is the end of the log. -/
theorem writtenLog_reads : (readLog writtenLog.disk.image).toOption.map (fun read =>
    ((tornSegment read.2).isNone,
      (recoveredState read.1 read.2 (writtenLog.disk.drops.getD [])).stories.isEmpty)) =
    some (true, false) ∧
    (readLog emptyLog.disk.image).toOption.map (fun read =>
      (recoveredState read.1 read.2 (emptyLog.disk.drops.getD [])).stories.isEmpty) =
    some true := by
  decide +kernel

theorem writtenLog_revealed : ZeroingRevealed writtenLog.disk.image := by
  intro state ends torn hlog htorn
  have hreads := writtenLog_reads.1
  rw [hlog] at hreads
  have hnone : (tornSegment ends).isNone = true :=
    congrArg Prod.fst (Option.some.inj hreads)
  rw [htorn] at hnone
  cases hnone

/-- A crash before the sync loses the group. -/
theorem writtenLog_crash : writtenLog.disk.Crash emptyLog.disk := by
  refine Disk.crash_of_one segments_writtenLog (segments_logOver_one _) rfl ?_ rfl rfl
  have hmem : (someSegment 1 []).written ++ List.replicate (framed someGroup.bodies).length 0 ∈
      writtenFile.content :: writtenFile.unsynced :=
    List.mem_cons_of_mem _ (List.mem_singleton_self _)
  exact ⟨⟨_, hmem, rfl⟩, fun i _ => ⟨_, hmem, rfl⟩⟩

end WrittenGroup

/-- The group before a cut one is returned again after a crash in its recovery, and so is a
group that was not synced, once the recovery has synced it. -/
theorem recovery_idempotent_cutLog :
    (∃ out, cutLog.Succeeds out ∧ cutLog.RecoversAgain out) ∧
    ∃ out, writtenLog.Succeeds out ∧ writtenLog.RecoversAgain out := by
  constructor
  · rcases hlog : readLog cutLog.disk.image with err | ⟨state, ends⟩
    · have hreads := cutLog_reads
      rw [hlog] at hreads
      cases hreads
    · have hsucceeds : cutLog.Succeeds (recoveredState state ends (cutLog.disk.drops.getD [])) :=
        succeeds_of_readLog rfl hlog
      exact ⟨_, hsucceeds, recovery_idempotent rfl cutLog_revealed hsucceeds⟩
  · rcases hlog : readLog writtenLog.disk.image with err | ⟨state, ends⟩
    · have hreads := writtenLog_reads.1
      rw [hlog] at hreads
      cases hreads
    · have hsucceeds : writtenLog.Succeeds
          (recoveredState state ends (writtenLog.disk.drops.getD [])) :=
        succeeds_of_readLog rfl hlog
      exact ⟨_, hsucceeds, recovery_idempotent rfl writtenLog_revealed hsucceeds⟩

section FlippedByte

/-- A segment whose only group has a byte of its event turned from zero to one. -/
def flippedLog : KeeperWal :=
  logOver [(1, (someSegment 1 []).written ++ (framed someGroup.bodies).set 61 1)]

/-- What a crash leaves of it while its tail is zeroed: the zeros of all bytes but that
one are lost. -/
def restoredLog : KeeperWal :=
  logOver [(1, (someSegment 1 []).written ++ framed someGroup.bodies)]

/-- What is returned of either. -/
theorem flippedLog_stories :
    (readLog flippedLog.disk.image).toOption.map (fun read =>
      (recoveredState read.1 read.2 (flippedLog.disk.drops.getD [])).stories.isEmpty) =
      some true ∧
    (readLog restoredLog.disk.image).toOption.map (fun read =>
      (recoveredState read.1 read.2 (restoredLog.disk.drops.getD [])).stories.isEmpty) =
      some false := by
  decide +kernel

/-- The log once the zeros are written and not synced. -/
def zeroingLog : KeeperWal := Prog.after {} 11 recoverWal flippedLog

/-- The segment as it is then, and the one before that its zeros overwrite. -/
def zeroingFile : SegmentFile where
  content := (someSegment 1 []).written ++ (frame (groupBody someGroup.size) ++ List.replicate 45 0)
  unsynced := [((someSegment 1 []).written ++ framed someGroup.bodies).set 97 1]
  linked := true
  linkUnsynced := false

theorem zeroingLog_holds : zeroingLog.disk.segments.keys = [1] ∧
    zeroingLog.disk.segments[1]? = some zeroingFile ∧
    restoredLog.disk.drops = zeroingLog.disk.drops := by
  decide +kernel

theorem segments_zeroingLog (segment : ℕ) : zeroingLog.disk.segments[segment]? =
    if segment = 1 then some zeroingFile else none := by
  split
  · rename_i heq
    rw [heq]
    exact zeroingLog_holds.2.1
  · rename_i hne
    apply Std.ExtTreeMap.getElem?_eq_none
    rw [← Std.ExtTreeMap.mem_keys, zeroingLog_holds.1]
    simpa using hne

/-- Bytes survive where one of them alone is overwritten by what it was. -/
theorem survives_of_set {content bytes : Bytes} {k : ℕ} {b : UInt8}
    (hlength : bytes.length = content.length) (hbyte : bytes.getD k 0 = content.getD k 0) :
    SegmentFile.Survives ⟨content, [bytes.set k b], true, false⟩ bytes := by
  refine ⟨⟨content, List.mem_cons_self, hlength⟩, fun i _ => ?_⟩
  by_cases hi : i = k
  · subst hi
    exact ⟨content, List.mem_cons_self, hbyte⟩
  · refine ⟨bytes.set k b, List.mem_cons_of_mem _ (List.mem_singleton_self _), ?_⟩
    rw [List.getD_eq_getElem?_getD, List.getD_eq_getElem?_getD, List.getElem?_set_ne (Ne.symm hi)]

theorem zeroingFile_survives :
    zeroingFile.Survives ((someSegment 1 []).written ++ framed someGroup.bodies) :=
  survives_of_set (by decide +kernel) (by decide +kernel)

theorem zeroingLog_crash : zeroingLog.disk.Crash restoredLog.disk :=
  Disk.crash_of_one segments_zeroingLog (segments_logOver_one _) rfl zeroingFile_survives
    zeroingLog_holds.2.2 rfl

/-- What a recovery returns when a crash somewhere in it has other events to return. -/
theorem not_recoversAnywhere {s : KeeperWal} {n : ℕ} {left : Disk}
    (hcrash : (Prog.after {} n recoverWal s).disk.Crash left) {out : RecoveredState} (empty : Bool)
    (hout : out.stories.isEmpty = !empty)
    (hleft : (readLog left.image).toOption.map (fun read =>
      (recoveredState read.1 read.2 (left.drops.getD [])).stories.isEmpty) = some empty) :
    ¬RecoversAnywhere s out := by
  intro hagain
  have hchoice : Choices true {} := fun _ => rfl
  obtain ⟨out', hsucceeds, hsame⟩ := Prog.Ensures.along hagain hchoice n left hcrash
  obtain ⟨state, ends, hlog, heq⟩ := hsucceeds.readLog rfl
  rw [hlog] at hleft
  have hempty : out'.stories.isEmpty = empty := by
    rw [heq]
    exact Option.some.inj hleft
  rw [hsame, hout] at hempty
  cases empty <;> cases hempty

/-- What the recovery of a log that can be read returns. -/
theorem exists_succeeds {s : KeeperWal} (hclosed : s.segmentFiles.opened = false) {empty : Bool}
    (hreads : (readLog s.disk.image).toOption.map (fun read =>
      (recoveredState read.1 read.2 (s.disk.drops.getD [])).stories.isEmpty) = some empty) :
    ∃ out, Succeeds s out ∧ out.stories.isEmpty = empty := by
  rcases hlog : readLog s.disk.image with err | ⟨state, ends⟩ <;> rw [hlog] at hreads
  · cases hreads
  · exact ⟨_, succeeds_of_readLog hclosed hlog, Option.some.inj hreads⟩

end FlippedByte

/-- A crash in a recovery can restore a record that the recovery did not return, although
nothing was left to sync at its start; and it can lose a record that the recovery had read
before its sync, although nothing was torn. -/
theorem recovery_restores_record :
    (∃ s out, s.segmentFiles.opened = false ∧ s.disk.Synced ∧ Succeeds s out ∧
      ¬RecoversAnywhere s out) ∧
    ∃ s out, s.segmentFiles.opened = false ∧ ZeroingRevealed s.disk.image ∧ Succeeds s out ∧
      ¬RecoversAnywhere s out := by
  constructor
  · obtain ⟨out, hsucceeds, hempty⟩ := exists_succeeds (s := flippedLog) rfl flippedLog_stories.1
    exact ⟨flippedLog, out, rfl, Disk.synced_of_one (segments_logOver_one _) rfl, hsucceeds,
      not_recoversAnywhere (n := 11) zeroingLog_crash false hempty flippedLog_stories.2⟩
  · have hreads : (readLog writtenLog.disk.image).toOption.map (fun read =>
        (recoveredState read.1 read.2 (writtenLog.disk.drops.getD [])).stories.isEmpty) =
        some false := by
      have hboth := congrArg (Option.map Prod.snd) writtenLog_reads.1
      rwa [Option.map_map] at hboth
    obtain ⟨out, hsucceeds, hnonempty⟩ := exists_succeeds (s := writtenLog) rfl hreads
    exact ⟨writtenLog, out, rfl, writtenLog_revealed, hsucceeds,
      not_recoversAnywhere (n := 0) writtenLog_crash true hnonempty writtenLog_reads.2⟩

end KeeperWal

end ChronoLog
