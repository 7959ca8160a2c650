import ChronoLog.Lib.Transition
import ChronoLog.Archive.ArchivePaths

/-!
# The publication of window files

A write of a window goes to a partial file and is then linked under the window's name, or the
first numbered one that is free.  A link over NFS can be answered `EEXIST` although it was
made, which the count of the partial file's links shows.  On a file system without links the
partial file is renamed to the first name that is free.

The steps of any number of writes of any number of processes interleave here.  A file is
known by the write that created it, and its content by the write that completed it.

A count that fails is taken for a name that another write has, although the link may have been
made; a later name that another write has then passes for the link.  Processes share names when
one was forked from the other.

## Main definitions

* `WindowWriters` — the processes, their writes, and the names these are given.
* `StoryDirectory`, `system` — the directory, and the writes in steps.
* `OwnFiles` — a published name holds the content of the write it is reported by.
* `Attributable` — a count that fails, and a rename, cannot meet a file of another write.

## Main results

* `partialFileName_inj`, `windowName_inj` — what a name says of the write.
* `Sound.step` — one step of a write.
* `published_files` — **a write that returns a size has published its own complete content
  under a name of its own, and no step replaces or truncates what a write has published.**
* `sibling_file_published` — a write reports the file of another.
-/

namespace ChronoLog.Archive

/-! ### Names -/

/-- The processes that write into the directory and their calls of `writeWindow`.  Processes
with one writer tag run on different hosts or have different ids. -/
structure WindowWriters (Process Call : Type*) where
  recording_group : Process → ℕ
  writer_start : Process → ℕ
  host : Process → String
  pid : Process → ℕ
  process : Call → Process
  start_time : Call → ℕ
  incarnation : Call → ℕ
  distinct : ∀ p q, recording_group p = recording_group q → writer_start p = writer_start q →
    host p = host q → pid p = pid q → p = q

namespace WindowWriters

variable {Process Call : Type*} (W : WindowWriters Process Call)

/-- `windowFileName` for a write with a sequence number. -/
def baseFileName (w : Call) (sequence : ℕ) : String :=
  windowFileName (W.start_time w) (W.recording_group (W.process w)) (W.writer_start (W.process w))
    (W.incarnation w) sequence

/-- The `n`-th name tried for the window. -/
def windowName (w : Call) (sequence n : ℕ) : String :=
  numberedFileName (W.baseFileName w sequence) n

/-- `partialFileName`, with the number of the partial file. -/
def partialFileName (w : Call) (sequence counter : ℕ) : String :=
  String.ofList ((W.baseFileName w sequence).toList ++ '.' :: ("partial".toList ++ '.' ::
    ((W.host (W.process w)).toList ++ '.' :: (Nat.toDigits 10 (W.pid (W.process w)) ++ '.' ::
      Nat.toDigits 10 counter))))

/-- The process shares its writer tag with no other. -/
def Alone (p : Process) : Prop :=
  ∀ q, W.recording_group q = W.recording_group p → W.writer_start q = W.writer_start p → q = p

variable {W} {v w : Call} {sequence sequence' counter counter' n m : ℕ}

theorem nameParts_windowName : nameParts (W.windowName w sequence n) =
    windowParts (W.start_time w) (W.recording_group (W.process w)) (W.writer_start (W.process w))
      (W.incarnation w) sequence n :=
  nameParts_numberedFileName _ _ _ _ _ _

theorem nameParts_partialFileName : nameParts (W.partialFileName w sequence counter) =
    windowParts (W.start_time w) (W.recording_group (W.process w)) (W.writer_start (W.process w))
      (W.incarnation w) sequence 0 ++ ("partial".toList :: (nameParts (W.host (W.process w)) ++
        [Nat.toDigits 10 (W.pid (W.process w)), Nat.toDigits 10 counter])) := by
  have hword : "partial".toList.splitOn '.' = ["partial".toList] :=
    List.splitOn_eq_singleton (by decide)
  rw [nameParts, partialFileName, String.toList_ofList, List.splitOn_append_cons_self,
    List.splitOn_append_cons_self, List.splitOn_append_cons_self, List.splitOn_append_cons_self,
    hword, List.splitOn_eq_singleton (dot_notMem_toDigits _),
    List.splitOn_eq_singleton (dot_notMem_toDigits _)]
  exact congrArg (· ++ _) (nameParts_windowFileName _ _ _ _ _)

/-- A partial file's name is never a window's. -/
theorem windowName_ne_partialFileName :
    W.windowName v sequence n ≠ W.partialFileName w sequence' counter := by
  intro h
  have hlength := congrArg (fun name => (nameParts name).length) h
  simp only [nameParts_windowName, nameParts_partialFileName, windowParts] at hlength
  have hhost : (nameParts (W.host (W.process w))).length ≠ 0 := by
    rw [Ne, List.length_eq_zero_iff]
    exact List.splitOn_ne_nil _ _
  split at hlength <;> simp at hlength

/-- The parts of a window's name say which process wrote it, up to forks, and as which of its
windows. -/
theorem windowName_inj (h : W.windowName v sequence n = W.windowName w sequence' m) :
    W.recording_group (W.process v) = W.recording_group (W.process w) ∧
      W.writer_start (W.process v) = W.writer_start (W.process w) ∧ sequence = sequence' ∧
      n = m := by
  have hparts := congrArg nameParts h
  simp only [nameParts_windowName, windowParts] at hparts
  obtain ⟨hbase, hsuffix⟩ := List.append_inj hparts rfl
  simp only [List.cons.injEq, and_true] at hbase hsuffix
  refine ⟨toDigits_inj hbase.2.1, toDigits_inj hbase.2.2.1, toDigits_inj hbase.2.2.2.2, ?_⟩
  have hnumber := List.append_cancel_right hsuffix.2
  by_cases hn : n = 0 <;> by_cases hm : m = 0 <;> simp only [hn, hm, if_true, if_false] at hnumber ⊢
  · cases hnumber
  · cases hnumber
  · exact toDigits_inj (List.singleton_inj.mp hnumber)

/-- The parts of a partial file's name say which of its process's writes it belongs to. -/
theorem partialFileName_inj
    (h : W.partialFileName v sequence counter = W.partialFileName w sequence' counter') :
    W.process v = W.process w ∧ sequence = sequence' := by
  have hparts := congrArg nameParts h
  simp only [nameParts_partialFileName, windowParts] at hparts
  obtain ⟨hbase, hrest⟩ := List.append_inj hparts rfl
  simp only [if_true, List.nil_append, List.cons_append, List.cons.injEq, and_true, true_and]
    at hbase hrest
  obtain ⟨hhost, hlast⟩ := List.append_inj' hrest rfl
  simp only [List.cons.injEq, and_true] at hlast
  refine ⟨W.distinct _ _ (toDigits_inj hbase.2.1) (toDigits_inj hbase.2.2.1) ?_
    (toDigits_inj hlast.1), toDigits_inj hbase.2.2.2.2⟩
  have hjoined := congrArg (['.'].intercalate ·) hhost
  simp only [nameParts, List.intercalate_splitOn] at hjoined
  exact String.toList_inj.mp hjoined

/-- The last part of a name is its end. -/
theorem suffix_intercalate {α : Type*} (x : α) (last : List α) {parts : List (List α)}
    (h : parts ≠ []) : x :: last <:+ [x].intercalate (parts ++ [last]) := by
  induction parts with
  | nil => exact absurd rfl h
  | cons part parts ih =>
    cases parts with
    | nil =>
      rw [show [x].intercalate ([part] ++ [last]) = part ++ (x :: last) by simp [List.intercalate]]
      exact List.suffix_append _ _
    | cons next parts =>
      have hjoined : [x].intercalate (part :: next :: parts ++ [last]) =
          (part ++ [x]) ++ [x].intercalate (next :: parts ++ [last]) := by
        simp [List.intercalate]
      rw [hjoined]
      exact (ih (List.cons_ne_nil _ _)).trans (List.suffix_append _ _)

/-- A window's name ends in `.h5`. -/
theorem suffix_windowName : ".h5".toList <:+ (W.windowName w sequence n).toList := by
  have hjoined : (W.windowName w sequence n).toList =
      ['.'].intercalate (nameParts (W.windowName w sequence n)) :=
    (List.intercalate_splitOn _).symm
  rw [hjoined, nameParts_windowName, windowParts, ← List.cons_append, ← List.append_assoc]
  exact suffix_intercalate '.' _ (by simp)

end WindowWriters

/-! ### The directory -/

/-- Where a call of `writeWindow` stands. -/
inductive PublishStage where
  | notStarted
  /-- The base name is chosen. -/
  | named
  /-- The partial file is open. -/
  | writing
  /-- About to link the `n`-th name. -/
  | linking (n : ℕ)
  /-- The link of the `n`-th name was answered `EEXIST`. -/
  | counting (n : ℕ)
  /-- Links are not supported. -/
  | fallingBack
  /-- `publishByRename` is about to look whether the `n`-th name is taken. -/
  | probing (n : ℕ)
  /-- The `n`-th name was free. -/
  | renaming (n : ℕ)
  /-- The partial file is the window's under the `n`-th name, and its other name goes. -/
  | unlinking (n : ℕ)
  /-- The window has the `n`-th name, and the directories are to be synced. -/
  | syncing (n : ℕ)
  /-- The write has failed, and the partial file goes. -/
  | failing
  /-- The size of the window and the number of its name, or 0. -/
  | returned (result : Option ℕ)
  deriving DecidableEq, Repr

/-- A story's directory, and the calls of `writeWindow` under way.  A file is known by the call
that created it; `contents` is the call whose whole data a file holds. -/
structure StoryDirectory (Process Call : Type*) where
  entries : String → Option Call := fun _ => none
  contents : Call → Option Call := fun _ => none
  links : Call → ℕ := fun _ => 0
  nextWindow : Process → ℕ := fun _ => 0
  nextPartial : Process → ℕ := fun _ => 0
  renameFallbackMutex : Process → Option Call := fun _ => none
  sequence : Call → ℕ := fun _ => 0
  partialName : Call → String := fun _ => ""
  stage : Call → PublishStage := fun _ => .notStarted

/-- What `create_hard_link` answers. -/
inductive LinkAnswer where
  | success
  | exists
  | unsupported
  | failed
  deriving DecidableEq, Repr

/-- The steps of a call `w`, with what the file system does and answers. -/
inductive PublishLabel (Call : Type*) where
  | name (w : Call) (directoryCreated : Bool)
  | create (w : Call) (created opened : Bool)
  | write (w : Call) (complete : Bool)
  | link (w : Call) (made : Bool) (answer : LinkAnswer)
  | count (w : Call) (counted : Bool)
  | lock (w : Call)
  | probe (w : Call) (answered : Bool)
  | rename (w : Call) (moved done : Bool)
  | unlink (w : Call) (removed : Bool)
  | sync (w : Call) (synced removed : Bool)

namespace StoryDirectory

variable {Process Call : Type*}

/-- The call goes on to another stage. -/
def goTo [DecidableEq Call] (d : StoryDirectory Process Call) (w : Call) (stage : PublishStage) :
    StoryDirectory Process Call :=
  { d with stage := Function.update d.stage w stage }

/-- A name is removed from the directory. -/
def remove [DecidableEq Call] (d : StoryDirectory Process Call) (name : String) :
    StoryDirectory Process Call :=
  match d.entries name with
  | none => d
  | some file =>
    { d with
      entries := Function.update d.entries name none
      links := Function.update d.links file (d.links file - 1) }

/-- A file is created under a name, or truncated where the name is taken. -/
def openTruncated [DecidableEq Call] (d : StoryDirectory Process Call) (w : Call) (name : String) :
    StoryDirectory Process Call :=
  match d.entries name with
  | none =>
    { d with
      entries := Function.update d.entries name (some w)
      contents := Function.update d.contents w none
      links := Function.update d.links w 1 }
  | some file => { d with contents := Function.update d.contents file none }

/-- The file of a name gets another name, which is free. -/
def addLink [DecidableEq Call] (d : StoryDirectory Process Call) (name other : String) :
    StoryDirectory Process Call :=
  match d.entries name with
  | none => d
  | some file =>
    { d with
      entries := Function.update d.entries other (some file)
      links := Function.update d.links file (d.links file + 1) }

/-- The file of a name gets another name in its place; one that has the other name loses it. -/
def move [DecidableEq Call] (d : StoryDirectory Process Call) (name other : String) :
    StoryDirectory Process Call :=
  match d.entries name with
  | none => d
  | some file =>
    if d.entries other = some file then d
    else
      let d := d.remove other
      { d with
        entries := Function.update (Function.update d.entries other (some file)) name none }

end StoryDirectory

/-! ### A process and its fork -/

/-- A process and one that was forked from it, with a call each. -/
def forkedWriters : WindowWriters Bool Bool where
  recording_group _ := 7
  writer_start _ := 1700000000
  host _ := "archive"
  pid forked := if forked then 12 else 11
  process w := w
  start_time _ := 5000000000
  incarnation _ := 3
  distinct p q _ _ _ h := by
    revert h
    cases p <;> cases q <;> simp

/-- The steps of a call up to the link of its first name. -/
def upToLink (w : Bool) : List (PublishLabel Bool) :=
  [.name w true, .create w true true, .write w true]

/-- The steps of a call whose link stands. -/
def fromLink (w : Bool) : List (PublishLabel Bool) := [.unlink w true, .sync w true true]

section

variable {Process Call : Type*} (W : WindowWriters Process Call)

/-- The `n`-th name of the window of a call that has its sequence number. -/
def StoryDirectory.windowName (d : StoryDirectory Process Call) (w : Call) (n : ℕ) : String :=
  W.windowName w (d.sequence w) n

/-- `publishByRename` returns. -/
def StoryDirectory.unlock [DecidableEq Process] (d : StoryDirectory Process Call) (w : Call) :
    StoryDirectory Process Call :=
  { d with
    renameFallbackMutex := Function.update d.renameFallbackMutex (W.process w) none }

/-- The stage after the answer to the link of the `n`-th name. -/
def LinkAnswer.next (n : ℕ) : LinkAnswer → PublishStage
  | .success => .unlinking n
  | .exists => .counting n
  | .unsupported => .fallingBack
  | .failed => .failing

/-- One step of a call.  A link is made under a free name only; `success` is answered where it
was made, and `EEXIST` where the name is taken, be it by this very link. -/
def publishStep [DecidableEq Process] [DecidableEq Call] (d : StoryDirectory Process Call) :
    PublishLabel Call → Option (StoryDirectory Process Call)
  | .name w directoryCreated =>
    if d.stage w = .notStarted then
      some ({ d with
        sequence := Function.update d.sequence w (d.nextWindow (W.process w))
        nextWindow := Function.update d.nextWindow (W.process w)
          (d.nextWindow (W.process w) + 1) }.goTo w
        (if directoryCreated then .named else .returned none))
    else none
  | .create w created opened =>
    if d.stage w = .named ∧ (opened → created) then
      let name := W.partialFileName w (d.sequence w) (d.nextPartial (W.process w))
      let d := { d with
        partialName := Function.update d.partialName w name
        nextPartial := Function.update d.nextPartial (W.process w)
          (d.nextPartial (W.process w) + 1) }
      let d := if created then d.openTruncated w name else d
      some (d.goTo w (if opened then .writing else .failing))
    else none
  | .write w complete =>
    if d.stage w = .writing then
      if complete then
        match d.entries (d.partialName w) with
        | some file =>
          some ({ d with contents := Function.update d.contents file (some w) }.goTo w (.linking 0))
        | none => none
      else some (d.goTo w .failing)
    else none
  | .link w made answer =>
    match d.stage w with
    | .linking n =>
      if (made → d.entries (d.windowName W w n) = none) ∧ (answer = .success → made) ∧
          (answer = .exists → made ∨ d.entries (d.windowName W w n) ≠ none) then
        let d' := if made then d.addLink (d.partialName w) (d.windowName W w n) else d
        some (d'.goTo w (answer.next n))
      else none
    | _ => none
  | .count w counted =>
    match d.stage w with
    | .counting n =>
      let several := (d.entries (d.partialName w)).any fun file => 1 < d.links file
      some (d.goTo w (if counted ∧ several then .unlinking n
        else if n + 1 < kMaxFilesPerWindow then .linking (n + 1) else .failing))
    | _ => none
  | .lock w =>
    if d.stage w = .fallingBack ∧ d.renameFallbackMutex (W.process w) = none then
      some ({ d with
        renameFallbackMutex := Function.update d.renameFallbackMutex (W.process w) (some w) }.goTo w
        (.probing 0))
    else none
  | .probe w answered =>
    match d.stage w with
    | .probing n =>
      if !answered then some ((d.unlock W w).goTo w .failing)
      else if d.entries (d.windowName W w n) = none then some (d.goTo w (.renaming n))
      else if n + 1 < kMaxFilesPerWindow then some (d.goTo w (.probing (n + 1)))
      else some ((d.unlock W w).goTo w .failing)
    | _ => none
  | .rename w moved done =>
    match d.stage w with
    | .renaming n =>
      if done → moved then
        let d' := if moved then d.move (d.partialName w) (d.windowName W w n) else d
        some ((d'.unlock W w).goTo w (if done then .syncing n else .failing))
      else none
    | _ => none
  | .unlink w removed =>
    let d' := if removed then d.remove (d.partialName w) else d
    match d.stage w with
    | .unlinking n => some (d'.goTo w (.syncing n))
    | .failing => some (d'.goTo w (.returned none))
    | _ => none
  | .sync w synced removed =>
    match d.stage w with
    | .syncing n =>
      if synced then some (d.goTo w (.returned (some n)))
      else
        let d' := if removed then d.remove (d.windowName W w n) else d
        some (d'.goTo w (.returned none))
    | _ => none

/-- The calls of `writeWindow` into an empty directory; the numbers of a process may stand
anywhere, as a forked process goes on with those of the other. -/
def publication [DecidableEq Process] [DecidableEq Call] :
    Transition.System (StoryDirectory Process Call) (PublishLabel Call) where
  Initial := fun d => ∃ nextWindow nextPartial,
    d = { nextWindow := nextWindow, nextPartial := nextPartial }
  step := publishStep W

/-- The window of the call has the `n`-th name. -/
def PublishStage.Publishes (n : ℕ) (stage : PublishStage) : Prop :=
  stage = .unlinking n ∨ stage = .syncing n ∨ stage = .returned (some n)

/-- Each window that a call has published is there under its name, with the call's whole
content; the name ends in `.h5`, and no other call has it. -/
def OwnFiles (d : StoryDirectory Process Call) : Prop :=
  (∀ w n, (d.stage w).Publishes n →
    (∃ file, d.entries (d.windowName W w n) = some file ∧ d.contents file = some w) ∧
      ".h5".toList <:+ (d.windowName W w n).toList) ∧
  ∀ v w n m, (d.stage v).Publishes n → (d.stage w).Publishes m →
    d.windowName W v n = d.windowName W w m → v = w

/-- A count fails only where no link of the file was made, and a file is renamed only to a name
that is still free, unless the names of the call can be no other's. -/
def Attributable (d : StoryDirectory Process Call) : PublishLabel Call → Prop
  | .count w counted => counted = true ∨ W.Alone (W.process w) ∨
    ∀ file, d.entries (d.partialName w) = some file → d.links file ≤ 1
  | .rename w _ _ => W.Alone (W.process w) ∨
    ∀ n, d.stage w = .renaming n → d.entries (d.windowName W w n) = none
  | _ => True

/-! ### What a call relies on -/

namespace PublishStage

/-- The call may have created a file. -/
def Opened (stage : PublishStage) : Prop := stage ≠ .notStarted ∧ stage ≠ .named

/-- The call has chosen the name of its partial file and may still remove it. -/
def HasPartial : PublishStage → Prop
  | .notStarted | .named | .syncing _ | .returned _ => False
  | _ => True

/-- The partial file is there. -/
def Active : PublishStage → Prop
  | .writing | .linking _ | .counting _ | .fallingBack | .probing _ | .renaming _ => True
  | _ => False

/-- The file is complete. -/
def Written : PublishStage → Prop
  | .notStarted | .named | .writing | .failing | .returned none => False
  | _ => True

end PublishStage

/-- The name is one that the call gives its file. -/
def OwnName (d : StoryDirectory Process Call) (w : Call) (name : String) : Prop :=
  (∃ counter, name = W.partialFileName w (d.sequence w) counter) ∨ ∃ n, name = d.windowName W w n

/-- What a call at a stage relies on. -/
structure Stands (d : StoryDirectory Process Call) (w : Call) (stage : PublishStage) : Prop where
  started : stage ≠ .notStarted → d.sequence w < d.nextWindow (W.process w)
  hasPartial : stage.HasPartial →
    ∃ counter, d.partialName w = W.partialFileName w (d.sequence w) counter
  active : stage.Active → d.entries (d.partialName w) = some w
  written : stage.Written → d.contents w = some w
  few : (stage = .writing ∨ ∃ n, stage = .linking n) → W.Alone (W.process w) ∨ d.links w ≤ 1
  counting : ∀ n, stage = .counting n → 1 < d.links w → d.entries (d.windowName W w n) = some w
  published : ∀ n, stage.Publishes n → d.entries (d.windowName W w n) = some w

/-- The invariant of the directory: each call finds what it relies on, the calls of a process
have different sequence numbers, and a file has names of its own call only. -/
structure Sound (d : StoryDirectory Process Call) : Prop where
  stands : ∀ w, Stands W d w (d.stage w)
  sequence_inj : ∀ v w, d.stage v ≠ .notStarted → d.stage w ≠ .notStarted →
    W.process v = W.process w → d.sequence v = d.sequence w → v = w
  own : ∀ name file, d.entries name = some file →
    (d.stage file).Opened ∧ OwnName W d file name

/-- The step of a call `w` changes nothing that the other calls rely on. -/
structure Spares (d d' : StoryDirectory Process Call) (w : Call) : Prop where
  stage : d'.stage = d.stage
  sequence : ∀ v, v ≠ w → d'.sequence v = d.sequence v
  partialName : ∀ v, v ≠ w → d'.partialName v = d.partialName v
  contents : ∀ v, v ≠ w → d'.contents v = d.contents v
  nextWindow : ∀ p, d.nextWindow p ≤ d'.nextWindow p
  links : ∀ v, v ≠ w → d'.links v ≤ d.links v
  entries : ∀ name v, v ≠ w → (d'.entries name = some v ↔ d.entries name = some v)

section

variable {W} {d d' : StoryDirectory Process Call} {v w : Call} {stage : PublishStage}
  {name : String}

theorem windowName_congr (h : d'.sequence w = d.sequence w) (n : ℕ) :
    d'.windowName W w n = d.windowName W w n := by
  rw [StoryDirectory.windowName, StoryDirectory.windowName, h]

theorem ownName_congr (h : d'.sequence w = d.sequence w) :
    OwnName W d' w name ↔ OwnName W d w name := by
  simp only [OwnName, StoryDirectory.windowName, h]

theorem Spares.refl (d : StoryDirectory Process Call) (w : Call) : Spares d d w :=
  ⟨rfl, fun _ _ => rfl, fun _ _ => rfl, fun _ _ => rfl, fun _ => le_rfl, fun _ _ => le_rfl,
    fun _ _ _ => Iff.rfl⟩

/-- The other calls stand as before. -/
theorem Stands.of_spares (h : Stands W d v stage) (hspares : Spares d d' w) (hne : v ≠ w) :
    Stands W d' v stage where
  started hstage := by
    rw [hspares.sequence v hne]
    exact (h.started hstage).trans_le (hspares.nextWindow _)
  hasPartial hstage := by
    rw [hspares.partialName v hne, hspares.sequence v hne]
    exact h.hasPartial hstage
  active hstage := by
    rw [hspares.partialName v hne, hspares.entries _ v hne]
    exact h.active hstage
  written hstage := by
    rw [hspares.contents v hne]
    exact h.written hstage
  few hstage := (h.few hstage).imp_right (hspares.links v hne).trans
  counting n hstage hlinks := by
    rw [StoryDirectory.windowName, hspares.sequence v hne, hspares.entries _ v hne]
    exact h.counting n hstage (hlinks.trans_le (hspares.links v hne))
  published n hstage := by
    rw [StoryDirectory.windowName, hspares.sequence v hne, hspares.entries _ v hne]
    exact h.published n hstage

/-- **A step of a call that changes nothing the others rely on.** -/
theorem Sound.goTo [DecidableEq Call] (h : Sound W d) (hspares : Spares d d' w)
    (hstands : Stands W d' w stage)
    (hsequence : ∀ v, v ≠ w → d.stage v ≠ .notStarted → W.process v = W.process w →
      d'.sequence w ≠ d.sequence v)
    (hown : ∀ name, d'.entries name = some w → stage.Opened ∧ OwnName W d' w name) :
    Sound W (d'.goTo w stage) where
  stands v := by
    by_cases hv : v = w
    · subst hv
      have hstage : (d'.goTo v stage).stage v = stage := Function.update_self _ _ _
      rw [hstage]
      exact ⟨hstands.started, hstands.hasPartial, hstands.active, hstands.written, hstands.few,
        hstands.counting, hstands.published⟩
    · have hstage : (d'.goTo w stage).stage v = d.stage v := by
        rw [← hspares.stage]
        exact Function.update_of_ne hv _ _
      rw [hstage]
      have := (h.stands v).of_spares hspares hv
      exact ⟨this.started, this.hasPartial, this.active, this.written, this.few, this.counting,
        this.published⟩
  sequence_inj := by
    have hother : ∀ u, u ≠ w → (d'.goTo w stage).stage u ≠ .notStarted →
        d.stage u ≠ .notStarted := by
      intro u hu hstage
      rw [← hspares.stage]
      exact fun heq => hstage ((Function.update_of_ne hu _ _).trans heq)
    intro u v hu hv hprocess heq
    change d'.sequence u = d'.sequence v at heq
    by_cases huw : u = w <;> by_cases hvw : v = w
    · exact huw.trans hvw.symm
    · subst huw
      rw [hspares.sequence v hvw] at heq
      exact absurd heq (hsequence v hvw (hother v hvw hv) hprocess.symm)
    · subst hvw
      rw [hspares.sequence u huw] at heq
      exact absurd heq.symm (hsequence u huw (hother u huw hu) hprocess)
    · rw [hspares.sequence u huw, hspares.sequence v hvw] at heq
      exact h.sequence_inj u v (hother u huw hu) (hother v hvw hv) hprocess heq
  own name file hname := by
    change d'.entries name = some file at hname
    by_cases hfile : file = w
    · subst hfile
      rw [show (d'.goTo file stage).stage file = stage from Function.update_self _ _ _]
      exact hown name hname
    · obtain ⟨hopened, hownName⟩ := h.own name file ((hspares.entries name file hfile).mp hname)
      rw [show (d'.goTo w stage).stage file = d.stage file by
        rw [← hspares.stage]; exact Function.update_of_ne hfile _ _]
      exact ⟨hopened, (ownName_congr (hspares.sequence file hfile)).mpr hownName⟩

/-! ### Whose file has a name -/

/-- A file under a call's partial name is the call's. -/
theorem Sound.eq_of_partialName (h : Sound W d) (hw : d.stage w ≠ .notStarted) {counter : ℕ}
    {file : Call} (hfile : d.entries (W.partialFileName w (d.sequence w) counter) = some file) :
    file = w := by
  obtain ⟨hopened, hown⟩ := h.own _ file hfile
  rcases hown with ⟨counter', heq⟩ | ⟨n, heq⟩
  · obtain ⟨hprocess, hsequence⟩ := WindowWriters.partialFileName_inj heq
    exact (h.sequence_inj w file hw hopened.1 hprocess hsequence).symm
  · exact absurd heq.symm WindowWriters.windowName_ne_partialFileName

/-- So is one under a window's name, where the process shares its writer tag with no other. -/
theorem Sound.eq_of_windowName (h : Sound W d) (hw : d.stage w ≠ .notStarted)
    (halone : W.Alone (W.process w)) {n : ℕ} {file : Call}
    (hfile : d.entries (d.windowName W w n) = some file) : file = w := by
  obtain ⟨hopened, hown⟩ := h.own _ file hfile
  rcases hown with ⟨counter, heq⟩ | ⟨m, heq⟩
  · exact absurd heq WindowWriters.windowName_ne_partialFileName
  · obtain ⟨hgroup, hstart, hsequence, -⟩ := WindowWriters.windowName_inj heq
    exact (h.sequence_inj w file hw hopened.1 (halone _ hgroup.symm hstart.symm).symm
      hsequence).symm

/-- The name that a call moves its file to is free or has the file already. -/
theorem Sound.free_or_own (h : Sound W d) {n : ℕ} (hw : d.stage w ≠ .notStarted)
    (hfree : W.Alone (W.process w) ∨ d.entries (d.windowName W w n) = none) :
    d.entries (d.windowName W w n) = none ∨ d.entries (d.windowName W w n) = some w := by
  rcases hfree with halone | hnone
  · cases hentry : d.entries (d.windowName W w n) with
    | none => exact Or.inl rfl
    | some file =>
      rw [h.eq_of_windowName hw halone hentry]
      exact Or.inr rfl
  · exact Or.inl hnone

theorem windowName_ne_partialName (h : Stands W d w stage) (hstage : stage.HasPartial) (n : ℕ) :
    d.windowName W w n ≠ d.partialName w := by
  obtain ⟨counter, hcounter⟩ := h.hasPartial hstage
  rw [hcounter]
  exact WindowWriters.windowName_ne_partialFileName

/-- The names that a call keeps or adds are its own. -/
theorem Sound.own_of_entries (h : Sound W d) (hsequence : d'.sequence w = d.sequence w)
    (hopened : stage.Opened)
    (hentries : ∀ name, d'.entries name = some w → d.entries name = some w ∨ OwnName W d w name) :
    ∀ name, d'.entries name = some w → stage.Opened ∧ OwnName W d' w name := by
  intro name hname
  refine ⟨hopened, (ownName_congr hsequence).mpr ?_⟩
  rcases hentries name hname with hold | hown
  · exact (h.own name w hold).2
  · exact hown

/-- A call that has started keeps its sequence number to itself. -/
theorem Sound.sequence_ne (h : Sound W d) (hw : d.stage w ≠ .notStarted)
    (hsequence : d'.sequence w = d.sequence w) :
    ∀ v, v ≠ w → d.stage v ≠ .notStarted → W.process v = W.process w →
      d'.sequence w ≠ d.sequence v := by
  intro v hv hstarted hprocess heq
  exact hv (h.sequence_inj v w hstarted hw hprocess (heq.symm.trans hsequence))

theorem PublishStage.Active.hasPartial (h : stage.Active) : stage.HasPartial := by
  cases stage <;> first | exact h.elim | trivial

theorem PublishStage.Active.opened (h : stage.Active) : stage.Opened := by
  cases stage <;> first | exact h.elim | simp [PublishStage.Opened]

/-- What a call that still has its complete partial file relies on. -/
theorem Stands.of_active (h : Stands W d w stage) (hactive : stage.Active)
    (hwritten : stage.Written) {next : PublishStage}
    (hfew : (next = .writing ∨ ∃ n, next = .linking n) → W.Alone (W.process w) ∨ d.links w ≤ 1)
    (hcounting : ∀ n, next = .counting n → 1 < d.links w → d.entries (d.windowName W w n) = some w)
    (hpublished : ∀ n, next.Publishes n → d.entries (d.windowName W w n) = some w) :
    Stands W d w next :=
  ⟨fun _ => h.started hactive.opened.1, fun _ => h.hasPartial hactive.hasPartial,
    fun _ => h.active hactive, fun _ => h.written hwritten, hfew, hcounting, hpublished⟩

/-! ### The operations on the directory -/

variable [DecidableEq Call]

theorem entries_remove (name other : String) :
    (d.remove name).entries other = if other = name then none else d.entries other := by
  unfold StoryDirectory.remove
  split
  · next hnone =>
    split
    · next heq => rw [heq, hnone]
    · rfl
  · exact Function.update_apply _ _ _ _

theorem spares_remove (h : ∀ file, d.entries name = some file → file = w) :
    Spares d (d.remove name) w := by
  have hentries : ∀ other v, v ≠ w →
      ((d.remove name).entries other = some v ↔ d.entries other = some v) := by
    intro other v hv
    rw [entries_remove]
    split
    · next heq =>
      subst heq
      exact iff_of_false (by simp) fun hother => hv (h v hother)
    · rfl
  cases hname : d.entries name with
  | none =>
    rw [StoryDirectory.remove, hname]
    exact Spares.refl d w
  | some file =>
    obtain rfl := h file hname
    rw [StoryDirectory.remove, hname] at hentries ⊢
    exact ⟨rfl, fun _ _ => rfl, fun _ _ => rfl, fun _ _ => rfl, fun _ => le_rfl,
      fun v hv => (Function.update_of_ne hv _ _).le, hentries⟩

@[simp] theorem sequence_remove : (d.remove name).sequence = d.sequence := by
  unfold StoryDirectory.remove
  split <;> rfl

@[simp] theorem contents_remove : (d.remove name).contents = d.contents := by
  unfold StoryDirectory.remove
  split <;> rfl

@[simp] theorem nextWindow_remove : (d.remove name).nextWindow = d.nextWindow := by
  unfold StoryDirectory.remove
  split <;> rfl

/-- A call that has started goes on, with its names and those it adds. -/
theorem Sound.goOn (h : Sound W d) (hw : (d.stage w).Opened) (hopened : stage.Opened)
    (hspares : Spares d d' w) (hsequence : d'.sequence w = d.sequence w)
    (hstands : Stands W d' w stage)
    (hentries : ∀ name, d'.entries name = some w → d.entries name = some w ∨ OwnName W d w name) :
    Sound W (d'.goTo w stage) :=
  h.goTo hspares hstands (h.sequence_ne hw.1 hsequence)
    (h.own_of_entries hsequence hopened hentries)

theorem Sound.after_name [DecidableEq Process] (h : Sound W d) (hw : d.stage w = .notStarted)
    (directoryCreated : Bool) :
    Sound W ({ d with
      sequence := Function.update d.sequence w (d.nextWindow (W.process w))
      nextWindow := Function.update d.nextWindow (W.process w)
        (d.nextWindow (W.process w) + 1) }.goTo w
      (if directoryCreated then .named else .returned none)) := by
  refine h.goTo ⟨rfl, fun v hv => Function.update_of_ne hv _ _, fun _ _ => rfl, fun _ _ => rfl,
    fun p => ?_, fun _ _ => le_rfl, fun _ _ _ => Iff.rfl⟩ ⟨fun _ => ?_, ?_, ?_, ?_, ?_, ?_, ?_⟩
    (fun v hv hstarted hprocess => ?_) fun name hname => ?_
  · dsimp only
    rw [Function.update_apply]
    split
    · next hp =>
      subst hp
      omega
    · exact le_rfl
  · dsimp only
    rw [Function.update_self, Function.update_self]
    omega
  · cases directoryCreated <;> exact False.elim
  · cases directoryCreated <;> exact False.elim
  · cases directoryCreated <;> exact False.elim
  · cases directoryCreated <;> simp
  · cases directoryCreated <;> simp
  · cases directoryCreated <;> simp [PublishStage.Publishes]
  · -- the number is above those of the process's other calls
    dsimp only
    rw [Function.update_self, ← hprocess]
    exact ((h.stands v).started hstarted).ne'
  · exact absurd hw (h.own name w hname).1.1

/-- The directory once a call has chosen the name of its partial file. -/
def withPartialName [DecidableEq Process] (W : WindowWriters Process Call)
    (d : StoryDirectory Process Call) (w : Call) : StoryDirectory Process Call :=
  { d with
    partialName := Function.update d.partialName w
      (W.partialFileName w (d.sequence w) (d.nextPartial (W.process w)))
    nextPartial := Function.update d.nextPartial (W.process w)
      (d.nextPartial (W.process w) + 1) }

theorem spares_withPartialName [DecidableEq Process] : Spares d (withPartialName W d w) w :=
  ⟨rfl, fun _ _ => rfl, fun _ hv => Function.update_of_ne hv _ _, fun _ _ => rfl, fun _ => le_rfl,
    fun _ _ => le_rfl, fun _ _ _ => Iff.rfl⟩

/-- A call that opens its partial file creates it: the name is free. -/
theorem Sound.after_create [DecidableEq Process] (h : Sound W d) (hw : d.stage w = .named)
    {created opened : Bool} (hcreated : opened → created) :
    Sound W ((if created then (withPartialName W d w).openTruncated w
        (W.partialFileName w (d.sequence w) (d.nextPartial (W.process w)))
      else withPartialName W d w).goTo w (if opened then .writing else .failing)) := by
  have hstarted : d.stage w ≠ .notStarted := by simp [hw]
  -- a call has no file before it opens one
  have hnone : ∀ other, d.entries other ≠ some w := fun other hother =>
    (h.own other w hother).1.2 hw
  have hfree : (withPartialName W d w).entries
      (W.partialFileName w (d.sequence w) (d.nextPartial (W.process w))) = none := by
    by_contra hsome
    obtain ⟨file, hfile⟩ := Option.ne_none_iff_exists'.mp hsome
    exact hnone _ (h.eq_of_partialName hstarted hfile ▸ hfile)
  have hpart : (withPartialName W d w).partialName w =
      W.partialFileName w (d.sequence w) (d.nextPartial (W.process w)) := Function.update_self _ _ _
  cases created with
  | false =>
    obtain rfl : opened = false := by simpa using hcreated
    exact h.goTo spares_withPartialName
      ⟨fun _ => (h.stands w).started hstarted, fun _ => ⟨_, hpart⟩, False.elim, False.elim,
        by simp, by simp, by simp [PublishStage.Publishes]⟩
      (h.sequence_ne hstarted rfl) fun other hother => absurd hother (hnone other)
  | true =>
    rw [if_pos rfl, StoryDirectory.openTruncated, hfree]
    refine h.goTo ⟨rfl, fun _ _ => rfl, fun v hv => Function.update_of_ne hv _ _,
      fun v hv => Function.update_of_ne hv _ _, fun _ => le_rfl,
      fun v hv => (Function.update_of_ne hv _ _).le, fun other v hv => ?_⟩
      ⟨fun _ => (h.stands w).started hstarted, fun _ => ⟨_, hpart⟩, fun _ => ?_, ?_, fun _ => ?_,
        ?_, ?_⟩ (h.sequence_ne hstarted rfl) fun other hother => ⟨?_, ?_⟩
    · dsimp only
      rw [Function.update_apply]
      split
      · next heq =>
        subst heq
        refine iff_of_false (fun hsome => hv (Option.some.inj hsome).symm) fun hsome => ?_
        rw [show d.entries _ = none from hfree] at hsome
        cases hsome
      · rfl
    · dsimp only
      rw [hpart, Function.update_self]
    · cases opened <;> exact False.elim
    · exact Or.inr (Function.update_self _ _ _).le
    · cases opened <;> simp
    · cases opened <;> simp [PublishStage.Publishes]
    · cases opened <;> simp [PublishStage.Opened]
    · dsimp only at hother
      rw [Function.update_apply] at hother
      split at hother
      · next heq => exact Or.inl ⟨_, heq⟩
      · exact absurd hother (hnone other)

theorem Sound.after_write (h : Sound W d) (hw : d.stage w = .writing) :
    Sound W ({ d with contents := Function.update d.contents w (some w) }.goTo w (.linking 0)) := by
  have hstands := h.stands w
  rw [hw] at hstands
  refine h.goOn (by simp [hw, PublishStage.Opened]) (by simp [PublishStage.Opened])
    ⟨rfl, fun _ _ => rfl, fun _ _ => rfl, fun v hv => Function.update_of_ne hv _ _, fun _ => le_rfl,
      fun _ _ => le_rfl, fun _ _ _ => Iff.rfl⟩ rfl
    ⟨fun _ => hstands.started (by simp), fun _ => hstands.hasPartial trivial,
      fun _ => hstands.active trivial, fun _ => Function.update_self _ _ _,
      fun _ => hstands.few (Or.inl rfl), by simp, by simp [PublishStage.Publishes]⟩
    fun _ hname => Or.inl hname

/-- A call that gives up before it has published. -/
theorem Sound.after_failure (h : Sound W d) (hw : (d.stage w).HasPartial)
    (hopened : (d.stage w).Opened) {d' : StoryDirectory Process Call} (hspares : Spares d d' w)
    (hsequence : d'.sequence w = d.sequence w) (hpart : d'.partialName w = d.partialName w)
    (hnext : d'.nextWindow = d.nextWindow)
    (hentries : ∀ name, d'.entries name = some w → d.entries name = some w ∨ OwnName W d w name) :
    Sound W (d'.goTo w .failing) := by
  have hstands := h.stands w
  refine h.goOn hopened (by simp [PublishStage.Opened]) hspares hsequence
    ⟨fun _ => ?_, fun _ => ?_, False.elim, False.elim, by simp, by simp,
      by simp [PublishStage.Publishes]⟩ hentries
  · rw [hsequence, hnext]
    exact hstands.started hopened.1
  · rw [hpart, hsequence]
    exact hstands.hasPartial hw

/-- A call that goes on without a change to the directory. -/
theorem Sound.moveOn (h : Sound W d) (hw : (d.stage w).Opened) (hopened : stage.Opened)
    (hstands : Stands W d w stage) : Sound W (d.goTo w stage) :=
  h.goOn hw hopened (Spares.refl d w) rfl hstands fun _ hname => Or.inl hname

section

variable {n m : ℕ} {answer : LinkAnswer}

theorem LinkAnswer.next_ne : answer.next n ≠ .writing ∧ ∀ m, answer.next n ≠ .linking m := by
  cases answer <;> simp [LinkAnswer.next]

theorem LinkAnswer.opened_next : (answer.next n).Opened := by
  cases answer <;> simp [LinkAnswer.next, PublishStage.Opened]

theorem LinkAnswer.next_eq_counting (h : answer.next n = .counting m) :
    answer = .exists ∧ n = m := by
  cases answer <;> simp [LinkAnswer.next] at h ⊢
  exact h

theorem LinkAnswer.publishes_next (h : (answer.next n).Publishes m) :
    answer = .success ∧ n = m := by
  cases answer <;> simp [LinkAnswer.next, PublishStage.Publishes] at h ⊢
  exact h

/-- **The link of a name**: where it was answered `EEXIST` and the file has several names, the
name is one of them. -/
theorem Sound.after_link (h : Sound W d) {made : Bool} (hw : d.stage w = .linking n)
    (hmade : made → d.entries (d.windowName W w n) = none) (hsuccess : answer = .success → made)
    (hexists : answer = .exists → made ∨ d.entries (d.windowName W w n) ≠ none) :
    Sound W ((if made then d.addLink (d.partialName w) (d.windowName W w n) else d).goTo w
      (answer.next n)) := by
  have hstands := h.stands w
  rw [hw] at hstands
  have hopened : (d.stage w).Opened := by simp [hw, PublishStage.Opened]
  have hfew : ¬(answer.next n = .writing ∨ ∃ m, answer.next n = .linking m) := by
    rintro (h | ⟨m, h⟩)
    · exact LinkAnswer.next_ne.1 h
    · exact LinkAnswer.next_ne.2 m h
  cases made with
  | false =>
    refine h.moveOn hopened LinkAnswer.opened_next (hstands.of_active trivial trivial
      (fun hnext => absurd hnext hfew) ?_ ?_)
    · intro m hm hlinks
      obtain ⟨hanswer, rfl⟩ := LinkAnswer.next_eq_counting hm
      obtain ⟨file, hfile⟩ :=
        Option.ne_none_iff_exists'.mp ((hexists hanswer).resolve_left (by simp))
      rcases hstands.few (Or.inr ⟨n, rfl⟩) with halone | hone
      · rw [hfile, h.eq_of_windowName hopened.1 halone hfile]
      · omega
    · intro m hm
      exact absurd (hsuccess (LinkAnswer.publishes_next hm).1) (by simp)
  | true =>
    have hpart := hstands.active trivial
    have hfree := hmade rfl
    have hne := windowName_ne_partialName hstands trivial n
    rw [if_pos rfl, StoryDirectory.addLink, hpart]
    refine h.goOn hopened LinkAnswer.opened_next ⟨rfl, fun _ _ => rfl, fun _ _ => rfl,
      fun _ _ => rfl, fun _ => le_rfl, fun v hv => (Function.update_of_ne hv _ _).le, ?_⟩ rfl
      ⟨fun _ => hstands.started (by simp), fun _ => hstands.hasPartial trivial, fun _ => ?_,
        fun _ => hstands.written trivial, fun hnext => absurd hnext hfew, ?_, ?_⟩ ?_
    · intro other v hv
      dsimp only
      rw [Function.update_apply]
      split
      · next heq =>
        subst heq
        rw [hfree]
        exact iff_of_false (fun hsome => hv (Option.some.inj hsome).symm) (by simp)
      · rfl
    · exact (Function.update_of_ne hne.symm _ _).trans hpart
    · intro m hm _
      obtain ⟨-, rfl⟩ := LinkAnswer.next_eq_counting hm
      exact Function.update_self _ _ _
    · intro m hm
      obtain ⟨-, rfl⟩ := LinkAnswer.publishes_next hm
      exact Function.update_self _ _ _
    · intro other hother
      dsimp only at hother
      rw [Function.update_apply] at hother
      split at hother
      · next heq => exact Or.inr (Or.inr ⟨n, heq⟩)
      · exact Or.inl hother

/-- The count of the links. -/
theorem Sound.after_count (h : Sound W d) (hw : d.stage w = .counting n) {counted : Bool}
    (hcond : Attributable W d (.count w counted)) :
    Sound W (d.goTo w (if counted ∧ ((d.entries (d.partialName w)).any fun file =>
        1 < d.links file) then .unlinking n
      else if n + 1 < kMaxFilesPerWindow then .linking (n + 1) else .failing)) := by
  have hstands := h.stands w
  rw [hw] at hstands
  have hopened : (d.stage w).Opened := by simp [hw, PublishStage.Opened]
  have hpart := hstands.active trivial
  rw [hpart, Option.any_some]
  split
  · next hseveral =>
    refine h.moveOn hopened (by simp [PublishStage.Opened]) (hstands.of_active trivial trivial
      (by simp) (by simp) fun m hm => ?_)
    obtain rfl : n = m := by simpa [PublishStage.Publishes] using hm
    exact hstands.counting n rfl (of_decide_eq_true hseveral.2)
  · next hfew =>
    have hone : W.Alone (W.process w) ∨ d.links w ≤ 1 := by
      rcases hcond with hcounted | halone | hlinks
      · exact Or.inr (Nat.le_of_not_lt fun hlinks =>
        hfew ⟨hcounted, decide_eq_true hlinks⟩)
      · exact Or.inl halone
      · exact Or.inr (hlinks w hpart)
    split
    · exact h.moveOn hopened (by simp [PublishStage.Opened]) (hstands.of_active trivial trivial
        (fun _ => hone) (by simp) (by simp [PublishStage.Publishes]))
    · exact h.moveOn hopened (by simp [PublishStage.Opened]) (hstands.of_active trivial trivial
        (by simp) (by simp) (by simp [PublishStage.Publishes]))

theorem move_of_own {other : String} {file : Call} (hname : d.entries name = some file)
    (hother : d.entries other = some file) : d.move name other = d := by
  rw [StoryDirectory.move, hname]
  exact if_pos hother

theorem move_of_free {other : String} {file : Call} (hname : d.entries name = some file)
    (hother : d.entries other = none) :
    d.move name other = { d with
      entries := Function.update (Function.update d.entries other (some file)) name none } := by
  rw [StoryDirectory.move, hname]
  dsimp only
  rw [if_neg (by rw [hother]; simp), StoryDirectory.remove, hother]

theorem spares_move_of_free {other : String} (hname : d.entries name = some w)
    (hother : d.entries other = none) : Spares d (d.move name other) w := by
  rw [move_of_free hname hother]
  refine ⟨rfl, fun _ _ => rfl, fun _ _ => rfl, fun _ _ => rfl, fun _ => le_rfl,
    fun _ _ => le_rfl, fun third v hv => ?_⟩
  dsimp only
  rw [Function.update_apply, Function.update_apply]
  split
  · next heq =>
    rw [heq, hname]
    exact iff_of_false (by simp) fun hsome => hv (Option.some.inj hsome).symm
  · split
    · next heq =>
      rw [heq, hother]
      exact iff_of_false (fun hsome => hv (Option.some.inj hsome).symm) (by simp)
    · rfl

theorem entries_move_of_free {other third : String} (hname : d.entries name = some w)
    (hother : d.entries other = none) (hthird : (d.move name other).entries third = some w) :
    d.entries third = some w ∨ third = other := by
  rw [move_of_free hname hother] at hthird
  dsimp only at hthird
  rw [Function.update_apply, Function.update_apply] at hthird
  split at hthird
  · cases hthird
  · split at hthird
    · next heq => exact Or.inr heq
    · exact Or.inl hthird

/-- **The file moves to a name of its own**, and no other file loses one. -/
theorem Sound.after_move (h : Sound W d) (hw : d.stage w = .renaming n)
    (hfree : W.Alone (W.process w) ∨ d.entries (d.windowName W w n) = none)
    (hd' : d' = d.move (d.partialName w) (d.windowName W w n)) :
    d'.entries (d.windowName W w n) = some w ∧ Spares d d' w ∧
      (d'.sequence = d.sequence ∧ d'.nextWindow = d.nextWindow ∧ d'.partialName = d.partialName ∧
        d'.contents = d.contents) ∧
      ∀ name, d'.entries name = some w → d.entries name = some w ∨ OwnName W d w name := by
  have hstands := h.stands w
  rw [hw] at hstands
  have hpart := hstands.active trivial
  rcases h.free_or_own (by simp [hw]) hfree with hnone | hown
  · have hspares := spares_move_of_free hpart hnone
    have hentries := fun third => @entries_move_of_free _ _ d w (d.partialName w) _
      (d.windowName W w n) third hpart hnone
    have heq := move_of_free hpart hnone
    rw [← hd'] at hspares hentries heq
    refine ⟨?_, hspares, ?_, fun third hthird => ?_⟩
    · rw [heq]
      dsimp only
      rw [Function.update_of_ne (windowName_ne_partialName hstands trivial n), Function.update_self]
    · rw [heq]
      exact ⟨rfl, rfl, rfl, rfl⟩
    · exact (hentries third hthird).imp_right fun hname => Or.inr ⟨n, hname⟩
  · rw [hd', move_of_own hpart hown]
    exact ⟨hown, Spares.refl d w, ⟨rfl, rfl, rfl, rfl⟩, fun _ hname => Or.inl hname⟩

/-- The mutex is not part of what a call relies on. -/
theorem Sound.unlock [DecidableEq Process] (h : Sound W (d.goTo w stage)) :
    Sound W ((d.unlock W w).goTo w stage) :=
  ⟨fun v => ⟨(h.stands v).started, (h.stands v).hasPartial, (h.stands v).active,
    (h.stands v).written, (h.stands v).few, (h.stands v).counting, (h.stands v).published⟩,
    h.sequence_inj, h.own⟩

theorem Sound.after_rename (h : Sound W d) (hw : d.stage w = .renaming n) {moved done : Bool}
    (hdone : done → moved)
    (hfree : W.Alone (W.process w) ∨ d.entries (d.windowName W w n) = none) :
    Sound W ((if moved then d.move (d.partialName w) (d.windowName W w n) else d).goTo w
      (if done then .syncing n else .failing)) := by
  have hstands := h.stands w
  have hopened : (d.stage w).Opened := by simp [hw, PublishStage.Opened]
  have hpart : (d.stage w).HasPartial := by
    rw [hw]
    trivial
  cases moved with
  | false =>
    obtain rfl : done = false := by simpa using hdone
    exact h.after_failure hpart hopened (Spares.refl d w) rfl rfl rfl fun _ hname => Or.inl hname
  | true =>
    obtain ⟨hown, hspares, ⟨hsequence, hnext, hname, hcontents⟩, hentries⟩ :=
      h.after_move hw hfree rfl
    rw [if_pos rfl]
    cases done with
    | false =>
      exact h.after_failure hpart hopened hspares (by rw [hsequence]) (by rw [hname]) hnext
        hentries
    | true =>
      refine h.goOn hopened (by simp [PublishStage.Opened]) hspares (by rw [hsequence])
        ⟨fun _ => ?_, False.elim, False.elim, fun _ => ?_, by simp, by simp, fun m hm => ?_⟩
        hentries
      · rw [hsequence, hnext]
        exact hstands.started hopened.1
      · rw [hcontents]
        exact hstands.written (by rw [hw]; trivial)
      · obtain rfl : n = m := by simpa [PublishStage.Publishes] using hm
        exact (congrArg _ (windowName_congr (by rw [hsequence]) n)).trans hown

/-- The partial file's name goes; the window's stays. -/
theorem Sound.after_unlink (h : Sound W d) (hw : (d.stage w).HasPartial)
    (hopened : (d.stage w).Opened) {next : PublishStage} (hnext : next = .returned none ∨
      ∃ n, d.stage w = .unlinking n ∧ next = .syncing n) (removed : Bool) :
    Sound W ((if removed then d.remove (d.partialName w) else d).goTo w next) := by
  have hstands := h.stands w
  obtain ⟨counter, hcounter⟩ := hstands.hasPartial hw
  have hown : ∀ file, d.entries (d.partialName w) = some file → file = w := by
    intro file hfile
    rw [hcounter] at hfile
    exact h.eq_of_partialName hopened.1 hfile
  have hspares : Spares d (if removed then d.remove (d.partialName w) else d) w := by
    split
    · exact spares_remove hown
    · exact Spares.refl d w
  have hentries : ∀ name, (if removed then d.remove (d.partialName w) else d).entries name =
      if removed ∧ name = d.partialName w then none else d.entries name := by
    intro name
    cases removed with
    | false => simp
    | true => simp [entries_remove]
  have hsame : (if removed then d.remove (d.partialName w) else d).sequence = d.sequence ∧
      (if removed then d.remove (d.partialName w) else d).nextWindow = d.nextWindow ∧
      (if removed then d.remove (d.partialName w) else d).contents = d.contents := by
    split <;> simp
  revert hspares hentries hsame
  generalize (if removed then d.remove (d.partialName w) else d) = d'
  rintro hspares hentries ⟨hsequence, hnextWindow, hcontents⟩
  refine h.goOn hopened ?_ hspares (by rw [hsequence]) ⟨fun _ => ?_, ?_, ?_, fun hwritten => ?_, ?_,
    ?_, fun m hm => ?_⟩ fun name hname => ?_
  · rcases hnext with rfl | ⟨n, -, rfl⟩ <;> simp [PublishStage.Opened]
  · rw [hsequence, hnextWindow]
    exact hstands.started hopened.1
  · rcases hnext with rfl | ⟨n, -, rfl⟩ <;> exact False.elim
  · rcases hnext with rfl | ⟨n, -, rfl⟩ <;> exact False.elim
  · rcases hnext with rfl | ⟨n, hn, -⟩
    · exact hwritten.elim
    · rw [hcontents]
      exact hstands.written (by rw [hn]; trivial)
  · rcases hnext with rfl | ⟨n, -, rfl⟩ <;> simp
  · rcases hnext with rfl | ⟨n, -, rfl⟩ <;> simp
  · rcases hnext with rfl | ⟨n, hn, rfl⟩
    · simp [PublishStage.Publishes] at hm
    · obtain rfl : n = m := by simpa [PublishStage.Publishes] using hm
      have hne := windowName_ne_partialName hstands hw n
      rw [StoryDirectory.windowName, hsequence, hentries]
      rw [if_neg fun hremoved => hne hremoved.2]
      exact hstands.published n (by rw [hn]; exact Or.inl rfl)
  · rw [hentries] at hname
    split at hname
    · cases hname
    · exact Or.inl hname

/-- The directories are synced, or the window's name goes again. -/
theorem Sound.after_sync (h : Sound W d) (hw : d.stage w = .syncing n) {synced removed : Bool} :
    Sound W (if synced then d.goTo w (.returned (some n))
      else (if removed then d.remove (d.windowName W w n) else d).goTo w (.returned none)) := by
  have hstands := h.stands w
  have hopened : (d.stage w).Opened := by simp [hw, PublishStage.Opened]
  have hpublished := hstands.published n (by rw [hw]; exact Or.inr (Or.inl rfl))
  split
  · refine h.moveOn hopened (by simp [PublishStage.Opened]) ⟨fun _ => hstands.started hopened.1,
      False.elim, False.elim, fun _ => hstands.written (by rw [hw]; trivial), by simp, by simp,
      fun m hm => ?_⟩
    obtain rfl : n = m := by simpa [PublishStage.Publishes] using hm
    exact hpublished
  · have hstand : ∀ d' : StoryDirectory Process Call, d'.sequence = d.sequence →
        d'.nextWindow = d.nextWindow → Stands W d' w (.returned none) := by
      intro d' hsequence hnext
      refine ⟨fun _ => ?_, False.elim, False.elim, False.elim, by simp, by simp,
        by simp [PublishStage.Publishes]⟩
      rw [hsequence, hnext]
      exact hstands.started hopened.1
    split
    · refine h.goOn hopened (by simp [PublishStage.Opened]) (spares_remove fun file hfile => ?_)
        (by simp) (hstand _ (by simp) (by simp)) fun name hname => ?_
      · rw [hpublished] at hfile
        exact (Option.some.inj hfile).symm
      · rw [entries_remove] at hname
        split at hname
        · cases hname
        · exact Or.inl hname
    · exact h.moveOn hopened (by simp [PublishStage.Opened]) (hstand d rfl rfl)

end

/-- **One step of a call.** -/
theorem Sound.step [DecidableEq Process] {l : PublishLabel Call} (h : Sound W d)
    (hcond : Attributable W d l) (hstep : publishStep W d l = some d') : Sound W d' := by
  cases l with
  | name w directoryCreated =>
    obtain ⟨hw, rfl⟩ := Option.ite_some_none_eq_some.mp hstep
    exact h.after_name hw directoryCreated
  | create w created opened =>
    obtain ⟨⟨hw, hcreated⟩, rfl⟩ := Option.ite_some_none_eq_some.mp hstep
    exact h.after_create hw hcreated
  | write w complete =>
    rw [publishStep] at hstep
    split at hstep
    · next hw =>
      split at hstep
      · rw [(h.stands w).active (by rw [hw]; trivial)] at hstep
        cases hstep
        exact h.after_write hw
      · cases hstep
        exact h.after_failure (by rw [hw]; trivial) (by simp [hw, PublishStage.Opened])
          (Spares.refl d w) rfl rfl rfl fun _ hname => Or.inl hname
    · cases hstep
  | link w made answer =>
    rw [publishStep] at hstep
    split at hstep
    · next n hw =>
      obtain ⟨⟨hmade, hsuccess, hexists⟩, rfl⟩ := Option.ite_some_none_eq_some.mp hstep
      exact h.after_link hw hmade hsuccess hexists
    · cases hstep
  | count w counted =>
    rw [publishStep] at hstep
    split at hstep
    · next n hw =>
      cases hstep
      exact h.after_count hw hcond
    · cases hstep
  | lock w =>
    obtain ⟨⟨hw, -⟩, rfl⟩ := Option.ite_some_none_eq_some.mp hstep
    have hstands := h.stands w
    rw [hw] at hstands
    have hmoved : Sound W (d.goTo w (.probing 0)) := h.moveOn
      (by simp [hw, PublishStage.Opened]) (by simp [PublishStage.Opened])
      (hstands.of_active trivial trivial (by simp) (by simp) (by simp [PublishStage.Publishes]))
    exact ⟨fun v => ⟨(hmoved.stands v).started, (hmoved.stands v).hasPartial,
      (hmoved.stands v).active, (hmoved.stands v).written, (hmoved.stands v).few,
      (hmoved.stands v).counting, (hmoved.stands v).published⟩, hmoved.sequence_inj, hmoved.own⟩
  | probe w answered =>
    rw [publishStep] at hstep
    split at hstep
    · next n hw =>
      have hstands := h.stands w
      rw [hw] at hstands
      have hopened : (d.stage w).Opened := by simp [hw, PublishStage.Opened]
      have hfailed : Sound W (d.goTo w .failing) := h.after_failure (by rw [hw]; trivial) hopened
        (Spares.refl d w) rfl rfl rfl fun _ hname => Or.inl hname
      have hactive : ∀ next : PublishStage, next.Opened → (∀ m, next ≠ .linking m) →
          (∀ m, next ≠ .counting m) → next ≠ .writing → (∀ m, ¬next.Publishes m) →
          Sound W (d.goTo w next) := by
        intro next hnext hlinking hcounting hwriting hpublishes
        refine h.moveOn hopened hnext (hstands.of_active trivial trivial ?_ ?_ ?_)
        · rintro (h | ⟨m, h⟩)
          · exact absurd h hwriting
          · exact absurd h (hlinking m)
        · exact fun m h => absurd h (hcounting m)
        · exact fun m h => absurd h (hpublishes m)
      split at hstep
      · cases hstep
        exact hfailed.unlock
      · split at hstep
        · cases hstep
          exact hactive _ (by simp [PublishStage.Opened]) (by simp) (by simp) (by simp)
            (by simp [PublishStage.Publishes])
        · split at hstep
          · cases hstep
            exact hactive _ (by simp [PublishStage.Opened]) (by simp) (by simp) (by simp)
              (by simp [PublishStage.Publishes])
          · cases hstep
            exact hfailed.unlock
    · cases hstep
  | rename w moved done =>
    rw [publishStep] at hstep
    split at hstep
    · next n hw =>
      obtain ⟨hdone, rfl⟩ := Option.ite_some_none_eq_some.mp hstep
      exact (h.after_rename hw hdone (hcond.imp_right fun hfree => hfree n hw)).unlock
    · cases hstep
  | unlink w removed =>
    rw [publishStep] at hstep
    split at hstep
    · next n hw =>
      cases hstep
      exact h.after_unlink (by rw [hw]; trivial) (by simp [hw, PublishStage.Opened])
        (Or.inr ⟨n, hw, rfl⟩) removed
    · next hw =>
      cases hstep
      exact h.after_unlink (by rw [hw]; trivial) (by simp [hw, PublishStage.Opened]) (Or.inl rfl)
        removed
    · cases hstep
  | sync w synced removed =>
    rw [publishStep] at hstep
    split at hstep
    · next n hw =>
      have hsynced := @Sound.after_sync _ _ W d w _ n h hw synced removed
      split at hstep
      · next htrue =>
        cases hstep
        rwa [if_pos htrue] at hsynced
      · next hfalse =>
        cases hstep
        rwa [if_neg hfalse] at hsynced
    · cases hstep

/-- Nothing is there before the first call. -/
theorem sound_initial [DecidableEq Process] (h : (publication W).Initial d) : Sound W d := by
  obtain ⟨nextWindow, nextPartial, rfl⟩ := h
  exact ⟨fun w => ⟨fun hstage => absurd rfl hstage, False.elim, False.elim, False.elim, by simp,
    by simp, by simp [PublishStage.Publishes]⟩, fun v w hv => absurd rfl hv, by simp⟩

omit [DecidableEq Call] in
theorem Sound.ownFiles (h : Sound W d) : OwnFiles W d := by
  have hentry : ∀ w n, (d.stage w).Publishes n → d.entries (d.windowName W w n) = some w :=
    fun w n hw => (h.stands w).published n hw
  refine ⟨fun w n hw => ⟨⟨w, hentry w n hw, (h.stands w).written ?_⟩,
    WindowWriters.suffix_windowName⟩, fun v w n m hv hw heq => ?_⟩
  · rcases hw with hw | hw | hw <;> rw [hw] <;> trivial
  · have hfile := hentry v n hv
    rw [heq, hentry w m hw] at hfile
    exact (Option.some.inj hfile).symm

/-- **A write that returns a size has published its own complete content under a name of its
own, and no step replaces or truncates what a write has published**: in every run whose steps
all meet the condition, of any calls of any processes and with any answers of the file system. -/
theorem published_files [DecidableEq Process] {labels : List (PublishLabel Call)}
    (hinit : (publication W).Initial d)
    (hcond : (publication W).StepsMeet (Attributable W) d labels)
    (hrun : (publication W).run d labels = some d') : OwnFiles W d' :=
  (Transition.System.run_induction_of_stepsMeet (fun _ _ _ h hc hstep => h.step hc hstep)
    (sound_initial hinit) hcond hrun).ownFiles

end

end

/-- A link that was made and answered `EEXIST`. -/
theorem published_files_retried :
    ∃ d, (publication forkedWriters).run {} (upToLink false ++ [.link false true .exists,
      .count false true] ++ fromLink false) = some d ∧ OwnFiles forkedWriters d := by
  have hrun : ((publication forkedWriters).run {} (upToLink false ++ [.link false true .exists,
      .count false true] ++ fromLink false)).isSome = true := by
    decide +kernel
  obtain ⟨d, hd⟩ := Option.isSome_iff_exists.mp hrun
  refine ⟨d, hd, published_files ⟨_, _, rfl⟩ ?_ hd⟩
  exact ⟨trivial, fun _ _ => ⟨trivial, fun _ _ => ⟨trivial, fun _ _ => ⟨trivial, fun _ _ =>
    ⟨Or.inl rfl, fun _ _ => ⟨trivial, fun _ _ => ⟨trivial, fun _ _ => trivial⟩⟩⟩⟩⟩⟩⟩

/-- The first name that both try is linked by the one, answered `EEXIST`, and the count fails;
the other finds it taken and links the second; the first finds the second taken. -/
def siblingRun : List (PublishLabel Bool) :=
  upToLink false ++ [.link false true .exists, .count false false] ++ upToLink true ++
    [.link true false .exists, .count true true, .link true true .success] ++ fromLink true ++
    [.link false false .exists, .count false true] ++ fromLink false

/-- **A write reports the file of another.** -/
theorem sibling_file_published :
    ∃ d, (publication forkedWriters).run {} siblingRun = some d ∧ ¬OwnFiles forkedWriters d := by
  have hrun : ((publication forkedWriters).run {} siblingRun).any (fun d =>
      d.stage false = .returned (some 1) && d.stage true = .returned (some 1) &&
        d.windowName forkedWriters false 1 == d.windowName forkedWriters true 1) = true := by
    decide +kernel
  obtain ⟨d, hd, hstages⟩ := Option.any_eq_true _ _ |>.mp hrun
  simp only [Bool.and_eq_true, decide_eq_true_eq, beq_iff_eq] at hstages
  obtain ⟨⟨hfalse, htrue⟩, hname⟩ := hstages
  refine ⟨d, hd, fun h => ?_⟩
  cases h.2 false true 1 1 (Or.inr (Or.inr hfalse)) (Or.inr (Or.inr htrue)) hname

end ChronoLog.Archive
