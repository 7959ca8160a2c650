import ChronoLog.Pipeline.Timeline

/-!
# Chunks merged into a grapher's timeline

`StoryPipeline::mergeEvents` drains a chunk that a keeper delivered into the windows of the
story's timeline.  A window takes the events of its range that are of its story and have a
record, and the range from the first event taken to the last leaves the chunk, with every
event in between, taken or not.  What is left at the end is discarded, and the merge of the
chunk's receipts is reported only if nothing was.

## Main definitions

* `IncomingChunk` — a chunk as it is received.
* `StoryPipeline.mergeChunk` — `StoryChunk::mergeEvents`, a window taking events of a chunk.
* `StoryPipeline.mergeEvents` — the merge, with the rounds of its loops cut off.
-/

namespace ChronoLog

open OrderedMap

/-- A chunk as it is received: its events in the order of their sequences, under which the
map holds them.  Their times, stories and records may be any. -/
structure IncomingChunk where
  startTime : UInt64
  endTime : UInt64
  logEvents : List LogEvent
  carriedReceipts : OrdSet ℕ
  sorted : logEvents.Pairwise fun a b => compare a.sequence b.sequence = .lt

namespace IncomingChunk

/-- `empty`. -/
def empty (c : IncomingChunk) : Bool := c.logEvents.isEmpty

/-- `firstEventTime`, `0` for an empty chunk. -/
def firstEventTime (c : IncomingChunk) : ℕ := (c.logEvents.head?.map LogEvent.time).getD 0

/-- The chunk with some of its events. -/
def keep (c : IncomingChunk) (kept : LogEvent → Bool) : IncomingChunk :=
  { c with
    logEvents := c.logEvents.filter kept
    sorted := c.sorted.filter kept }

/-- The events from `lower_bound(t)` on. -/
def eventsFrom (c : IncomingChunk) (t : ℕ) : List LogEvent :=
  c.logEvents.dropWhile fun e => e.time < t

/-- `eraseEvents` of two iterators: the events from one to another. -/
def eraseRange (c : IncomingChunk) (first last : LogEvent) : IncomingChunk :=
  c.keep fun e => !((compare first.sequence e.sequence).isLE &&
    (compare e.sequence last.sequence).isLE)

/-- `eraseEvents` of two times, both cut to the chunk's interval.  The end is the first
event above the sequence of the end time, client 0 and index 0. -/
def eraseEvents (c : IncomingChunk) (start stop : ℕ) : IncomingChunk :=
  let range_start := if start < c.startTime.toNat then c.startTime else UInt64.ofNat start
  let range_end := if c.endTime.toNat < stop then c.endTime else UInt64.ofNat stop
  if c.empty || start == 0 || decide (stop ≤ start) || decide (c.endTime.toNat ≤ start) ||
      decide (stop < c.startTime.toNat) then c
  else
    c.keep fun e => !((compare (⟨range_start, 0, 0⟩ : EventSequence) e.sequence).isLE &&
      (compare e.sequence ⟨range_end, 0, 0⟩).isLE)

end IncomingChunk

namespace StoryPipeline

/-- Who a receipt is held by: a window of the timeline or a salvage chunk. -/
inductive Holder where
  | window (startTime : ℕ)
  | salvage (startTime : ℕ)
  deriving DecidableEq, Repr

/-- The calls of the receipt tracker for the story. -/
inductive TrackerCall where
  | holdReceipt (holder : Holder) (receipt : ℕ)
  | receiptMerged (receipt : ℕ)
  deriving DecidableEq, Repr

/-- What is attached to the pipeline. -/
structure Attachments where
  theExtractionQueue : Bool
  theReceiptTracker : Bool

/-- The state of a merge. -/
structure Merge where
  timeline : StoryTimeline
  other : IncomingChunk
  /-- `chunk_to_merge_iter`. -/
  iter : Option ℕ := none
  discarded : Bool := false
  /-- The last append failed. -/
  appendFailed : Bool := false
  /-- The salvage chunks given to the extraction queue. -/
  stashed : List TimelineChunk := []
  calls : List TrackerCall := []

/-- The events of a chunk that a window looks at. -/
def scanned (window : TimelineChunk) (other : IncomingChunk) : List LogEvent :=
  let merge_start :=
    if other.startTime.toNat < window.startTime then window.startTime
    else other.startTime.toNat
  (other.eventsFrom merge_start).takeWhile fun e => e.time < window.endTime

/-- The window after it was offered the events. -/
def offer (window : TimelineChunk) (events : List LogEvent) : TimelineChunk :=
  { window with
    toStoryChunk := events.foldl (fun chunk e => (chunk.insertEvent e).1) window.toStoryChunk }

/-- `StoryChunk::mergeEvents`: the window takes what it can of the chunk's events in its
range, and the range from the first to the last of those leaves the chunk.  The 32-bit count of the
events taken is left out: where it does not wrap, `StoryChunk.mergeEvents` with the count does the
same (`StoryChunk.mergeEvents_eq_mergeChunk`). -/
def mergeChunk (window : TimelineChunk) (other : IncomingChunk) :
    TimelineChunk × IncomingChunk :=
  let merged := (scanned window other).filter fun e => window.toStoryChunk.Accepts e
  (offer window (scanned window other),
    match merged.head?, merged.getLast? with
    | some first_merged, some last_merged => other.eraseRange first_merged last_merged
    | _, _ => other)

/-- The chunk has an event in the holder's range. -/
def hasEventFor (holder : TimelineChunk) (other : IncomingChunk) : Bool :=
  (other.eventsFrom holder.startTime).head?.any fun e => decide (e.time < holder.endTime)

/-- `holdReceipts`: the holder, and the receipts it did not carry before. -/
def holdReceipts (attached : Attachments) (holder : TimelineChunk) (other : IncomingChunk) :
    TimelineChunk × List ℕ :=
  if attached.theReceiptTracker && hasEventFor holder other then
    let held := other.carriedReceipts.toList.filter fun r => !holder.carriedReceipts.contains r
    ({ holder with carriedReceipts := held.foldl (·.insert ·) holder.carriedReceipts }, held)
  else (holder, [])

/-- A window takes events of the chunk, after it was given the chunk's receipts. -/
def mergeInto (attached : Attachments) (s : Merge) : Option Merge :=
  s.iter.bind fun k => s.timeline.storyTimelineMap[k]?.map fun window =>
    let held := holdReceipts attached window s.other
    let merged := mergeChunk held.1 s.other
    { s with
      timeline :=
        { s.timeline with
          storyTimelineMap := s.timeline.storyTimelineMap.insert k merged.1 }
      other := merged.2
      calls := s.calls ++ held.2.map (.holdReceipt (.window k)) }

/-- What is done when no window can be prepended: the events before the timeline go to a
chunk of their own, or are discarded if there is no extraction queue. -/
def salvage (attached : Attachments) (s : Merge) : Merge :=
  let salvage_end := s.timeline.timelineStart
  if attached.theExtractionQueue then
    let salvage_chunk : TimelineChunk :=
      s.timeline.newChunk s.other.startTime.toNat salvage_end
    let held := holdReceipts attached salvage_chunk s.other
    let merged := mergeChunk held.1 s.other
    let left := !merged.2.empty && decide (merged.2.firstEventTime < salvage_end)
    { s with
      other :=
        if left then merged.2.eraseEvents merged.2.firstEventTime salvage_end else merged.2
      discarded := s.discarded || left
      stashed := if merged.1.empty then s.stashed else s.stashed ++ [merged.1]
      calls := s.calls ++ held.2.map (.holdReceipt (.salvage salvage_chunk.startTime))
      iter := firstKey s.timeline.storyTimelineMap }
  else
    { s with
      other := s.other.eraseEvents s.other.firstEventTime salvage_end
      discarded := true
      iter := firstKey s.timeline.storyTimelineMap }

/-- A round of the loop that extends the timeline into the past. -/
def prependRound (attached : Attachments) (s : Merge) : Option Merge :=
  let r := s.timeline.prependStoryChunk
  match r.2 with
  | some k => some { s with timeline := r.1, iter := some k }
  | none => some (salvage attached s)

/-- The first branch: the chunk's first event is before the timeline. -/
def startBefore (rounds : ℕ) (attached : Attachments) (s : Merge) : Option Merge :=
  Loop.run
    (fun s => !s.other.empty && decide (s.other.firstEventTime < s.timeline.timelineStart))
    (prependRound attached) rounds
    { s with timeline := s.timeline.delayedBy s.other.firstEventTime }

/-- The window in which to start, for a first event within the timeline. -/
def startWithin (p : StoryTimeline) (t : ℕ) : Option ℕ :=
  match lowerBound p.storyTimelineMap t with
  | none => prev p.storyTimelineMap none
  | some k =>
    if p.storyTimelineMap[k]?.any fun window => decide (t < window.startTime) then
      if some k = firstKey p.storyTimelineMap then some k else prev p.storyTimelineMap (some k)
    else some k

/-- A round of the loop over the windows there are. -/
def mergeRound (attached : Attachments) (s : Merge) : Option Merge :=
  s.iter.bind fun k => (mergeInto attached s).map fun s =>
    { s with iter := next s.timeline.storyTimelineMap k }

/-- The loop over the windows there are. -/
def mergeExisting (rounds : ℕ) (attached : Attachments) (s : Merge) : Option Merge :=
  Loop.run
    (fun s => s.iter.isSome && !s.other.empty &&
      decide (s.other.firstEventTime < s.timeline.timelineEnd))
    (mergeRound attached) rounds s

/-- A round of the loop that extends the timeline forward. -/
def appendRound (attached : Attachments) (s : Merge) : Option Merge :=
  let r := s.timeline.appendStoryChunk
  let s := { s with timeline := r.1, iter := r.2 }
  if r.2 = none then some { s with appendFailed := true }
  else if s.other.firstEventTime < s.timeline.timelineEnd then mergeInto attached s
  else some s

/-- The loop that extends the timeline forward. -/
def mergeAppended (rounds : ℕ) (attached : Attachments) (s : Merge) : Option Merge :=
  Loop.run
    (fun s => !s.appendFailed && !s.other.empty &&
      decide (s.timeline.timelineEnd ≤ s.other.endTime.toNat))
    (appendRound attached) rounds s

/-- The end of a merge: what is left is discarded, and the receipts are reported merged if
nothing was. -/
def finish (attached : Attachments) (s : Merge) : Merge :=
  let left := !s.other.empty
  let discarded := s.discarded || left
  { s with
    other :=
      if left then s.other.eraseEvents s.other.startTime.toNat s.other.endTime.toNat
      else s.other
    discarded := discarded
    calls :=
      if attached.theReceiptTracker && !discarded then
        s.calls ++ s.other.carriedReceipts.toList.map .receiptMerged
      else s.calls }

/-- The state from which the windows there are take events. -/
def start (rounds : ℕ) (attached : Attachments) (p : StoryTimeline) (other : IncomingChunk) :
    Option Merge :=
  if other.firstEventTime < p.timelineStart then
    startBefore rounds attached { timeline := p, other }
  else if other.firstEventTime < p.timelineEnd then
    some { timeline := p, other, iter := startWithin p other.firstEventTime }
  else some { timeline := p, other }

/-- `mergeEvents`; `none` if a loop takes more rounds or an iterator behind the last window
is followed. -/
def mergeEvents (rounds : ℕ) (attached : Attachments) (p : StoryTimeline)
    (other_chunk : IncomingChunk) : Option Merge :=
  if other_chunk.empty then some { timeline := p, other := other_chunk }
  else do
    let s ← start rounds attached p other_chunk
    let s ← mergeExisting rounds attached s
    let s ← mergeAppended rounds attached s
    return finish attached s

/-- A chunk with one event of story 7. -/
def chunkAt (eventTime : UInt64) : IncomingChunk where
  startTime := eventTime
  endTime := eventTime + 1
  logEvents := [⟨7, eventTime, 1, 0, [1]⟩]
  carriedReceipts := ∅
  sorted := List.pairwise_singleton _ _

end StoryPipeline

end ChronoLog
