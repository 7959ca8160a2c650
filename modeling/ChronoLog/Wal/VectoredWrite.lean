import ChronoLog.Wal.FileSink

/-!
# A write of several pieces at an offset

`pwritev` may write less than it was given and takes a limited number of buffers, so the
sink calls it until nothing is left, trimming what was written (`WalFileSink.cpp`).

A call takes what the system answers from a list, which may end before the write has
returned.  What a call writes is a prefix of what it is given, as far as the greatest file
offset; the error numbers the log does not tell apart are one.

## Main definitions

* `PwritevAnswer`, `pwritev` — a system call and its answer.
* `advance` — the pieces that are left after a short write.
* `writeAllAt` — the loop, with the calls that wrote something.
* `Consecutive` — the calls write one after another.

## Main results

* `flatten_advance` — the pieces that are left are what was not written.
* `writeAllAt_sound` — **the calls write the pieces at consecutive offsets, all of them where
  the loop returns zero, and it returns unless it is interrupted for ever.**
-/

namespace ChronoLog

namespace Wal

/-- `IOV_MAX`. -/
def IOV_MAX : ℕ := 1024

/-- What the system answers. -/
inductive PwritevAnswer where
  /-- At most that many bytes are written. -/
  | wrote (bytes : ℕ)
  /-- `EINTR`. -/
  | interrupted
  | failed (err : Errno)
  deriving DecidableEq

/-- What is left between an offset and the greatest `off_t`. -/
def roomAt (offset : UInt64) : ℕ := 2 ^ 63 - 1 - offset.toNat

/-- `pwritev`: how many bytes of the buffers it writes.  It fails where the offset, read as a
signed number, is negative, and where there is no room. -/
def pwritev (buffers : List Bytes) (offset : UInt64) : PwritevAnswer → Except PwritevAnswer ℕ
  | .wrote bytes =>
    if 2 ^ 63 ≤ offset.toNat then .error (.failed .EINVAL)
    else if roomAt offset = 0 then .error (.failed .failed)
    else .ok (min bytes (min buffers.flatten.length (roomAt offset)))
  | answer => .error answer

/-- The pieces after `left` bytes of them. -/
def advance : ℕ → List Bytes → List Bytes
  | 0, rest => rest
  | _ + 1, [] => []
  | left + 1, piece :: rest =>
    if piece.length ≤ left + 1 then advance (left + 1 - piece.length) rest
    else piece.drop (left + 1) :: rest

/-- How far a write has come: it waits for the system, or it has returned an error or zero. -/
inductive WriteOutcome where
  | waiting
  | returned (err : Option Errno)
  deriving DecidableEq

/-- A write: its outcome, the content of the file and the calls that wrote something. -/
structure WriteRun where
  outcome : WriteOutcome
  content : Bytes
  calls : List (UInt64 × Bytes) := []

/-- The loop of `writeAllAt`. -/
def writeRest (content : Bytes) (rest : List Bytes) (offset : UInt64) :
    List PwritevAnswer → WriteRun
  | [] =>
    match rest.dropWhile List.isEmpty with
    | [] => ⟨.returned none, content, []⟩
    | _ :: _ => ⟨.waiting, content, []⟩
  | answer :: answers =>
    match rest.dropWhile List.isEmpty with
    | [] => ⟨.returned none, content, []⟩
    | piece :: rest =>
      let buffers := (piece :: rest).take IOV_MAX
      match pwritev buffers offset answer with
      | .error .interrupted => writeRest content (piece :: rest) offset answers
      | .error (.failed err) => ⟨.returned (some err), content, []⟩
      | .error (.wrote _) => ⟨.returned (some .failed), content, []⟩
      | .ok 0 => ⟨.returned (some .failed), content, []⟩
      | .ok (written + 1) =>
        let data := buffers.flatten.take (written + 1)
        let run := writeRest (Disk.overwrite content offset.toNat data)
          (advance (written + 1) (piece :: rest)) (offset + UInt64.ofNat (written + 1)) answers
        { run with calls := (offset, data) :: run.calls }

/-- `writeAllAt`. -/
def writeAllAt (content : Bytes) (offset : UInt64) (iov : List Bytes) (iovcnt : ℤ)
    (answers : List PwritevAnswer) : WriteRun :=
  if iovcnt < 0 then ⟨.returned (some .EINVAL), content, []⟩
  else writeRest content (iov.take iovcnt.toNat) offset answers

/-- The calls write one after another from the offset on. -/
def Consecutive (offset : ℕ) : List (UInt64 × Bytes) → Prop
  | [] => True
  | call :: calls => call.1.toNat = offset ∧ Consecutive (offset + call.2.length) calls

/-! ### The pieces that are left -/

/-- **The pieces that are left are what was not written.** -/
theorem flatten_advance (left : ℕ) (rest : List Bytes) :
    (advance left rest).flatten = rest.flatten.drop left := by
  induction rest generalizing left with
  | nil => cases left <;> simp [advance]
  | cons piece rest ih =>
    cases left with
    | zero => rfl
    | succ left =>
      rw [advance, List.flatten_cons, List.drop_append]
      split
      · next h => rw [ih, List.drop_of_length_le h, List.nil_append]
      · next h =>
        have hinside : left + 1 - piece.length = 0 := by omega
        rw [hinside, List.flatten_cons, List.drop_zero]

theorem flatten_dropWhile_isEmpty (rest : List Bytes) :
    (rest.dropWhile List.isEmpty).flatten = rest.flatten := by
  induction rest with
  | nil => rfl
  | cons piece rest ih =>
    rw [List.dropWhile_cons]
    split
    · next h => rw [ih, List.flatten_cons, List.isEmpty_iff.mp h, List.nil_append]
    · rfl

/-- The first piece that is left is not empty. -/
theorem ne_nil_of_dropWhile {rest rest' : List Bytes} {piece : Bytes}
    (h : rest.dropWhile List.isEmpty = piece :: rest') : piece ≠ [] := by
  intro hnil
  have hhead := List.head?_dropWhile_not List.isEmpty rest
  rw [h] at hhead
  simp [hnil] at hhead

/-! ### What the loop writes -/

/-- Two writes, the second where the first ended, are one. -/
theorem overwrite_overwrite (content : Bytes) (offset : ℕ) (data data' : Bytes) :
    Disk.overwrite (Disk.overwrite content offset data) (offset + data.length) data' =
      Disk.overwrite content offset (data ++ data') := by
  let before := (content ++ List.replicate (offset - content.length) 0).take offset
  have hbefore : before.length = offset := by
    simp only [before, List.length_take, List.length_append, List.length_replicate]
    omega
  have hfirst : Disk.overwrite content offset data =
      (before ++ data) ++ content.drop (offset + data.length) := rfl
  have hlen : (before ++ data).length = offset + data.length := by
    rw [List.length_append, hbefore]
  -- the first write left no gap before the second
  have hgap : offset + data.length -
      ((before ++ data) ++ content.drop (offset + data.length)).length = 0 := by
    rw [List.length_append, hlen]
    omega
  rw [hfirst]
  conv_lhs => rw [Disk.overwrite, hgap, List.replicate_zero, List.append_nil]
  rw [← hlen, List.take_left, List.drop_append, List.drop_of_length_le (by omega),
    List.nil_append, Nat.add_sub_cancel_left, List.drop_drop]
  simp only [Disk.overwrite, List.append_assoc, List.length_append, hlen, before]
  simp only [Nat.add_assoc]

/-- The bytes the calls wrote. -/
def WriteRun.written (run : WriteRun) : Bytes := (run.calls.map Prod.snd).flatten

/-- What holds of every write of `bytes`, whatever the system answered. -/
structure WriteRun.Sound (content : Bytes) (offset : UInt64) (bytes : Bytes)
    (answers : List PwritevAnswer) (run : WriteRun) : Prop where
  consecutive : Consecutive offset.toNat run.calls
  /-- No byte is skipped or repeated. -/
  takes : ∃ n, run.written = bytes.take n
  content_eq : run.content =
    if run.written = [] then content else Disk.overwrite content offset.toNat run.written
  complete : run.outcome = .returned none → run.written = bytes
  /-- The loop waits for the system only while it was answered less often than there are
  bytes. -/
  progress : run.outcome = .waiting →
    (answers.filter fun answer => answer ≠ .interrupted).length < bytes.length

/-- A run that ends without a call. -/
theorem WriteRun.Sound.of_no_calls {content bytes : Bytes} {offset : UInt64}
    {answers : List PwritevAnswer} {outcome : WriteOutcome}
    (hcomplete : outcome = .returned none → bytes = [])
    (hprogress : outcome = .waiting →
      (answers.filter fun answer => answer ≠ .interrupted).length < bytes.length) :
    WriteRun.Sound content offset bytes answers ⟨outcome, content, []⟩ where
  consecutive := trivial
  takes := ⟨0, by simp [WriteRun.written]⟩
  content_eq := by simp [WriteRun.written]
  complete := by
    intro h
    simp [WriteRun.written, hcomplete h]
  progress := hprogress

/-- A system call that wrote something, and the rest of the loop. -/
theorem WriteRun.Sound.cons {content bytes data : Bytes} {offset next : UInt64}
    {answer : PwritevAnswer} {answers : List PwritevAnswer} {run : WriteRun} {n : ℕ}
    (hdata : data = bytes.take n) (hlen : data.length = n) (hn : 0 < n)
    (hnext : next.toNat = offset.toNat + n)
    (h : WriteRun.Sound (Disk.overwrite content offset.toNat data) next (bytes.drop n)
      answers run) :
    WriteRun.Sound content offset bytes (answer :: answers)
      { run with calls := (offset, data) :: run.calls } := by
  have hwritten : WriteRun.written { run with calls := (offset, data) :: run.calls } =
      data ++ run.written := rfl
  have hne : data ≠ [] := by
    intro hnil
    rw [hnil, List.length_nil] at hlen
    omega
  constructor
  · refine ⟨rfl, ?_⟩
    rw [hlen, ← hnext]
    exact h.consecutive
  · obtain ⟨m, hm⟩ := h.takes
    refine ⟨n + m, ?_⟩
    rw [hwritten, hm, hdata, List.take_add]
  · rw [hwritten, if_neg (by simp [hne])]
    show run.content = _
    rw [h.content_eq]
    split
    · next hnil => rw [hnil, List.append_nil]
    · rw [hnext, ← hlen, overwrite_overwrite]
  · intro hreturned
    rw [hwritten, h.complete hreturned, hdata, List.take_append_drop]
  · intro hwaiting
    have hlater := h.progress hwaiting
    rw [List.length_drop] at hlater
    have hle := List.length_filter_le (fun answer => decide (answer ≠ .interrupted)) [answer]
    rw [← List.singleton_append, List.filter_append, List.length_append]
    rw [List.length_singleton] at hle
    omega

/-- A call writes a nonempty part of its buffers, and the offset after it is a file offset. -/
theorem pwritev_ok {buffers : List Bytes} {offset : UInt64} {answer : PwritevAnswer} {n : ℕ}
    (h : pwritev buffers offset answer = .ok n) :
    n ≤ buffers.flatten.length ∧ offset.toNat + n < 2 ^ 63 := by
  cases answer with
  | wrote bytes =>
    simp only [pwritev] at h
    split at h
    · cases h
    · next hoffset =>
      split at h
      · cases h
      · cases h
        unfold roomAt at *
        omega
  | interrupted => cases h
  | failed err => cases h

theorem eq_interrupted_of_pwritev {buffers : List Bytes} {offset : UInt64}
    {answer : PwritevAnswer} (h : pwritev buffers offset answer = .error .interrupted) :
    answer = .interrupted := by
  cases answer with
  | wrote bytes =>
    simp only [pwritev] at h
    split at h
    · cases h
    · split at h <;> cases h
  | interrupted => rfl
  | failed err => cases h

theorem writeRest_sound (content : Bytes) (rest : List Bytes) (offset : UInt64)
    (answers : List PwritevAnswer) :
    (writeRest content rest offset answers).Sound content offset rest.flatten answers := by
  -- the pieces to write are those from the first that is not empty
  induction answers generalizing content rest offset with
  | nil =>
    rw [writeRest, ← flatten_dropWhile_isEmpty]
    split
    · next h => exact .of_no_calls (by simp [h]) nofun
    · next piece rest' h =>
      refine .of_no_calls nofun ?_
      intro _
      simpa [h, List.length_pos_iff] using Or.inl (ne_nil_of_dropWhile h)
  | cons answer answers ih =>
    rw [writeRest, ← flatten_dropWhile_isEmpty]
    split
    · next h => exact .of_no_calls (by simp [h]) nofun
    · next piece rest' h =>
      rw [h]
      dsimp only
      split
      · next hcall =>
        have hrest := ih content (piece :: rest') offset
        rw [eq_interrupted_of_pwritev hcall]
        exact ⟨hrest.consecutive, hrest.takes, hrest.content_eq, hrest.complete, by
          simpa using hrest.progress⟩
      · exact .of_no_calls nofun nofun
      · exact .of_no_calls nofun nofun
      · exact .of_no_calls nofun nofun
      · next written hcall =>
        obtain ⟨hle, hroom⟩ := pwritev_ok hcall
        have hbuffers : (((piece :: rest').take IOV_MAX).flatten).take (written + 1) =
            ((piece :: rest').flatten).take (written + 1) := by
          conv_rhs => rw [← List.take_append_drop IOV_MAX (piece :: rest')]
          rw [List.flatten_append, List.take_append_of_le_length hle]
        have hnext : (offset + UInt64.ofNat (written + 1)).toNat =
            offset.toNat + (written + 1) := by
          rw [UInt64.toNat_add, UInt64.toNat_ofNat']
          omega
        have hlen : (((piece :: rest').take IOV_MAX).flatten.take (written + 1)).length =
            written + 1 := by
          rw [List.length_take]
          omega
        apply WriteRun.Sound.cons hbuffers hlen (by omega) hnext
        rw [← flatten_advance]
        exact ih _ _ _

/-- **A vectored write.**  Whatever the system answers, the calls write one after another
from the given offset, and together the first bytes of the pieces: all of them where the
write returns zero.  It returns unless the system interrupts it for ever. -/
theorem writeAllAt_sound (content : Bytes) (offset : UInt64) (iov : List Bytes) (iovcnt : ℤ)
    (answers : List PwritevAnswer) :
    (writeAllAt content offset iov iovcnt answers).Sound content offset
      (iov.take iovcnt.toNat).flatten answers := by
  unfold writeAllAt
  split
  · exact .of_no_calls nofun nofun
  · exact writeRest_sound content _ offset answers

end Wal

end ChronoLog
