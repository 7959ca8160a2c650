import ChronoLog.Wal.Format

/-!
# Frames read back

A scan finds exactly the frames that were written, up to the first bytes that are
no frame; what a record encodes decodes to it.

## Main definitions

* `WellSized` — the bodies a frame can hold.
* `framed`, `scannedFrom` — frames one after another, and what a scan makes of them.

## Main results

* `readFrame_frame`, `eq_frame_of_readFrame` — a frame reads back as its body, and
  nothing else reads back as that body.
* `scanSegment_framed` — the scan of frames followed by bytes that are no frame.
* `exists_framed` — every segment is of that form.
-/

namespace ChronoLog

namespace Wal

/-- A body that a frame can hold: not empty and not over the limit. -/
structure WellSized (body : Bytes) : Prop where
  pos : 0 < body.length
  le : body.length ≤ kMaxBodyBytes

theorem length_frame (body : Bytes) : (frame body).length = kFrameHeaderBytes + body.length := by
  simp only [frame, List.length_append, length_putLittleEndian, kFrameHeaderBytes]

theorem crc_lt (body : Bytes) : (crc32cExtend 0 body).toNat < 256 ^ 4 :=
  (crc32cExtend 0 body).toNat_lt

/-- **A frame reads back as its body**, whatever follows it. -/
theorem readFrame_frame {body : Bytes} (h : WellSized body) (rest : Bytes) :
    readFrame (frame body ++ rest) = .record body := by
  have hpos := h.pos
  have hle := h.le
  have hlength : body.length < 256 ^ 4 := by
    simp only [kMaxBodyBytes] at hle
    omega
  have hbytes : (frame body ++ rest).length = 8 + body.length + rest.length := by
    rw [List.length_append, length_frame, kFrameHeaderBytes]
  -- the length, the checksum and the body, each where the reader looks for it
  have hsplit : frame body ++ rest = putLittleEndian body.length 4 ++
      (putLittleEndian (crc32cExtend 0 body).toNat 4 ++ (body ++ rest)) := by
    simp only [frame, List.append_assoc]
  have hsize : getLittleEndian ((frame body ++ rest).take 4) = body.length := by
    rw [hsplit]
    exact getLittleEndian_take hlength _
  have hcrc : getLittleEndian (((frame body ++ rest).drop 4).take 4) =
      (crc32cExtend 0 body).toNat := by
    rw [hsplit, drop_putLittleEndian]
    exact getLittleEndian_take (crc_lt body) _
  have hbody : ((frame body ++ rest).drop kFrameHeaderBytes).take body.length = body := by
    rw [show kFrameHeaderBytes = 4 + 4 from rfl, ← List.drop_drop, hsplit, drop_putLittleEndian,
      drop_putLittleEndian, List.take_left]
  simp only [readFrame, hsize, hcrc, hbody]
  rw [if_neg (by omega), if_neg (by omega), if_neg (by omega), if_neg (by omega),
    if_neg (by rw [kFrameHeaderBytes]; omega), if_neg (by simp)]

/-- **What reads back as a body is its frame.** -/
theorem eq_frame_of_readFrame {bytes body : Bytes} (h : readFrame bytes = .record body) :
    WellSized body ∧ bytes = frame body ++ bytes.drop (kFrameHeaderBytes + body.length) := by
  obtain ⟨size, hsize⟩ : ∃ size, getLittleEndian (bytes.take 4) = size := ⟨_, rfl⟩
  have hfour : ∀ bs : Bytes, bs.length = 4 → putLittleEndian (getLittleEndian bs) 4 = bs := by
    intro bs hbs
    have hput := putLittleEndian_getLittleEndian bs
    rwa [hbs] at hput
  simp only [readFrame, hsize] at h
  split at h
  · cases h
  split at h
  · split at h <;> cases h
  split at h
  · cases h
  split at h
  · cases h
  by_cases hpast : bytes.length < kFrameHeaderBytes + size
  · rw [if_pos hpast] at h
    cases h
  rw [if_neg hpast] at h
  split at h
  · cases h
  rename_i hempty hshort hzero hlong hcrc
  cases h
  rw [kFrameHeaderBytes] at hpast hcrc ⊢
  have hlength : ((bytes.drop 8).take size).length = size := by
    rw [List.length_take, List.length_drop]
    omega
  refine ⟨⟨by rw [hlength]; omega, by rw [hlength]; omega⟩, ?_⟩
  have hput : putLittleEndian ((bytes.drop 8).take size).length 4 = bytes.take 4 := by
    rw [hlength, ← hsize]
    exact hfour _ (by rw [List.length_take]; omega)
  have hstored : putLittleEndian (crc32cExtend 0 ((bytes.drop 8).take size)).toNat 4 =
      (bytes.drop 4).take 4 := by
    rw [← not_not.mp hcrc]
    exact hfour _ (by rw [List.length_take, List.length_drop]; omega)
  rw [frame, hput, hstored, hlength, ← List.drop_drop, List.append_assoc,
    List.append_assoc, List.take_append_drop, show bytes.drop 8 = (bytes.drop 4).drop 4 by
      rw [List.drop_drop], List.take_append_drop, List.take_append_drop]

/-! ### Scans -/

/-- Frames one after another. -/
def framed (bodies : List Bytes) : Bytes := (bodies.map frame).flatten

@[simp] theorem framed_nil : framed [] = [] := rfl

@[simp] theorem framed_cons (body : Bytes) (bodies : List Bytes) :
    framed (body :: bodies) = frame body ++ framed bodies := rfl

@[simp] theorem framed_append (bodies bodies' : List Bytes) :
    framed (bodies ++ bodies') = framed bodies ++ framed bodies' := by
  simp only [framed, List.map_append, List.flatten_append]

/-- What a scan makes of frames from an offset on. -/
def scannedFrom : ℕ → List Bytes → List ScannedRecord
  | _, [] => []
  | pos, body :: bodies =>
    ⟨pos, body⟩ :: scannedFrom (pos + (kFrameHeaderBytes + body.length)) bodies

theorem scannedFrom_append (pos : ℕ) (bodies bodies' : List Bytes) :
    scannedFrom pos (bodies ++ bodies') =
      scannedFrom pos bodies ++ scannedFrom (pos + (framed bodies).length) bodies' := by
  induction bodies generalizing pos with
  | nil => rfl
  | cons body bodies ih =>
    simp only [List.cons_append, scannedFrom, ih, framed_cons, List.length_append, length_frame,
      Nat.add_assoc]

/-- The reason for the end of the data. -/
def FrameRead.reason : FrameRead → Option BadFrame
  | .bad reason => some reason
  | _ => none

/-- The bytes do not start with a frame. -/
def NoFrame (bytes : Bytes) : Prop := ∀ body, readFrame bytes ≠ .record body

theorem noFrame_of_length {bytes : Bytes} (h : bytes.length ≤ kFrameHeaderBytes) :
    NoFrame bytes := by
  intro body hread
  obtain ⟨hsized, hbytes⟩ := eq_frame_of_readFrame hread
  have hlength := congrArg List.length hbytes
  rw [List.length_append, length_frame] at hlength
  have hpos := hsized.pos
  omega

theorem noFrame_of_reason {bytes : Bytes} (h : (readFrame bytes).reason.isSome) :
    NoFrame bytes := by
  intro body hread
  rw [hread] at h
  cases h

theorem scanFrom_framed {bodies : List Bytes} (hsized : ∀ body ∈ bodies, WellSized body)
    {rest : Bytes} (hrest : NoFrame rest) (fuel pos : ℕ) :
    scanFrom (bodies.length + (fuel + 1)) pos (framed bodies ++ rest) =
      ⟨scannedFrom pos bodies, pos + (framed bodies).length, (readFrame rest).reason⟩ := by
  induction bodies generalizing pos with
  | nil =>
    simp only [List.length_nil, framed_nil, List.nil_append, scanFrom]
    split
    · rename_i hread
      simp [hread, FrameRead.reason, scannedFrom]
    · rename_i reason hread
      simp [hread, FrameRead.reason, scannedFrom]
    · rename_i body hread
      exact absurd hread (hrest body)
  | cons body bodies ih =>
    have hbody := hsized body List.mem_cons_self
    rw [List.length_cons, Nat.add_right_comm, scanFrom, framed_cons, List.append_assoc,
      readFrame_frame hbody]
    simp only
    rw [← length_frame, List.drop_left, ih fun b hb => hsized b (List.mem_cons_of_mem _ hb)]
    simp only [scannedFrom, length_frame, List.length_append, Nat.add_assoc]

theorem length_le_framed (bodies : List Bytes) : bodies.length ≤ (framed bodies).length := by
  induction bodies with
  | nil => exact le_rfl
  | cons body bodies ih =>
    simp only [framed_cons, List.length_cons, List.length_append, length_frame,
      kFrameHeaderBytes]
    omega

/-- **The scan of frames and then bytes that are no frame.** -/
theorem scanSegment_framed {bodies : List Bytes} (hsized : ∀ body ∈ bodies, WellSized body)
    {rest : Bytes} (hrest : NoFrame rest) :
    scanSegment (framed bodies ++ rest) =
      ⟨scannedFrom 0 bodies, (framed bodies).length, (readFrame rest).reason⟩ := by
  have hfuel : (framed bodies ++ rest).length + 1 =
      bodies.length + ((framed bodies ++ rest).length - bodies.length + 1) := by
    have hle := length_le_framed bodies
    rw [List.length_append]
    omega
  rw [scanSegment, hfuel, scanFrom_framed hsized hrest, Nat.zero_add]

/-- **Every segment is frames and then bytes that are no frame.** -/
theorem exists_framed (bytes : Bytes) : ∃ bodies rest, bytes = framed bodies ++ rest ∧
    (∀ body ∈ bodies, WellSized body) ∧ NoFrame rest := by
  induction hlength : bytes.length using Nat.strong_induction_on generalizing bytes with
  | _ n ih =>
    rcases hread : readFrame bytes with - | reason | body
    · exact ⟨[], bytes, rfl, by simp, fun body h => by rw [hread] at h; cases h⟩
    · exact ⟨[], bytes, rfl, by simp, fun body h => by rw [hread] at h; cases h⟩
    · obtain ⟨hsized, hbytes⟩ := eq_frame_of_readFrame hread
      have hlt : (bytes.drop (kFrameHeaderBytes + body.length)).length < n := by
        have htotal := congrArg List.length hbytes
        rw [List.length_append, length_frame, kFrameHeaderBytes] at htotal
        rw [kFrameHeaderBytes]
        omega
      obtain ⟨bodies, rest, hrest, hall, hnone⟩ := ih _ hlt _ rfl
      refine ⟨body :: bodies, rest, ?_, ?_, hnone⟩
      · rw [framed_cons, List.append_assoc, ← hrest]
        exact hbytes
      · intro b hb
        rcases List.mem_cons.mp hb with rfl | hb
        · exact hsized
        · exact hall b hb

/-! ### Zeros -/

theorem allZero_iff {bytes : Bytes} : allZero bytes ↔ ∀ b ∈ bytes, b = 0 := by
  simp only [allZero, List.all_eq_true, beq_iff_eq]

theorem getLittleEndian_eq_zero_iff (bs : Bytes) :
    getLittleEndian bs = 0 ↔ ∀ b ∈ bs, b = 0 := by
  induction bs with
  | nil => simp [getLittleEndian]
  | cons b bs ih =>
    have hb : b.toNat = 0 ↔ b = 0 := by
      rw [← UInt8.toNat_inj]
      rfl
    simp only [getLittleEndian, List.mem_cons, forall_eq_or_imp, ← ih, ← hb]
    omega

/-- Zeros are the end of the data. -/
theorem readFrame_of_allZero {bytes : Bytes} (h : allZero bytes) :
    readFrame bytes = .endOfData := by
  have hzero : getLittleEndian (bytes.take 4) = 0 := by
    rw [getLittleEndian_eq_zero_iff]
    exact fun b hb => allZero_iff.mp h b (List.mem_of_mem_take hb)
  simp only [readFrame, hzero, h]
  split
  · rfl
  · split <;> rfl

theorem noFrame_of_allZero {bytes : Bytes} (h : allZero bytes) : NoFrame bytes := by
  intro body hread
  rw [readFrame_of_allZero h] at hread
  cases hread

theorem allZero_replicate (n : ℕ) : allZero (List.replicate n 0) := by
  rw [allZero_iff]
  exact fun b hb => List.eq_of_mem_replicate hb

/-! ### Records -/

theorem takeField_putLittleEndian {value n : ℕ} (h : value < 256 ^ n) (rest : Bytes) :
    takeField n (putLittleEndian value n ++ rest) = some (value, rest) := by
  have hlength : ¬(putLittleEndian value n ++ rest).length < n := by
    rw [List.length_append, length_putLittleEndian]
    omega
  rw [takeField, if_neg hlength, getLittleEndian_take h, drop_putLittleEndian]

theorem takeString_putString {value : Bytes} (h : value.length < 256 ^ 4) (rest : Bytes) :
    takeString (putString value ++ rest) = some (value, rest) := by
  rw [putString, List.append_assoc, takeString]
  simp only [takeField_putLittleEndian h, Option.bind_eq_bind, Option.bind_some, List.take_left,
    List.drop_left]
  rw [if_neg (by rw [List.length_append]; omega)]

theorem takeType_byte (type : RecordType) (rest : Bytes) :
    takeType type (type.byte :: rest) = some rest := by
  rw [takeType, if_pos rfl]

theorem decodeNames_body {names : NamesRecord} (hchronicle : names.chronicle.length < 256 ^ 4)
    (hstory : names.story.length < 256 ^ 4) : decodeNames names.body = some names := by
  have hid : names.storyId.toNat < 256 ^ 8 := names.storyId.toNat_lt
  have hlast := takeString_putString hstory []
  rw [List.append_nil] at hlast
  simp only [decodeNames, NamesRecord.body, takeType_byte, Option.bind_eq_bind, Option.bind_some,
    takeField_putLittleEndian hid, takeString_putString hchronicle, hlast]
  simp

theorem decodeDropped_body (storyId : StoryId) :
    decodeDropped (droppedBody storyId) = some storyId := by
  have hid : storyId.toNat < 256 ^ 8 := storyId.toNat_lt
  have hfield := takeField_putLittleEndian hid []
  rw [List.append_nil] at hfield
  simp only [decodeDropped, droppedBody, takeType_byte, Option.bind_eq_bind, Option.bind_some,
    hfield]
  simp

theorem decodeGroup_body {bytes : ℕ} (h : bytes < 256 ^ 8) :
    decodeGroup (groupBody bytes) = some bytes := by
  have hfield := takeField_putLittleEndian h []
  rw [List.append_nil] at hfield
  simp only [decodeGroup, groupBody, takeType_byte, Option.bind_eq_bind, Option.bind_some, hfield]
  simp

theorem decodeHeader_body {header : HeaderRecord} (hversion : header.formatVersion = kFormatVersion)
    (hsegment : header.segmentNumber < 256 ^ 8) (hcreated : header.createdNs < 256 ^ 8)
    (hendpoint : header.keeperEndpoint.length < 256 ^ 4) :
    decodeHeader header.body = (kFormatVersion, some header) := by
  have hlast := takeString_putString hendpoint []
  rw [List.append_nil] at hlast
  have hformat : header.formatVersion < 256 ^ 2 := by
    rw [hversion]
    decide
  simp only [decodeHeader, HeaderRecord.body, takeType_byte, List.take_left, List.drop_left,
    takeField_putLittleEndian hformat, takeField_putLittleEndian hsegment,
    takeField_putLittleEndian hcreated, hlast, Option.bind_eq_bind, Option.bind_some]
  rw [if_neg (by simp [kMagic]), if_neg (by simp [hversion])]
  simp only [List.isEmpty_nil, if_true, hversion]
  rw [← hversion]

theorem sized_droppedBody (storyId : StoryId) : WellSized (droppedBody storyId) := by
  have hlength : (droppedBody storyId).length = 9 := by
    simp only [droppedBody, List.length_cons, length_putLittleEndian]
  exact ⟨by rw [hlength]; decide, by rw [hlength]; decide⟩

theorem sized_groupBody (bytes : ℕ) : WellSized (groupBody bytes) := by
  have hlength : (groupBody bytes).length = 9 := by
    simp only [groupBody, List.length_cons, length_putLittleEndian]
  exact ⟨by rw [hlength]; decide, by rw [hlength]; decide⟩

/-- An event frame is the frame of its pieces. -/
theorem eventFrame_bytes {event : LogEvent} {extensions : List EventExtension}
    {eventFrame : EventFrame} (h : encodeEvent event extensions = some eventFrame) :
    ∃ parts, encodeLogEvent event extensions = some parts ∧
      eventFrame.bytes =
        frame (RecordType.Event.byte :: (parts.head ++ parts.record ++ parts.tail)) ∧
      WellSized (RecordType.Event.byte :: (parts.head ++ parts.record ++ parts.tail)) := by
  simp only [encodeEvent, Option.bind_eq_bind, Option.bind_eq_some_iff] at h
  obtain ⟨parts, hparts, h⟩ := h
  split at h
  · cases h
  · rename_i hsize
    cases h
    refine ⟨parts, hparts, ?_, ?_⟩
    · have hlength : (RecordType.Event.byte :: (parts.head ++ parts.record ++ parts.tail)).length =
          1 + parts.head.length + parts.record.length + parts.tail.length := by
        simp only [List.length_cons, List.length_append]
        omega
      have hcrc : crc32cExtend 0
          (RecordType.Event.byte :: (parts.head ++ parts.record ++ parts.tail)) =
          crc32cExtend (crc32cExtend (crc32cExtend 0 (RecordType.Event.byte :: parts.head))
            parts.record) parts.tail := by
        rw [← crc32cExtend_append, ← crc32cExtend_append]
        simp only [List.cons_append, List.append_assoc]
      rw [frame, hlength, hcrc]
      simp only [EventFrame.bytes, List.append_assoc]
      rfl
    · refine ⟨Nat.succ_pos _, ?_⟩
      simp only [List.length_cons, List.length_append]
      omega

end Wal

end ChronoLog
