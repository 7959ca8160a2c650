import ChronoLog.Wal.EventCodec
import ChronoLog.Wal.Frames

/-!
# The records of a segment

The five kinds of records, what each of them is encoded as and what the decoders accept.
The decoders are given bodies that a scan found, which are not over `kMaxBodyBytes`: among
these they accept what the encoders write and nothing else, but for the event codec, which
does not look at what follows the last extension.

## Main definitions

* `WalRecord` — a record of any kind.
* `WalRecord.encode`, `WalRecord.DecodesTo` — its frame, and the bodies it is read from.
* `Scan` — the loop of `scanSegment`, frame after frame.
* `Tiles` — records that stand one after another.

## Main results

* `scan_iff` — the loop ends on every data, with the result of `scanSegment`.
* `wal_frame_format` — **what is written is scanned and decoded, what is decoded was
  written, and the records of a scan tile the data.**
-/

namespace ChronoLog

namespace Wal

/-- A record of any kind. -/
inductive WalRecord where
  | Header (header : HeaderRecord)
  | Names (names : NamesRecord)
  | Event (event : LogEvent) (extensions : List EventExtension)
  | Dropped (storyId : StoryId)
  | Group (bytes : ℕ)

namespace WalRecord

/-- The numbers of the record are in range of their types, and a header is of the current
version. -/
def InRange : WalRecord → Prop
  | .Header header => header.formatVersion = kFormatVersion ∧ header.segmentNumber < 2 ^ 64 ∧
      header.createdNs < 2 ^ 64
  | .Group bytes => bytes < 2 ^ 64
  | .Names _ | .Event _ _ | .Dropped _ => True

/-- The body of the record's frame. -/
def body : WalRecord → Option Bytes
  | .Header header => some header.body
  | .Names names => some names.body
  | .Event event extensions => (encodeLogEvent event extensions).map fun parts =>
      RecordType.Event.byte :: parts.bytes
  | .Dropped storyId => some (droppedBody storyId)
  | .Group bytes => some (groupBody bytes)

/-- The bytes written for the record; `none` where its encoder throws. -/
def encode : WalRecord → Option Bytes
  | .Header header => encodeHeader header
  | .Names names => encodeNames names
  | .Event event extensions => (encodeEvent event extensions).map EventFrame.bytes
  | .Dropped storyId => some (encodeDropped storyId)
  | .Group bytes => some (encodeGroup bytes)

/-- The decoder of the record's kind reads the record from the body. -/
def DecodesTo : WalRecord → Bytes → Prop
  | .Header header, body => decodeHeader body = (kFormatVersion, some header)
  | .Names names, body => decodeNames body = some names
  | .Event event extensions, body => ∃ rest, takeType .Event body = some rest ∧
      decodeLogEvent rest = .ok (event, extensions)
  | .Dropped storyId, body => decodeDropped body = some storyId
  | .Group bytes, body => decodeGroup body = some bytes

/-! ### The frame of a record -/

theorem finish_eq_some {body bytes : Bytes} :
    finish body = some bytes ↔ body.length ≤ kMaxBodyBytes ∧ bytes = frame body := by
  rw [finish]
  split
  · next h => simp only [reduceCtorEq, false_iff, not_and]; omega
  · next h =>
    rw [Option.some.injEq, eq_comm]
    exact (and_iff_right (by omega)).symm

theorem encodeEvent_eq_some_iff {event : LogEvent} {extensions : List EventExtension}
    {bytes : Bytes} :
    (encodeEvent event extensions).map EventFrame.bytes = some bytes ↔
      ∃ parts, encodeLogEvent event extensions = some parts ∧
        (RecordType.Event.byte :: parts.bytes).length ≤ kMaxBodyBytes ∧
        bytes = frame (RecordType.Event.byte :: parts.bytes) := by
  constructor
  · intro h
    obtain ⟨eventFrame, hframe, rfl⟩ := Option.map_eq_some_iff.mp h
    obtain ⟨parts, hparts, hbytes, hsized⟩ := eventFrame_bytes hframe
    exact ⟨parts, hparts, hsized.le, hbytes⟩
  · rintro ⟨parts, hparts, hle, rfl⟩
    -- the encoder does not throw, and its pieces are the frame of the body
    obtain ⟨eventFrame, hframe⟩ : ∃ eventFrame, encodeEvent event extensions = some eventFrame := by
      have hsize : ¬1 + parts.head.length + parts.record.length + parts.tail.length >
          kMaxBodyBytes := by
        simp only [EncodedEventParts.bytes, List.length_cons, List.length_append] at hle
        omega
      simp only [encodeEvent, hparts, Option.bind_eq_bind, Option.bind_some, if_neg hsize]
      exact ⟨_, rfl⟩
    obtain ⟨parts', hparts', hbytes, -⟩ := eventFrame_bytes hframe
    rw [hparts, Option.some.injEq] at hparts'
    rw [hframe, Option.map_some, hbytes, ← hparts']
    rfl

/-- A record is written as the frame of its body, where the body is not over the limit. -/
theorem encode_eq_some_iff {record : WalRecord} {bytes : Bytes} :
    record.encode = some bytes ↔
      ∃ body, record.body = some body ∧ body.length ≤ kMaxBodyBytes ∧ bytes = frame body := by
  have hnine : 9 ≤ kMaxBodyBytes := by decide
  cases record with
  | Header header => simp [encode, body, encodeHeader, finish_eq_some]
  | Names names => simp [encode, body, encodeNames, finish_eq_some]
  | Event event extensions =>
    rw [encode, encodeEvent_eq_some_iff]
    simp only [body, Option.map_eq_some_iff]
    constructor
    · rintro ⟨parts, hparts, hle, hbytes⟩
      exact ⟨_, ⟨parts, hparts, rfl⟩, hle, hbytes⟩
    · rintro ⟨-, ⟨parts, hparts, rfl⟩, hle, hbytes⟩
      exact ⟨parts, hparts, hle, hbytes⟩
  | Dropped storyId =>
    have hlength : (droppedBody storyId).length = 9 := by simp [droppedBody]
    simp [encode, body, encodeDropped, hlength, hnine, eq_comm]
  | Group size =>
    have hlength : (groupBody size).length = 9 := by simp [groupBody]
    simp [encode, body, encodeGroup, hlength, hnine, eq_comm]

theorem body_ne_nil {record : WalRecord} {body : Bytes} (h : record.body = some body) :
    0 < body.length := by
  cases record with
  | Event event extensions =>
    obtain ⟨parts, -, rfl⟩ := Option.map_eq_some_iff.mp h
    exact Nat.succ_pos _
  | _ =>
    cases h
    exact Nat.succ_pos _

/-! ### The fields of a body -/

theorem takeField_eq_some_iff {n value : ℕ} {data rest : Bytes} :
    takeField n data = some (value, rest) ↔
      value < 256 ^ n ∧ data = putLittleEndian value n ++ rest := by
  constructor
  · intro h
    rw [takeField] at h
    split at h
    · cases h
    · next hlength =>
      obtain ⟨rfl, rfl⟩ := Prod.mk.inj (Option.some.inj h)
      refine ⟨getLittleEndian_take_lt n, ?_⟩
      rw [putLittleEndian_take (by omega), List.take_append_drop]
  · rintro ⟨hvalue, rfl⟩
    exact takeField_putLittleEndian hvalue rest

theorem takeString_eq_some_iff {data value rest : Bytes} :
    takeString data = some (value, rest) ↔
      value.length < 256 ^ 4 ∧ data = putString value ++ rest := by
  constructor
  · intro h
    rw [takeString] at h
    obtain ⟨⟨length, rest'⟩, hfield, hvalue⟩ := Option.bind_eq_some_iff.mp h
    obtain ⟨hlt, rfl⟩ := takeField_eq_some_iff.mp hfield
    simp only at hvalue
    split at hvalue
    · cases hvalue
    · next hlength =>
      obtain ⟨rfl, rfl⟩ := Prod.mk.inj (Option.some.inj hvalue)
      have htake : (rest'.take length).length = length := by
        rw [List.length_take]
        omega
      refine ⟨by rw [htake]; exact hlt, ?_⟩
      rw [putString, htake, List.append_assoc, List.take_append_drop]
  · rintro ⟨hvalue, rfl⟩
    exact takeString_putString hvalue rest

theorem takeType_eq_some_iff {type : RecordType} {data rest : Bytes} :
    takeType type data = some rest ↔ data = type.byte :: rest := by
  cases data with
  | nil => simp [takeType]
  | cons b data =>
    simp only [takeType, List.cons.injEq]
    split
    · next h => simp [h]
    · next h => simp [h]

theorem ofNat_toNat_of_lt {value : ℕ} (h : value < 256 ^ 8) :
    (UInt64.ofNat value).toNat = value := by
  rw [UInt64.toNat_ofNat']
  exact Nat.mod_eq_of_lt h

theorem decodeDropped_eq_some {body : Bytes} {storyId : StoryId}
    (h : decodeDropped body = some storyId) : body = droppedBody storyId := by
  simp only [decodeDropped, Option.bind_eq_bind, Option.bind_eq_some_iff, Prod.exists] at h
  obtain ⟨rest, htype, value, rest', hfield, h⟩ := h
  obtain ⟨hvalue, rfl⟩ := takeField_eq_some_iff.mp hfield
  split at h
  · next hempty =>
    rw [List.isEmpty_iff.mp hempty, List.append_nil] at htype
    rw [← Option.some.inj h, droppedBody, ofNat_toNat_of_lt hvalue]
    exact takeType_eq_some_iff.mp htype
  · cases h

theorem decodeGroup_eq_some {body : Bytes} {bytes : ℕ} (h : decodeGroup body = some bytes) :
    bytes < 2 ^ 64 ∧ body = groupBody bytes := by
  simp only [decodeGroup, Option.bind_eq_bind, Option.bind_eq_some_iff, Prod.exists] at h
  obtain ⟨rest, htype, value, rest', hfield, h⟩ := h
  obtain ⟨hvalue, rfl⟩ := takeField_eq_some_iff.mp hfield
  split at h
  · next hempty =>
    rw [List.isEmpty_iff.mp hempty, List.append_nil] at htype
    obtain rfl := Option.some.inj h
    exact ⟨hvalue, takeType_eq_some_iff.mp htype⟩
  · cases h

theorem decodeNames_eq_some {body : Bytes} {names : NamesRecord}
    (h : decodeNames body = some names) : body = names.body := by
  simp only [decodeNames, Option.bind_eq_bind, Option.bind_eq_some_iff, Prod.exists] at h
  obtain ⟨rest, htype, value, rest₁, hfield, chronicle, rest₂, hchronicle, story, rest₃, hstory,
    h⟩ := h
  obtain ⟨hvalue, rfl⟩ := takeField_eq_some_iff.mp hfield
  obtain ⟨-, rfl⟩ := takeString_eq_some_iff.mp hchronicle
  obtain ⟨-, rfl⟩ := takeString_eq_some_iff.mp hstory
  split at h
  · next hempty =>
    rw [List.isEmpty_iff.mp hempty, List.append_nil] at htype
    rw [← Option.some.inj h, NamesRecord.body, ofNat_toNat_of_lt hvalue]
    exact takeType_eq_some_iff.mp htype
  · cases h

theorem decodeHeader_eq_some {body : Bytes} {version : ℕ} {header : HeaderRecord}
    (h : decodeHeader body = (version, some header)) :
    header.formatVersion = kFormatVersion ∧ header.segmentNumber < 2 ^ 64 ∧
      header.createdNs < 2 ^ 64 ∧ body = header.body := by
  rw [decodeHeader] at h
  split at h
  · cases h
  next fields htype =>
  split at h
  · cases h
  next hmagic =>
  split at h
  · cases h
  next found rest hfound =>
  split at h
  · cases h
  next hversion =>
  obtain ⟨-, hsome⟩ := Prod.mk.inj h
  simp only [Option.bind_eq_bind, Option.bind_eq_some_iff, Prod.exists] at hsome
  obtain ⟨segment, rest₁, hsegment, created, rest₂, hcreated, endpoint, rest₃, hendpoint,
    hlast⟩ := hsome
  obtain ⟨-, hfields⟩ := takeField_eq_some_iff.mp hfound
  obtain ⟨hsegmentLt, rfl⟩ := takeField_eq_some_iff.mp hsegment
  obtain ⟨hcreatedLt, rfl⟩ := takeField_eq_some_iff.mp hcreated
  obtain ⟨-, rfl⟩ := takeString_eq_some_iff.mp hendpoint
  split at hlast
  · next hempty =>
    obtain rfl := Option.some.inj hlast
    refine ⟨not_not.mp hversion, hsegmentLt, hcreatedLt, ?_⟩
    rw [List.isEmpty_iff.mp hempty, List.append_nil] at hfields
    -- the magic, then the fields after it
    have hmagicEq : fields.take kMagic.length = kMagic := by
      by_contra hne
      exact hmagic (Or.inr hne)
    rw [takeType_eq_some_iff.mp htype, HeaderRecord.body, ← hfields]
    conv_lhs => rw [← List.take_append_drop kMagic.length fields, hmagicEq]
  · cases hlast

/-! ### What a decoder accepts -/

theorem length_putString (value : Bytes) : (putString value).length = 4 + value.length := by
  rw [putString, List.length_append, length_putLittleEndian]

/-- **A decoder reads the body that the encoder made.** -/
theorem decodesTo_body {record : WalRecord} {body : Bytes} (hrange : record.InRange)
    (h : record.body = some body) (hle : body.length ≤ kMaxBodyBytes) : record.DecodesTo body := by
  cases record with
  | Header header =>
    obtain ⟨hversion, hsegment, hcreated⟩ := hrange
    obtain rfl := Option.some.inj h
    refine decodeHeader_body hversion hsegment hcreated ?_
    simp only [HeaderRecord.body, List.length_cons, List.length_append, length_putString,
      kMaxBodyBytes] at hle
    omega
  | Names names =>
    obtain rfl := Option.some.inj h
    simp only [NamesRecord.body, List.length_cons, List.length_append, length_putString,
      kMaxBodyBytes] at hle
    exact decodeNames_body (by omega) (by omega)
  | Event event extensions =>
    obtain ⟨parts, hparts, rfl⟩ := Option.map_eq_some_iff.mp h
    refine ⟨parts.bytes, takeType_byte .Event _, ?_⟩
    have hdec := decodeLogEvent_encodeLogEvent hparts []
    rwa [List.append_nil] at hdec
  | Dropped storyId =>
    obtain rfl := Option.some.inj h
    exact decodeDropped_body storyId
  | Group bytes =>
    obtain rfl := Option.some.inj h
    exact decodeGroup_body hrange

/-- **A decoder accepts the body that the encoder makes of its result**; the event codec
accepts it with more bytes after it too. -/
theorem body_of_decodesTo {record : WalRecord} {body : Bytes} (h : record.DecodesTo body) :
    record.InRange ∧ ∃ start, record.body = some start ∧ start <+: body ∧
      ((∀ event extensions, record ≠ .Event event extensions) → start = body) := by
  cases record with
  | Header header =>
    obtain ⟨hversion, hsegment, hcreated, rfl⟩ := decodeHeader_eq_some h
    exact ⟨⟨hversion, hsegment, hcreated⟩, _, rfl, List.prefix_rfl, fun _ => rfl⟩
  | Names names =>
    obtain rfl := decodeNames_eq_some h
    exact ⟨trivial, _, rfl, List.prefix_rfl, fun _ => rfl⟩
  | Event event extensions =>
    obtain ⟨rest, htype, hdec⟩ := h
    obtain ⟨parts, hparts, hpre⟩ := encode_of_decodeLogEvent hdec
    refine ⟨trivial, RecordType.Event.byte :: parts.bytes, ?_, ?_, fun hne => ?_⟩
    · rw [WalRecord.body, hparts, Option.map_some]
    · rw [takeType_eq_some_iff.mp htype]
      exact (List.prefix_cons_inj _).mpr hpre
    · exact absurd rfl (hne event extensions)
  | Dropped storyId =>
    obtain rfl := decodeDropped_eq_some h
    exact ⟨trivial, _, rfl, List.prefix_rfl, fun _ => rfl⟩
  | Group bytes =>
    obtain ⟨hlt, rfl⟩ := decodeGroup_eq_some h
    exact ⟨hlt, _, rfl, List.prefix_rfl, fun _ => rfl⟩

end WalRecord

/-! ### The loop of the scan -/

/-- The loop of `scanSegment` from an offset on, for the bytes that are left. -/
inductive Scan : ℕ → Bytes → ScanResult → Prop where
  | endOfData {pos : ℕ} {bytes : Bytes} :
    readFrame bytes = .endOfData → Scan pos bytes ⟨[], pos, none⟩
  | bad {pos : ℕ} {bytes : Bytes} {reason : BadFrame} :
    readFrame bytes = .bad reason → Scan pos bytes ⟨[], pos, some reason⟩
  | record {pos : ℕ} {bytes body : Bytes} {rest : ScanResult} :
    readFrame bytes = .record body →
    Scan (pos + (kFrameHeaderBytes + body.length))
      (bytes.drop (kFrameHeaderBytes + body.length)) rest →
    Scan pos bytes { rest with records := ⟨pos, body⟩ :: rest.records }

/-- A frame takes bytes. -/
theorem length_drop_lt {bytes body : Bytes} (h : readFrame bytes = .record body) :
    (bytes.drop (kFrameHeaderBytes + body.length)).length < bytes.length := by
  obtain ⟨-, hbytes⟩ := eq_frame_of_readFrame h
  have htotal := congrArg List.length hbytes
  rw [List.length_append, length_frame, kFrameHeaderBytes] at htotal
  rw [kFrameHeaderBytes]
  omega

theorem scan_scanFrom {fuel pos : ℕ} {bytes : Bytes} (h : bytes.length < fuel) :
    Scan pos bytes (scanFrom fuel pos bytes) := by
  induction fuel generalizing pos bytes with
  | zero => omega
  | succ fuel ih =>
    rw [scanFrom]
    split
    · next hread => exact .endOfData hread
    · next hread => exact .bad hread
    · next body hread =>
      have hless := length_drop_lt hread
      exact .record hread (ih (by omega))

theorem Scan.eq_scanFrom {pos fuel : ℕ} {bytes : Bytes} {result : ScanResult}
    (h : Scan pos bytes result) (hfuel : bytes.length < fuel) :
    result = scanFrom fuel pos bytes := by
  induction h generalizing fuel with
  | endOfData hread =>
    obtain ⟨fuel, rfl⟩ := Nat.exists_eq_succ_of_ne_zero (n := fuel) (by omega)
    rw [scanFrom, hread]
  | bad hread =>
    obtain ⟨fuel, rfl⟩ := Nat.exists_eq_succ_of_ne_zero (n := fuel) (by omega)
    rw [scanFrom, hread]
  | record hread _ ih =>
    obtain ⟨fuel, rfl⟩ := Nat.exists_eq_succ_of_ne_zero (n := fuel) (by omega)
    have hless := length_drop_lt hread
    have hrest := @ih fuel (by omega)
    rw [scanFrom, hread, hrest]

/-- **The loop ends on every data, in one way only.** -/
theorem scan_iff {bytes : Bytes} {result : ScanResult} :
    Scan 0 bytes result ↔ result = scanSegment bytes := by
  constructor
  · intro h
    exact h.eq_scanFrom (Nat.lt_succ_self _)
  · rintro rfl
    exact scan_scanFrom (Nat.lt_succ_self _)

/-! ### The records of a scan -/

/-- The records stand one after another, frame by frame, from one offset to another. -/
def Tiles : ℕ → List ScannedRecord → ℕ → Prop
  | start, [], stop => start = stop
  | start, record :: records, stop =>
    record.offset = start ∧ Tiles (start + (kFrameHeaderBytes + record.body.length)) records stop

theorem tiles_scannedFrom (pos : ℕ) (bodies : List Bytes) :
    Tiles pos (scannedFrom pos bodies) (pos + (framed bodies).length) := by
  induction bodies generalizing pos with
  | nil => rfl
  | cons body bodies ih =>
    refine ⟨rfl, ?_⟩
    have hrest := ih (pos + (kFrameHeaderBytes + body.length))
    rw [Nat.add_assoc pos] at hrest
    rwa [framed_cons, List.length_append, length_frame]

theorem map_body_scannedFrom (pos : ℕ) (bodies : List Bytes) :
    (scannedFrom pos bodies).map ScannedRecord.body = bodies := by
  induction bodies generalizing pos with
  | nil => rfl
  | cons body bodies ih => rw [scannedFrom, List.map_cons, ih]

/-- The frames before the end offset are those of the records, and no other frame follows. -/
theorem scanSegment_spec (bytes : Bytes) :
    Tiles 0 (scanSegment bytes).records (scanSegment bytes).endOffset ∧
      bytes.take (scanSegment bytes).endOffset =
        framed ((scanSegment bytes).records.map ScannedRecord.body) ∧
      (scanSegment bytes).endOffset ≤ bytes.length ∧
      NoFrame (bytes.drop (scanSegment bytes).endOffset) := by
  obtain ⟨bodies, rest, rfl, hsized, hrest⟩ := exists_framed bytes
  have htiles := tiles_scannedFrom 0 bodies
  rw [Nat.zero_add] at htiles
  rw [scanSegment_framed hsized hrest]
  refine ⟨htiles, ?_, ?_, ?_⟩
  · rw [map_body_scannedFrom, List.take_left]
  · simp only [List.length_append]
    omega
  · rwa [List.drop_left]

theorem scanSegment_framed_append {bodies : List Bytes} (hsized : ∀ body ∈ bodies, WellSized body)
    (rest : Bytes) :
    ∃ more, (scanSegment (framed bodies ++ rest)).records.map ScannedRecord.body =
      bodies ++ more := by
  obtain ⟨bodies', rest', rfl, hsized', hrest⟩ := exists_framed rest
  refine ⟨bodies', ?_⟩
  rw [← List.append_assoc, ← framed_append, scanSegment_framed _ hrest, map_body_scannedFrom]
  intro body hbody
  rcases List.mem_append.mp hbody with hbody | hbody
  · exact hsized body hbody
  · exact hsized' body hbody

/-- The bodies of records that are all encoded. -/
theorem exists_bodies {records : List WalRecord} {frames : List Bytes}
    (h : records.map WalRecord.encode = frames.map some) :
    ∃ bodies, records.map WalRecord.body = bodies.map some ∧ frames.flatten = framed bodies ∧
      ∀ body ∈ bodies, WellSized body := by
  induction records generalizing frames with
  | nil =>
    obtain rfl := List.map_eq_nil_iff.mp h.symm
    exact ⟨[], rfl, rfl, by simp⟩
  | cons record records ih =>
    cases frames with
    | nil => cases h
    | cons bytes frames =>
      obtain ⟨hrecord, hrecords⟩ := List.cons.inj h
      obtain ⟨bodies, hbodies, hflatten, hsized⟩ := ih hrecords
      obtain ⟨body, hbody, hle, rfl⟩ := WalRecord.encode_eq_some_iff.mp hrecord
      refine ⟨body :: bodies, ?_, ?_, ?_⟩
      · rw [List.map_cons, List.map_cons, hbody, hbodies]
      · rw [List.flatten_cons, hflatten, framed_cons]
      · rw [List.forall_mem_cons]
        exact ⟨⟨WalRecord.body_ne_nil hbody, hle⟩, hsized⟩

/-- **The format of the log.**  Records that are written are scanned as their bodies, in
order, up to zeros or before whatever else follows; a body reads back as its record; a body
that a frame can hold and that a decoder accepts was made by its encoder, for the event codec
up to bytes after it; and the scan of any data ends, with records that tile the data before
its end. -/
theorem wal_frame_format (records : List WalRecord) (record : WalRecord) (bytes : Bytes) :
    (∀ frames : List Bytes, records.map WalRecord.encode = frames.map some →
      ∃ bodies : List Bytes, records.map WalRecord.body = bodies.map some ∧
        (∀ n, (scanSegment (frames.flatten ++ List.replicate n 0)).records.map
              ScannedRecord.body = bodies ∧
            (scanSegment (frames.flatten ++ List.replicate n 0)).endOffset =
              frames.flatten.length ∧
            (scanSegment (frames.flatten ++ List.replicate n 0)).badFrame = none) ∧
        ∀ rest, ∃ more, (scanSegment (frames.flatten ++ rest)).records.map ScannedRecord.body =
          bodies ++ more) ∧
      (∀ written body, record.InRange → record.encode = some written →
        record.body = some body → written = frame body ∧ record.DecodesTo body) ∧
      (∀ body, body.length ≤ kMaxBodyBytes → record.DecodesTo body →
        ∃ start, record.body = some start ∧ record.encode = some (frame start) ∧
          start <+: body ∧
          ((∀ event extensions, record ≠ .Event event extensions) → start = body)) ∧
      (∀ result, Scan 0 bytes result ↔ result = scanSegment bytes) ∧
      Tiles 0 (scanSegment bytes).records (scanSegment bytes).endOffset ∧
      bytes.take (scanSegment bytes).endOffset =
        framed ((scanSegment bytes).records.map ScannedRecord.body) ∧
      (scanSegment bytes).endOffset ≤ bytes.length := by
  obtain ⟨htiles, htake, hend, -⟩ := scanSegment_spec bytes
  refine ⟨fun frames hframes => ?_, fun written body hrange hencode hbody => ?_,
    fun body hle hdec => ?_, fun result => scan_iff, htiles, htake, hend⟩
  · obtain ⟨bodies, hbodies, hflatten, hsized⟩ := exists_bodies hframes
    refine ⟨bodies, hbodies, fun n => ?_, fun rest => ?_⟩
    · have hzero := allZero_replicate n
      rw [hflatten, scanSegment_framed hsized (noFrame_of_allZero hzero),
        readFrame_of_allZero hzero]
      exact ⟨map_body_scannedFrom 0 bodies, rfl, rfl⟩
    · rw [hflatten]
      exact scanSegment_framed_append hsized rest
  · obtain ⟨body', hbody', hle, rfl⟩ := WalRecord.encode_eq_some_iff.mp hencode
    obtain rfl : body' = body := Option.some.inj (hbody'.symm.trans hbody)
    exact ⟨rfl, WalRecord.decodesTo_body hrange hbody hle⟩
  · obtain ⟨-, start, hstart, hpre, hwhole⟩ := WalRecord.body_of_decodesTo hdec
    refine ⟨start, hstart, ?_, hpre, hwhole⟩
    exact WalRecord.encode_eq_some_iff.mpr ⟨start, hstart, hpre.length_le.trans hle, rfl⟩

/-- No record is written as the frame of a body over the limit. -/
theorem encode_ne_frame {body : Bytes} (h : body.length > kMaxBodyBytes) (record : WalRecord) :
    record.encode ≠ some (frame body) := by
  intro hencode
  obtain ⟨body', -, hle, hframe⟩ := WalRecord.encode_eq_some_iff.mp hencode
  have hlength := congrArg List.length hframe
  rw [length_frame, length_frame] at hlength
  omega

/-- **A decoder accepts a body that no encoder makes**: names of 256 MiB and more, and an event
with a byte after its extensions. -/
theorem decoders_accept_more :
    (∃ names body, WalRecord.DecodesTo (.Names names) body ∧
        ∀ record : WalRecord, record.encode ≠ some (frame body)) ∧
      ∃ event extensions body, WalRecord.DecodesTo (.Event event extensions) body ∧
        body.length ≤ kMaxBodyBytes ∧
        ∀ bytes, WalRecord.encode (.Event event extensions) = some bytes → bytes ≠ frame body := by
  constructor
  · obtain ⟨n, hn⟩ : ∃ n, n = kMaxBodyBytes := ⟨_, rfl⟩
    have hlong : (List.replicate n (0 : UInt8)).length = kMaxBodyBytes := by
      rw [List.length_replicate, hn]
    generalize List.replicate n (0 : UInt8) = chronicle at hlong
    refine ⟨⟨0, chronicle, []⟩, NamesRecord.body ⟨0, chronicle, []⟩, ?_, encode_ne_frame ?_⟩
    · refine decodeNames_body ?_ ?_
      · simp only [hlong, kMaxBodyBytes]
        omega
      · simp only [List.length_nil]
        omega
    · simp only [NamesRecord.body, List.length_cons, List.length_append,
        WalRecord.length_putString, hlong]
      omega
  · obtain ⟨parts, hparts⟩ := @exists_encodeLogEvent ⟨0, 0, 0, 0, [1]⟩ [] (by decide) (by decide)
    have hlength := length_bytes_of_encode hparts
    refine ⟨_, _, RecordType.Event.byte :: (parts.bytes ++ [0]),
      ⟨_, takeType_byte .Event _, decodeLogEvent_encodeLogEvent hparts [0]⟩, ?_,
      fun bytes hbytes heq => ?_⟩
    · rw [List.length_cons, List.length_append, hlength]
      decide
    · obtain ⟨body, hbody, -, rfl⟩ := WalRecord.encode_eq_some_iff.mp hbytes
      rw [WalRecord.body, hparts, Option.map_some, Option.some.injEq] at hbody
      have hsame := congrArg List.length heq
      rw [length_frame, length_frame, ← hbody, List.length_cons, List.length_cons,
        List.length_append, List.length_singleton] at hsame
      omega

end Wal

end ChronoLog
