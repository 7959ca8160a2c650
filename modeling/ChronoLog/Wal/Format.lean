import ChronoLog.Wal.Codec

/-!
# Records of the write-ahead log

The frames of a segment and the scan that reads them back (`WalFormat.cpp`).  A
frame is the length of its body, the CRC-32C of the body and the body, which
starts with the type of the record.

## Main definitions

* `frame`, `finish` — the frame of a body, and the check of its size.
* `encodeHeader`, `encodeNames`, `encodeDropped`, `encodeGroup`, `encodeEvent`.
* `readFrame`, `scanSegment` — the frame at the start of some bytes, and every
  frame of a segment up to the end of its data.
* `decodeHeader`, `decodeNames`, `decodeDropped`, `decodeGroup`.
-/

namespace ChronoLog

namespace Wal

/-- `kMagic`. -/
def kMagic : Bytes := [0x43, 0x4C, 0x57, 0x41, 0x4C]

/-- `kFormatVersion`. -/
def kFormatVersion : ℕ := 1

/-- `kMaxBodyBytes`: a longer body is corruption. -/
def kMaxBodyBytes : ℕ := 256 * 2 ^ 20

/-- `kFrameHeaderBytes`: the length and the checksum of the body. -/
def kFrameHeaderBytes : ℕ := 8

/-- `kGroupFrameBytes`: the frame of a G record. -/
def kGroupFrameBytes : ℕ := kFrameHeaderBytes + 1 + 8

/-- The types of records. -/
inductive RecordType where
  | Header
  | Names
  | Event
  | Dropped
  | Group
  deriving DecidableEq, Repr

/-- The type byte: the letters H, N, E, D and G. -/
def RecordType.byte : RecordType → UInt8
  | .Header => 0x48
  | .Names => 0x4E
  | .Event => 0x45
  | .Dropped => 0x44
  | .Group => 0x47

/-- `HeaderRecord`. -/
structure HeaderRecord where
  formatVersion : ℕ
  segmentNumber : ℕ
  createdNs : ℕ
  keeperEndpoint : Bytes

/-- `NamesRecord`. -/
structure NamesRecord where
  storyId : StoryId
  chronicle : Bytes
  story : Bytes
  deriving DecidableEq

/-! ### Encoding -/

/-- The frame of a body. -/
def frame (body : Bytes) : Bytes :=
  putLittleEndian body.length 4 ++ putLittleEndian (crc32cExtend 0 body).toNat 4 ++ body

/-- `FrameBuilder::finish`: `none` where the source throws `std::length_error`. -/
def finish (body : Bytes) : Option Bytes :=
  if body.length > kMaxBodyBytes then none else some (frame body)

/-- `FrameBuilder::putString`. -/
def putString (value : Bytes) : Bytes := putLittleEndian value.length 4 ++ value

/-- The body of an H record. -/
def HeaderRecord.body (header : HeaderRecord) : Bytes :=
  RecordType.Header.byte :: (kMagic ++ (putLittleEndian header.formatVersion 2 ++
    (putLittleEndian header.segmentNumber 8 ++ (putLittleEndian header.createdNs 8 ++
      putString header.keeperEndpoint))))

/-- The body of an N record. -/
def NamesRecord.body (names : NamesRecord) : Bytes :=
  RecordType.Names.byte :: (putLittleEndian names.storyId.toNat 8 ++
    (putString names.chronicle ++ putString names.story))

/-- The body of a D record. -/
def droppedBody (storyId : StoryId) : Bytes :=
  RecordType.Dropped.byte :: putLittleEndian storyId.toNat 8

/-- The body of a G record. -/
def groupBody (bytes : ℕ) : Bytes := RecordType.Group.byte :: putLittleEndian bytes 8

/-- `encodeHeader`. -/
def encodeHeader (header : HeaderRecord) : Option Bytes := finish header.body

/-- `encodeNames`. -/
def encodeNames (names : NamesRecord) : Option Bytes := finish names.body

/-- `encodeDropped`: nine bytes of body, never over the limit. -/
def encodeDropped (storyId : StoryId) : Bytes := frame (droppedBody storyId)

/-- `encodeGroup`: nine bytes of body, never over the limit. -/
def encodeGroup (bytes : ℕ) : Bytes := frame (groupBody bytes)

/-- An event frame in the pieces it is written from: the checksum in the frame
header covers the head, the record and the tail. -/
structure EventFrame where
  frameHeader : Bytes
  head : Bytes
  record : Bytes
  tail : Bytes
  deriving DecidableEq

namespace EventFrame

/-- The pieces in the order they are written. -/
def bytes (event : EventFrame) : Bytes :=
  event.frameHeader ++ event.head ++ event.record ++ event.tail

/-- `EventFrame::size`. -/
def size (event : EventFrame) : ℕ :=
  event.frameHeader.length + event.head.length + event.record.length + event.tail.length

@[simp] theorem length_bytes (event : EventFrame) : event.bytes.length = event.size := by
  simp only [bytes, size, List.length_append]

end EventFrame

/-- `encodeEvent`: `none` where the source throws `std::length_error`. -/
def encodeEvent (event : LogEvent) (extensions : List EventExtension) : Option EventFrame := do
  let parts ← encodeLogEvent event extensions
  let bodySize := 1 + parts.head.length + parts.record.length + parts.tail.length
  if bodySize > kMaxBodyBytes then none
  else
    let head := RecordType.Event.byte :: parts.head
    let crc := crc32cExtend (crc32cExtend (crc32cExtend 0 head) parts.record) parts.tail
    some
      { frameHeader := putLittleEndian bodySize 4 ++ putLittleEndian crc.toNat 4
        head := head
        record := parts.record
        tail := parts.tail }

theorem encodeEvent_eq_some {event : LogEvent} {extensions : List EventExtension}
    {eventFrame : EventFrame} (h : encodeEvent event extensions = some eventFrame) :
    ∃ parts, encodeLogEvent event extensions = some parts ∧
      1 + parts.head.length + parts.record.length + parts.tail.length ≤ kMaxBodyBytes ∧
      eventFrame.head = RecordType.Event.byte :: parts.head ∧
      eventFrame.record = parts.record ∧ eventFrame.tail = parts.tail := by
  simp only [encodeEvent, Option.bind_eq_bind, Option.bind_eq_some_iff] at h
  obtain ⟨parts, hparts, h⟩ := h
  split at h
  · cases h
  · cases h
    exact ⟨parts, hparts, by omega, rfl, rfl, rfl⟩

/-- Two events with the same frame are the same event. -/
theorem encodeEvent_inj {event event' : LogEvent} {extensions extensions' : List EventExtension}
    {eventFrame : EventFrame} (h : encodeEvent event extensions = some eventFrame)
    (h' : encodeEvent event' extensions' = some eventFrame) : event = event' := by
  obtain ⟨parts, hparts, -, hhead, hrecord, htail⟩ := encodeEvent_eq_some h
  obtain ⟨parts', hparts', -, hhead', hrecord', htail'⟩ := encodeEvent_eq_some h'
  have hdecode := decodeLogEvent_encodeLogEvent hparts []
  have hdecode' := decodeLogEvent_encodeLogEvent hparts' []
  -- the pieces are the same, so they decode to one event
  have hsame : parts.head = parts'.head := by
    have hcons := hhead.symm.trans hhead'
    exact (List.cons.inj hcons).2
  rw [hsame, ← hrecord, ← htail, hrecord', htail', hdecode'] at hdecode
  cases hdecode
  rfl

/-! ### Scanning -/

/-- Why a frame is bad. -/
inductive BadFrame where
  /-- A frame header cut short by the end of the segment. -/
  | headerCutShort
  /-- A body length over `kMaxBodyBytes`. -/
  | tooLong (bodySize : ℕ)
  /-- A frame that passes the end of the segment. -/
  | pastEnd (frameSize left : ℕ)
  /-- A checksum that does not match the body. -/
  | crcMismatch (stored computed : ℕ)
  deriving DecidableEq, Repr

/-- What stands at a record boundary. -/
inductive FrameRead where
  /-- A zero length or the end of the bytes: the data ends here. -/
  | endOfData
  | bad (reason : BadFrame)
  | record (body : Bytes)
  deriving DecidableEq, Repr

/-- The bytes hold nothing but zeros. -/
def allZero (bytes : Bytes) : Bool := bytes.all (· == 0)

/-- The frame at the start of the bytes. -/
def readFrame (bytes : Bytes) : FrameRead :=
  if bytes.length = 0 then .endOfData
  else if bytes.length < 4 then
    if allZero bytes then .endOfData else .bad .headerCutShort
  else
    let bodySize := getLittleEndian (bytes.take 4)
    if bodySize = 0 then .endOfData
    else if bodySize > kMaxBodyBytes then .bad (.tooLong bodySize)
    else if bytes.length < kFrameHeaderBytes + bodySize then
      .bad (.pastEnd (kFrameHeaderBytes + bodySize) bytes.length)
    else
      let body := (bytes.drop kFrameHeaderBytes).take bodySize
      let stored := getLittleEndian ((bytes.drop 4).take 4)
      let computed := (crc32cExtend 0 body).toNat
      if stored ≠ computed then .bad (.crcMismatch stored computed) else .record body

/-- A record found by the scan: its offset and its whole body. -/
structure ScannedRecord where
  offset : ℕ
  body : Bytes
  deriving DecidableEq, Repr

/-- The raw type byte, which may be one this build does not know. -/
def ScannedRecord.type (record : ScannedRecord) : UInt8 := record.body.headD 0

/-- The outcome of a scan: the whole frames before `endOffset`, and the reason
where the data ends in a bad frame. -/
structure ScanResult where
  records : List ScannedRecord
  endOffset : ℕ
  badFrame : Option BadFrame
  deriving DecidableEq, Repr

/-- The scan from an offset, for at most `fuel` frames. -/
def scanFrom : ℕ → ℕ → Bytes → ScanResult
  | 0, pos, _ => ⟨[], pos, none⟩
  | fuel + 1, pos, bytes =>
    match readFrame bytes with
    | .endOfData => ⟨[], pos, none⟩
    | .bad reason => ⟨[], pos, some reason⟩
    | .record body =>
      let rest := scanFrom fuel (pos + (kFrameHeaderBytes + body.length))
        (bytes.drop (kFrameHeaderBytes + body.length))
      { rest with records := ⟨pos, body⟩ :: rest.records }

/-- `scanSegment`.  Each frame takes bytes of its own, so the segment holds no more
frames than bytes. -/
def scanSegment (bytes : Bytes) : ScanResult := scanFrom (bytes.length + 1) 0 bytes

/-! ### Decoding -/

/-- `BodyReader::take`: a field of `n` bytes and what follows it. -/
def takeField (n : ℕ) (data : Bytes) : Option (ℕ × Bytes) :=
  if data.length < n then none else some (getLittleEndian (data.take n), data.drop n)

/-- `BodyReader::takeString`. -/
def takeString (data : Bytes) : Option (Bytes × Bytes) := do
  let (length, rest) ← takeField 4 data
  if rest.length < length then none else some (rest.take length, rest.drop length)

/-- `BodyReader::takeType`: what follows the type byte. -/
def takeType (type : RecordType) : Bytes → Option Bytes
  | [] => none
  | b :: rest => if b = type.byte then some rest else none

/-- `decodeHeader`: the version found (`0` where the magic does not match), and the
header where this build can read it. -/
def decodeHeader (body : Bytes) : ℕ × Option HeaderRecord :=
  match takeType .Header body with
  | none => (0, none)
  | some fields =>
    if fields.length < kMagic.length ∨ fields.take kMagic.length ≠ kMagic then (0, none)
    else
      match takeField 2 (fields.drop kMagic.length) with
      | none => (0, none)
      | some (version, rest) =>
        if version ≠ kFormatVersion then (version, none)
        else
          (version, do
            let (segmentNumber, rest) ← takeField 8 rest
            let (createdNs, rest) ← takeField 8 rest
            let (keeperEndpoint, rest) ← takeString rest
            if rest.isEmpty then some ⟨version, segmentNumber, createdNs, keeperEndpoint⟩
            else none)

/-- `decodeNames`. -/
def decodeNames (body : Bytes) : Option NamesRecord := do
  let rest ← takeType .Names body
  let (storyId, rest) ← takeField 8 rest
  let (chronicle, rest) ← takeString rest
  let (story, rest) ← takeString rest
  if rest.isEmpty then some ⟨UInt64.ofNat storyId, chronicle, story⟩ else none

/-- `decodeDropped`. -/
def decodeDropped (body : Bytes) : Option StoryId := do
  let rest ← takeType .Dropped body
  let (storyId, rest) ← takeField 8 rest
  if rest.isEmpty then some (UInt64.ofNat storyId) else none

/-- `decodeGroup`. -/
def decodeGroup (body : Bytes) : Option ℕ := do
  let rest ← takeType .Group body
  let (bytes, rest) ← takeField 8 rest
  if rest.isEmpty then some bytes else none

end Wal

end ChronoLog
