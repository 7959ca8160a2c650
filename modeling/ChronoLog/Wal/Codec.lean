import ChronoLog.Event

/-!
# Bytes of an event

The little-endian integers, the checksum and the event encoding that the records
of the write-ahead log are made of (`Crc32c.cpp`, `LogEventCodec.cpp`).

## Main definitions

* `putLittleEndian`, `getLittleEndian` — integers as bytes, low byte first.
* `crc32cExtend` — CRC-32C, bit by bit over the reflected polynomial.
* `encodeLogEvent`, `decodeLogEvent` — the codec of an event and its extensions.

## Main results

* `getLittleEndian_putLittleEndian` — an integer that fits its bytes reads back.
* `decodeLogEvent_encodeLogEvent` — so does an event, whatever follows it.
-/

namespace ChronoLog

/-- The contents of a file or of a part of one. -/
abbrev Bytes := List UInt8

/-- The low `n` bytes of a value, low byte first. -/
def putLittleEndian (value : ℕ) : ℕ → Bytes
  | 0 => []
  | n + 1 => UInt8.ofNat value :: putLittleEndian (value / 256) n

/-- The value of bytes, low byte first. -/
def getLittleEndian : Bytes → ℕ
  | [] => 0
  | b :: bs => b.toNat + 256 * getLittleEndian bs

@[simp] theorem length_putLittleEndian (value n : ℕ) :
    (putLittleEndian value n).length = n := by
  induction n generalizing value with
  | zero => rfl
  | succ n ih => simp only [putLittleEndian, List.length_cons, ih]

theorem getLittleEndian_putLittleEndian {value n : ℕ} (h : value < 256 ^ n) :
    getLittleEndian (putLittleEndian value n) = value := by
  induction n generalizing value with
  | zero => simp only [Nat.pow_zero, Nat.lt_one_iff] at h; simp [putLittleEndian, getLittleEndian, h]
  | succ n ih =>
    have hdiv : value / 256 < 256 ^ n := Nat.div_lt_of_lt_mul (by rw [Nat.pow_succ] at h; omega)
    simp only [putLittleEndian, getLittleEndian, ih hdiv, UInt8.toNat_ofNat']
    omega

theorem getLittleEndian_lt (bs : Bytes) : getLittleEndian bs < 256 ^ bs.length := by
  induction bs with
  | nil => simp [getLittleEndian]
  | cons b bs ih =>
    have hb : b.toNat < 256 := b.toNat_lt
    simp only [getLittleEndian, List.length_cons, Nat.pow_succ]
    omega

theorem putLittleEndian_getLittleEndian (bs : Bytes) :
    putLittleEndian (getLittleEndian bs) bs.length = bs := by
  induction bs with
  | nil => rfl
  | cons b bs ih =>
    have hb : b.toNat < 256 := b.toNat_lt
    have hlow : UInt8.ofNat (b.toNat + 256 * getLittleEndian bs) = b := by
      apply UInt8.toNat_inj.mp
      rw [UInt8.toNat_ofNat']
      omega
    have hhigh : (b.toNat + 256 * getLittleEndian bs) / 256 = getLittleEndian bs := by omega
    simp only [getLittleEndian, List.length_cons, putLittleEndian, hlow, hhigh, ih]

/-! ### CRC-32C -/

/-- One bit of the reflected remainder. -/
def crcBit (rem : UInt32) : UInt32 :=
  if rem &&& 1 = 1 then (rem >>> 1) ^^^ 0x82F63B78 else rem >>> 1

/-- One byte of the reflected remainder. -/
def crcByte (rem : UInt32) (byte : UInt8) : UInt32 :=
  crcBit (crcBit (crcBit (crcBit (crcBit (crcBit (crcBit (crcBit (rem ^^^ byte.toUInt32))))))))

/-- `crc32c_extend`: the checksum of what `crc` covers followed by `data`. -/
def crc32cExtend (crc : UInt32) (data : Bytes) : UInt32 :=
  data.foldl crcByte (crc ^^^ 0xFFFFFFFF) ^^^ 0xFFFFFFFF

theorem crc32cExtend_append (crc : UInt32) (data data' : Bytes) :
    crc32cExtend crc (data ++ data') = crc32cExtend (crc32cExtend crc data) data' := by
  simp only [crc32cExtend, List.foldl_append, UInt32.xor_assoc, UInt32.xor_self, UInt32.xor_zero]

/-! ### The event codec -/

/-- `kLogEventCodecVersion`. -/
def kLogEventCodecVersion : ℕ := 1

/-- `kMaxEncodedEventBytes`: the largest encoded event. -/
def kMaxEncodedEventBytes : ℕ := 256 * 2 ^ 20

/-- `kHeadBytes`: version, story id, time, client id, index and record length. -/
def kHeadBytes : ℕ := 1 + 8 + 8 + 8 + 4 + 4

/-- `kExtensionCountBytes`. -/
def kExtensionCountBytes : ℕ := 2

/-- `kExtensionHeadBytes`: the tag and the length of an extension. -/
def kExtensionHeadBytes : ℕ := 2 + 4

/-- A tagged field after the record. -/
structure EventExtension where
  tag : UInt16
  value : Bytes
  deriving DecidableEq, Repr

/-- An encoded event in the pieces that are written one after another. -/
structure EncodedEventParts where
  head : Bytes
  record : Bytes
  tail : Bytes

/-- The bytes of an extension. -/
def EventExtension.encode (extension : EventExtension) : Bytes :=
  putLittleEndian extension.tag.toNat 2 ++ putLittleEndian extension.value.length 4 ++
    extension.value

/-- The size of the extensions once `total` bytes are encoded, or `none` when one
of them takes the event over `kMaxEncodedEventBytes`. -/
def extensionsTotal (total : ℕ) : List EventExtension → Option ℕ
  | [] => some total
  | extension :: rest =>
    if total + kExtensionHeadBytes + extension.value.length > kMaxEncodedEventBytes then none
    else extensionsTotal (total + kExtensionHeadBytes + extension.value.length) rest

/-- `encodeLogEvent`: `none` where the source throws `std::length_error`. -/
def encodeLogEvent (event : LogEvent) (extensions : List EventExtension) :
    Option EncodedEventParts :=
  if extensions.length > 65535 then none
  else if kHeadBytes + kExtensionCountBytes + event.logRecord.length > kMaxEncodedEventBytes then
    none
  else
    (extensionsTotal (kHeadBytes + kExtensionCountBytes + event.logRecord.length) extensions).map
      fun _ =>
        { head := putLittleEndian kLogEventCodecVersion 1 ++
            putLittleEndian event.storyId.toNat 8 ++ putLittleEndian event.eventTime.toNat 8 ++
            putLittleEndian event.clientId.toNat 8 ++ putLittleEndian event.eventIndex.toNat 4 ++
            putLittleEndian event.logRecord.length 4
          record := event.logRecord
          tail := putLittleEndian extensions.length 2 ++
            (extensions.map EventExtension.encode).flatten }

/-- The outcome of decoding an event that is not `Ok`. -/
inductive CodecStatus where
  /-- The data ends before a field it declares. -/
  | Truncated
  /-- A declared length takes the event over `kMaxEncodedEventBytes`. -/
  | TooLarge
  /-- The first byte is not `kLogEventCodecVersion`. -/
  | UnsupportedVersion
  deriving DecidableEq, Repr

/-- The extensions at `offset` of the encoding. -/
def decodeExtensions : ℕ → ℕ → Bytes → Except CodecStatus (List EventExtension)
  | 0, _, _ => .ok []
  | count + 1, offset, data =>
    if data.length < kExtensionHeadBytes then .error .Truncated
    else
      let tag := getLittleEndian (data.take 2)
      let valueLength := getLittleEndian ((data.drop 2).take 4)
      let rest := data.drop kExtensionHeadBytes
      if offset + kExtensionHeadBytes + valueLength > kMaxEncodedEventBytes then .error .TooLarge
      else if rest.length < valueLength then .error .Truncated
      else do
        let more ← decodeExtensions count (offset + kExtensionHeadBytes + valueLength)
          (rest.drop valueLength)
        return ⟨UInt16.ofNat tag, rest.take valueLength⟩ :: more

/-- `decodeLogEvent`: one event from the start of the data; bytes after its last
extension are not read. -/
def decodeLogEvent (data : Bytes) : Except CodecStatus (LogEvent × List EventExtension) :=
  match data with
  | [] => .error .Truncated
  | version :: fields =>
    if version.toNat ≠ kLogEventCodecVersion then .error .UnsupportedVersion
    else if fields.length < kHeadBytes - 1 then .error .Truncated
    else
      let storyId := getLittleEndian (fields.take 8)
      let time := getLittleEndian ((fields.drop 8).take 8)
      let clientId := getLittleEndian ((fields.drop 16).take 8)
      let index := getLittleEndian ((fields.drop 24).take 4)
      let recordLength := getLittleEndian ((fields.drop 28).take 4)
      let rest := fields.drop (kHeadBytes - 1)
      if kHeadBytes + recordLength + kExtensionCountBytes > kMaxEncodedEventBytes then
        .error .TooLarge
      else if rest.length < recordLength then .error .Truncated
      else
        let afterRecord := rest.drop recordLength
        if afterRecord.length < kExtensionCountBytes then .error .Truncated
        else do
          let extensions ← decodeExtensions (getLittleEndian (afterRecord.take 2))
            (kHeadBytes + recordLength + kExtensionCountBytes)
            (afterRecord.drop kExtensionCountBytes)
          return (⟨UInt64.ofNat storyId, UInt64.ofNat time, UInt64.ofNat clientId,
            UInt32.ofNat index, rest.take recordLength⟩, extensions)

/-! ### Reading back what was encoded -/

/-- A field at the start of the data reads back. -/
theorem getLittleEndian_take {value n : ℕ} (h : value < 256 ^ n) (rest : Bytes) :
    getLittleEndian ((putLittleEndian value n ++ rest).take n) = value := by
  rw [List.take_left' (length_putLittleEndian value n), getLittleEndian_putLittleEndian h]

theorem drop_putLittleEndian (value n : ℕ) (rest : Bytes) :
    (putLittleEndian value n ++ rest).drop n = rest :=
  List.drop_left' (length_putLittleEndian value n)

theorem extensionsTotal_cons {total final : ℕ} {extension : EventExtension}
    {rest : List EventExtension} (h : extensionsTotal total (extension :: rest) = some final) :
    total + kExtensionHeadBytes + extension.value.length ≤ kMaxEncodedEventBytes ∧
      extensionsTotal (total + kExtensionHeadBytes + extension.value.length) rest =
        some final := by
  rw [extensionsTotal] at h
  split at h
  · cases h
  · exact ⟨by omega, h⟩

theorem decodeExtensions_encode {extensions : List EventExtension} {total final : ℕ}
    (h : extensionsTotal total extensions = some final) (rest : Bytes) :
    decodeExtensions extensions.length total
      ((extensions.map EventExtension.encode).flatten ++ rest) = .ok extensions := by
  induction extensions generalizing total with
  | nil => rfl
  | cons extension more ih =>
    obtain ⟨hfits, hmore⟩ := extensionsTotal_cons h
    have hlength : extension.value.length < 256 ^ 4 := by
      simp only [kExtensionHeadBytes, kMaxEncodedEventBytes] at hfits
      omega
    have htag : extension.tag.toNat < 256 ^ 2 := extension.tag.toNat_lt
    -- the data is the tag, the length, the value and the other extensions
    have hdata : ((extension :: more).map EventExtension.encode).flatten ++ rest =
        putLittleEndian extension.tag.toNat 2 ++ (putLittleEndian extension.value.length 4 ++
          (extension.value ++ ((more.map EventExtension.encode).flatten ++ rest))) := by
      simp only [List.map_cons, List.flatten_cons, EventExtension.encode, List.append_assoc]
    have hdrop : ∀ tail : Bytes, (putLittleEndian extension.tag.toNat 2 ++
        (putLittleEndian extension.value.length 4 ++ tail)).drop kExtensionHeadBytes = tail := by
      intro tail
      rw [← List.append_assoc]
      exact List.drop_left' (by simp [kExtensionHeadBytes])
    rw [hdata, List.length_cons, decodeExtensions]
    simp only [getLittleEndian_take htag, drop_putLittleEndian, getLittleEndian_take hlength,
      hdrop, List.length_append, length_putLittleEndian]
    rw [if_neg (by simp only [kExtensionHeadBytes]; omega), if_neg (by omega),
      if_neg (by omega), List.drop_left, List.take_left, ih hmore]
    simp

theorem encodeLogEvent_eq_some {event : LogEvent} {extensions : List EventExtension}
    {parts : EncodedEventParts} (h : encodeLogEvent event extensions = some parts) :
    extensions.length ≤ 65535 ∧
    kHeadBytes + kExtensionCountBytes + event.logRecord.length ≤ kMaxEncodedEventBytes ∧
    (∃ total, extensionsTotal (kHeadBytes + kExtensionCountBytes + event.logRecord.length)
      extensions = some total) ∧
    parts.head ++ parts.record ++ parts.tail =
      putLittleEndian kLogEventCodecVersion 1 ++ (putLittleEndian event.storyId.toNat 8 ++
      (putLittleEndian event.eventTime.toNat 8 ++ (putLittleEndian event.clientId.toNat 8 ++
      (putLittleEndian event.eventIndex.toNat 4 ++ (putLittleEndian event.logRecord.length 4 ++
      (event.logRecord ++ (putLittleEndian extensions.length 2 ++
      (extensions.map EventExtension.encode).flatten))))))) := by
  simp only [encodeLogEvent] at h
  split at h
  · cases h
  · split at h
    · cases h
    · obtain ⟨total, htotal, rfl⟩ := Option.map_eq_some_iff.mp h
      refine ⟨by omega, by omega, ⟨total, htotal⟩, ?_⟩
      simp only [List.append_assoc]

/-- **An encoded event reads back, whatever follows it.** -/
theorem decodeLogEvent_encodeLogEvent {event : LogEvent} {extensions : List EventExtension}
    {parts : EncodedEventParts} (h : encodeLogEvent event extensions = some parts)
    (rest : Bytes) :
    decodeLogEvent (parts.head ++ parts.record ++ parts.tail ++ rest) =
      .ok (event, extensions) := by
  obtain ⟨hcount, hfits, ⟨total, htotal⟩, hbytes⟩ := encodeLogEvent_eq_some h
  have hrecord : event.logRecord.length < 256 ^ 4 := by
    simp only [kHeadBytes, kExtensionCountBytes, kMaxEncodedEventBytes] at hfits
    omega
  have hstory : event.storyId.toNat < 256 ^ 8 := event.storyId.toNat_lt
  have htime : event.eventTime.toNat < 256 ^ 8 := event.eventTime.toNat_lt
  have hclient : event.clientId.toNat < 256 ^ 8 := event.clientId.toNat_lt
  have hindex : event.eventIndex.toNat < 256 ^ 4 := event.eventIndex.toNat_lt
  have hexts : extensions.length < 256 ^ 2 := by omega
  rw [hbytes]
  simp only [List.append_assoc]
  have hversion : ∀ data : Bytes, putLittleEndian kLogEventCodecVersion 1 ++ data =
      UInt8.ofNat kLogEventCodecVersion :: data := fun data => rfl
  -- each field is found at its offset
  have h16 : ∀ data : Bytes, (putLittleEndian event.storyId.toNat 8 ++
      (putLittleEndian event.eventTime.toNat 8 ++ data)).drop 16 = data := by
    intro data
    rw [← List.append_assoc]
    exact List.drop_left' (by simp)
  have h24 : ∀ data : Bytes, (putLittleEndian event.storyId.toNat 8 ++
      (putLittleEndian event.eventTime.toNat 8 ++
      (putLittleEndian event.clientId.toNat 8 ++ data))).drop 24 = data := by
    intro data
    rw [← List.append_assoc, ← List.append_assoc]
    exact List.drop_left' (by simp)
  have h28 : ∀ data : Bytes, (putLittleEndian event.storyId.toNat 8 ++
      (putLittleEndian event.eventTime.toNat 8 ++ (putLittleEndian event.clientId.toNat 8 ++
      (putLittleEndian event.eventIndex.toNat 4 ++ data)))).drop 28 = data := by
    intro data
    rw [← List.append_assoc, ← List.append_assoc, ← List.append_assoc]
    exact List.drop_left' (by simp)
  have h32 : ∀ data : Bytes, (putLittleEndian event.storyId.toNat 8 ++
      (putLittleEndian event.eventTime.toNat 8 ++ (putLittleEndian event.clientId.toNat 8 ++
      (putLittleEndian event.eventIndex.toNat 4 ++
      (putLittleEndian event.logRecord.length 4 ++ data))))).drop (kHeadBytes - 1) = data := by
    intro data
    rw [← List.append_assoc, ← List.append_assoc, ← List.append_assoc, ← List.append_assoc]
    exact List.drop_left' (by simp [kHeadBytes])
  rw [hversion, decodeLogEvent]
  simp only [getLittleEndian_take hstory, drop_putLittleEndian, getLittleEndian_take htime, h16,
    getLittleEndian_take hclient, h24, getLittleEndian_take hindex, h28,
    getLittleEndian_take hrecord, h32, List.length_append, length_putLittleEndian,
    List.drop_left, List.take_left]
  rw [if_neg (by decide), if_neg (by simp only [kHeadBytes]; omega), if_neg (by omega),
    if_neg (by omega), if_neg (by simp only [kExtensionCountBytes]; omega),
    getLittleEndian_take hexts,
    show kExtensionCountBytes = 2 from rfl, drop_putLittleEndian,
    show kHeadBytes + event.logRecord.length + 2 =
      kHeadBytes + kExtensionCountBytes + event.logRecord.length by
        simp only [kExtensionCountBytes]; omega,
    decodeExtensions_encode htotal]
  simp

end ChronoLog
