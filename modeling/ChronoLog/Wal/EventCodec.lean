import ChronoLog.Lib.PrefixCode
import ChronoLog.Wal.Codec

/-!
# The event codec as a prefix code

The encoder adds up the size of the event field by field, with the extension count in it
from the start; the decoder compares its offset with the same limit at each length it
reads.  Both draw one line, so what is encoded reads back and what reads back is what would
be encoded.

`decodeLogEvent` of `Wal/Codec` says what is decoded.  Here the source's loop over a
`Reader` is modelled too, with the variables that it writes: it never takes bytes past its
input, and it writes to its output on success only.

## Main definitions

* `encodedSize` — the size that the encoder adds up.
* `Decoder`, `decodeLogEventInto` — the decoder with its reader and its output variables.

## Main results

* `lawful_logEventCodec` — the laws of the codec.
* `encodeLogEvent_eq_none_iff` — when the encoder throws.
* `Decoder.run_logEvent` — the loop over the reader and `decodeLogEvent`.
* `log_event_codec` — **the round trip, the converse, the strict parts, the limit and the
  output.**
-/

namespace ChronoLog

/-! ### Fields read back and written again -/

/-- The bytes of a field, from the number that they are read as. -/
theorem putLittleEndian_take {data : Bytes} {n : ℕ} (h : n ≤ data.length) :
    putLittleEndian (getLittleEndian (data.take n)) n = data.take n := by
  have hput := putLittleEndian_getLittleEndian (data.take n)
  rwa [List.length_take, Nat.min_eq_left h] at hput

theorem getLittleEndian_take_lt {data : Bytes} (n : ℕ) :
    getLittleEndian (data.take n) < 256 ^ n :=
  (getLittleEndian_lt _).trans_le (Nat.pow_le_pow_right (by omega) (List.length_take_le n data))

/-! ### The size -/

/-- The bytes of an extension, its head included. -/
def EventExtension.size (extension : EventExtension) : ℕ :=
  kExtensionHeadBytes + extension.value.length

/-- The bytes of extensions. -/
def extensionsSize (extensions : List EventExtension) : ℕ :=
  (extensions.map EventExtension.size).sum

@[simp] theorem extensionsSize_nil : extensionsSize [] = 0 := rfl

@[simp] theorem extensionsSize_cons (extension : EventExtension) (rest : List EventExtension) :
    extensionsSize (extension :: rest) = extension.size + extensionsSize rest := by
  simp only [extensionsSize, List.map_cons, List.sum_cons]

/-- The bytes of an encoded event. -/
def encodedSize (event : LogEvent) (extensions : List EventExtension) : ℕ :=
  kHeadBytes + event.logRecord.length + kExtensionCountBytes + extensionsSize extensions

/-- All of the encoding, in the order in which the pieces are written. -/
def EncodedEventParts.bytes (parts : EncodedEventParts) : Bytes :=
  parts.head ++ parts.record ++ parts.tail

theorem length_encode (extension : EventExtension) : extension.encode.length = extension.size := by
  simp only [EventExtension.encode, EventExtension.size, kExtensionHeadBytes, List.length_append,
    length_putLittleEndian]

theorem length_flatten_encode (extensions : List EventExtension) :
    (extensions.map EventExtension.encode).flatten.length = extensionsSize extensions := by
  simp only [extensionsSize, List.length_flatten, List.map_map]
  exact congrArg List.sum (List.map_congr_left fun extension _ => length_encode extension)

/-- The running total passes the limit where the whole of the extensions does. -/
theorem extensionsTotal_eq (total : ℕ) (extensions : List EventExtension)
    (h : total ≤ kMaxEncodedEventBytes) :
    extensionsTotal total extensions =
      if total + extensionsSize extensions ≤ kMaxEncodedEventBytes then
        some (total + extensionsSize extensions)
      else none := by
  induction extensions generalizing total with
  | nil => rw [extensionsTotal, extensionsSize_nil, Nat.add_zero, if_pos h]
  | cons extension rest ih =>
    rw [extensionsTotal, extensionsSize_cons, EventExtension.size]
    split
    · next hover => rw [if_neg (by omega)]
    · next hfits =>
      rw [ih _ (by omega)]
      simp only [Nat.add_assoc]

/-- **The encoder throws exactly past its two limits.** -/
theorem encodeLogEvent_eq_none_iff (event : LogEvent) (extensions : List EventExtension) :
    encodeLogEvent event extensions = none ↔
      extensions.length > 65535 ∨ encodedSize event extensions > kMaxEncodedEventBytes := by
  rw [encodeLogEvent, encodedSize]
  split
  · next hcount => simp only [hcount, true_or]
  · next hcount =>
    split
    · next hrecord =>
      simp only [true_iff]
      right
      omega
    · next hrecord =>
      rw [Option.map_eq_none_iff, extensionsTotal_eq _ _ (by omega), ite_eq_right_iff]
      simp only [hcount, false_or, reduceCtorEq, imp_false]
      omega

theorem length_bytes_of_encode {event : LogEvent} {extensions : List EventExtension}
    {parts : EncodedEventParts} (h : encodeLogEvent event extensions = some parts) :
    parts.bytes.length = encodedSize event extensions := by
  obtain ⟨-, -, -, hbytes⟩ := encodeLogEvent_eq_some h
  rw [EncodedEventParts.bytes, hbytes, encodedSize]
  simp only [List.length_append, length_putLittleEndian, length_flatten_encode, kHeadBytes,
    kExtensionCountBytes]
  omega

/-- An event within the limits is encoded. -/
theorem exists_encodeLogEvent {event : LogEvent} {extensions : List EventExtension}
    (hcount : extensions.length ≤ 65535)
    (hsize : encodedSize event extensions ≤ kMaxEncodedEventBytes) :
    ∃ parts, encodeLogEvent event extensions = some parts := by
  rw [← Option.ne_none_iff_exists', ne_eq, encodeLogEvent_eq_none_iff]
  omega

/-! ### What is decoded is an encoding -/

theorem map_eq_ok {ε α β : Type*} {f : α → β} {x : Except ε α} {b : β} (h : x.map f = .ok b) :
    ∃ a, x = .ok a ∧ f a = b := by
  cases x with
  | error e => cases h
  | ok a => exact ⟨a, rfl, Except.ok.inj h⟩

/-- One extension read from the start of the data. -/
theorem decodeExtensions_succ {count offset : ℕ} {data : Bytes}
    (hhead : kExtensionHeadBytes ≤ data.length)
    (hlimit : offset + kExtensionHeadBytes + getLittleEndian ((data.drop 2).take 4) ≤
      kMaxEncodedEventBytes)
    (hvalue : getLittleEndian ((data.drop 2).take 4) ≤ (data.drop kExtensionHeadBytes).length) :
    decodeExtensions (count + 1) offset data =
      (decodeExtensions count
        (offset + kExtensionHeadBytes + getLittleEndian ((data.drop 2).take 4))
        ((data.drop kExtensionHeadBytes).drop (getLittleEndian ((data.drop 2).take 4)))).map
        (⟨UInt16.ofNat (getLittleEndian (data.take 2)),
          (data.drop kExtensionHeadBytes).take (getLittleEndian ((data.drop 2).take 4))⟩ :: ·) := by
  rw [decodeExtensions, if_neg (by omega)]
  simp only
  rw [if_neg (by omega), if_neg (by omega)]
  cases decodeExtensions count
    (offset + kExtensionHeadBytes + getLittleEndian ((data.drop 2).take 4))
    ((data.drop kExtensionHeadBytes).drop (getLittleEndian ((data.drop 2).take 4))) <;> rfl

/-- The three ways to read an extension: its head is missing, it passes the limit, its value
is missing, or it is there. -/
theorem decodeExtensions_succ_cases (offset : ℕ) (data : Bytes) :
    (data.length < kExtensionHeadBytes ∧
        ∀ count, decodeExtensions (count + 1) offset data = .error .Truncated) ∨
      (kExtensionHeadBytes ≤ data.length ∧
        offset + kExtensionHeadBytes + getLittleEndian ((data.drop 2).take 4) >
          kMaxEncodedEventBytes ∧
        ∀ count, decodeExtensions (count + 1) offset data = .error .TooLarge) ∨
      (kExtensionHeadBytes ≤ data.length ∧
        offset + kExtensionHeadBytes + getLittleEndian ((data.drop 2).take 4) ≤
          kMaxEncodedEventBytes ∧
        (data.drop kExtensionHeadBytes).length < getLittleEndian ((data.drop 2).take 4) ∧
        ∀ count, decodeExtensions (count + 1) offset data = .error .Truncated) ∨
      (kExtensionHeadBytes ≤ data.length ∧
        offset + kExtensionHeadBytes + getLittleEndian ((data.drop 2).take 4) ≤
          kMaxEncodedEventBytes ∧
        getLittleEndian ((data.drop 2).take 4) ≤ (data.drop kExtensionHeadBytes).length) := by
  by_cases hhead : data.length < kExtensionHeadBytes
  · exact Or.inl ⟨hhead, fun count => by rw [decodeExtensions, if_pos hhead]⟩
  by_cases hlimit : offset + kExtensionHeadBytes + getLittleEndian ((data.drop 2).take 4) >
      kMaxEncodedEventBytes
  · refine Or.inr (Or.inl ⟨by omega, hlimit, fun count => ?_⟩)
    rw [decodeExtensions, if_neg hhead]
    exact if_pos hlimit
  by_cases hvalue : (data.drop kExtensionHeadBytes).length < getLittleEndian ((data.drop 2).take 4)
  · refine Or.inr (Or.inr (Or.inl ⟨by omega, by omega, hvalue, fun count => ?_⟩))
    rw [decodeExtensions, if_neg hhead]
    exact (if_neg hlimit).trans (if_pos hvalue)
  · exact Or.inr (Or.inr (Or.inr ⟨by omega, by omega, by omega⟩))

/-- The bytes of the extension at the start of the data. -/
theorem encode_take {data : Bytes} (hhead : kExtensionHeadBytes ≤ data.length)
    (hvalue : getLittleEndian ((data.drop 2).take 4) ≤ (data.drop kExtensionHeadBytes).length) :
    EventExtension.encode ⟨UInt16.ofNat (getLittleEndian (data.take 2)),
        (data.drop kExtensionHeadBytes).take (getLittleEndian ((data.drop 2).take 4))⟩ ++
      (data.drop kExtensionHeadBytes).drop (getLittleEndian ((data.drop 2).take 4)) = data := by
  rw [kExtensionHeadBytes] at hhead
  have htag : (UInt16.ofNat (getLittleEndian (data.take 2))).toNat =
      getLittleEndian (data.take 2) := by
    rw [UInt16.toNat_ofNat']
    exact Nat.mod_eq_of_lt (getLittleEndian_take_lt 2)
  have hlength : ((data.drop kExtensionHeadBytes).take
      (getLittleEndian ((data.drop 2).take 4))).length =
        getLittleEndian ((data.drop 2).take 4) := by
    rw [List.length_take, Nat.min_eq_left hvalue]
  simp only [EventExtension.encode, htag, hlength]
  rw [putLittleEndian_take (by omega), putLittleEndian_take (by rw [List.length_drop]; omega),
    List.append_assoc, List.take_append_drop, show kExtensionHeadBytes = 2 + 4 from rfl,
    ← List.drop_drop, List.append_assoc, List.take_append_drop, List.take_append_drop]

theorem encode_of_decodeExtensions {count offset : ℕ} {data : Bytes}
    {extensions : List EventExtension} (hoffset : offset ≤ kMaxEncodedEventBytes)
    (h : decodeExtensions count offset data = .ok extensions) :
    extensions.length = count ∧ offset + extensionsSize extensions ≤ kMaxEncodedEventBytes ∧
      (extensions.map EventExtension.encode).flatten <+: data := by
  induction count generalizing offset data extensions with
  | zero =>
    obtain rfl := Except.ok.inj h
    exact ⟨rfl, by simpa using hoffset, List.nil_prefix⟩
  | succ count ih =>
    rcases decodeExtensions_succ_cases offset data with ⟨-, herr⟩ | ⟨-, -, herr⟩ | ⟨-, -, -, herr⟩ |
      ⟨hhead, hlimit, hvalue⟩
    · rw [herr] at h; cases h
    · rw [herr] at h; cases h
    · rw [herr] at h; cases h
    · rw [decodeExtensions_succ hhead hlimit hvalue] at h
      obtain ⟨more, hmore, rfl⟩ := map_eq_ok h
      obtain ⟨hcount, hsize, hpre⟩ := ih hlimit hmore
      refine ⟨by rw [List.length_cons, hcount], ?_, ?_⟩
      · rw [extensionsSize_cons, EventExtension.size, List.length_take, Nat.min_eq_left hvalue]
        omega
      · rw [List.map_cons, List.flatten_cons]
        conv_rhs => rw [← encode_take hhead hvalue]
        exact (List.prefix_append_right_inj _).mpr hpre

/-- A continuation of the data repairs no other failure than a missing end. -/
theorem decodeExtensions_append {count offset : ℕ} {data : Bytes} {e : CodecStatus}
    (h : decodeExtensions count offset data = .error e) (he : e ≠ .Truncated) (rest : Bytes) :
    decodeExtensions count offset (data ++ rest) = .error e := by
  induction count generalizing offset data with
  | zero => cases h
  | succ count ih =>
    -- the head of the first extension is the same in both
    have hsame : kExtensionHeadBytes ≤ data.length →
        ((data ++ rest).drop 2).take 4 = (data.drop 2).take 4 := by
      intro hhead
      rw [kExtensionHeadBytes] at hhead
      rw [List.drop_append_of_le_length (by omega),
        List.take_append_of_le_length (by rw [List.length_drop]; omega)]
    have hlonger : data.length ≤ (data ++ rest).length := by
      rw [List.length_append]
      omega
    rcases decodeExtensions_succ_cases offset data with ⟨-, herr⟩ | ⟨hhead, hover, herr⟩ |
      ⟨-, -, -, herr⟩ | ⟨hhead, hlimit, hvalue⟩
    · rw [herr] at h
      exact absurd (Except.error.inj h).symm he
    · rw [herr] at h
      rw [← hsame hhead] at hover
      rw [decodeExtensions, if_neg (by omega), ← h]
      exact if_pos hover
    · rw [herr] at h
      exact absurd (Except.error.inj h).symm he
    · rw [decodeExtensions_succ hhead hlimit hvalue] at h
      have hdrop : (data ++ rest).drop kExtensionHeadBytes =
          data.drop kExtensionHeadBytes ++ rest := List.drop_append_of_le_length hhead
      have hmore : decodeExtensions count
          (offset + kExtensionHeadBytes + getLittleEndian ((data.drop 2).take 4))
          ((data.drop kExtensionHeadBytes).drop (getLittleEndian ((data.drop 2).take 4))) =
          .error e := by
        cases hdec : decodeExtensions count
          (offset + kExtensionHeadBytes + getLittleEndian ((data.drop 2).take 4))
          ((data.drop kExtensionHeadBytes).drop (getLittleEndian ((data.drop 2).take 4))) with
        | ok more => rw [hdec] at h; cases h
        | error e' => rw [hdec] at h; exact congrArg Except.error (Except.error.inj h)
      rw [decodeExtensions_succ (by omega) (by rw [hsame hhead]; exact hlimit)
        (by rw [hsame hhead, hdrop, List.length_append]; omega), hsame hhead, hdrop,
        List.drop_append_of_le_length hvalue, ih hmore]
      rfl

/-- The record length in the fields after the version. -/
def recordLengthIn (fields : Bytes) : ℕ := getLittleEndian ((fields.drop 28).take 4)

/-- The event in the fields after the version. -/
def eventIn (fields : Bytes) : LogEvent where
  storyId := UInt64.ofNat (getLittleEndian (fields.take 8))
  eventTime := UInt64.ofNat (getLittleEndian ((fields.drop 8).take 8))
  clientId := UInt64.ofNat (getLittleEndian ((fields.drop 16).take 8))
  eventIndex := UInt32.ofNat (getLittleEndian ((fields.drop 24).take 4))
  logRecord := (fields.drop (kHeadBytes - 1)).take (recordLengthIn fields)

/-- What follows the record. -/
def afterRecordIn (fields : Bytes) : Bytes :=
  (fields.drop (kHeadBytes - 1)).drop (recordLengthIn fields)

/-- The record and the extension count are there, and the record is within the limit. -/
structure HasRecord (fields : Bytes) : Prop where
  head : kHeadBytes - 1 ≤ fields.length
  limit : kHeadBytes + recordLengthIn fields + kExtensionCountBytes ≤ kMaxEncodedEventBytes
  record : recordLengthIn fields ≤ (fields.drop (kHeadBytes - 1)).length
  count : kExtensionCountBytes ≤ (afterRecordIn fields).length

theorem decodeLogEvent_of_hasRecord {version : UInt8} {fields : Bytes}
    (hversion : version.toNat = kLogEventCodecVersion) (h : HasRecord fields) :
    decodeLogEvent (version :: fields) =
      (decodeExtensions (getLittleEndian ((afterRecordIn fields).take 2))
        (kHeadBytes + recordLengthIn fields + kExtensionCountBytes)
        ((afterRecordIn fields).drop kExtensionCountBytes)).map fun extensions =>
          (eventIn fields, extensions) := by
  have hhead := h.head
  have hlimit := h.limit
  have hrecord := h.record
  have hcount := h.count
  rw [afterRecordIn, recordLengthIn] at hcount
  rw [recordLengthIn] at hlimit hrecord
  rw [decodeLogEvent, if_neg (by simp [hversion]), if_neg (by omega)]
  simp only
  rw [if_neg (by omega), if_neg (by omega), if_neg (by omega)]
  simp only [afterRecordIn, recordLengthIn, eventIn]
  cases decodeExtensions _ _ _ <;> rfl

/-- The record or the extension count is missing. -/
def RecordShort (fields : Bytes) : Prop :=
  (fields.drop (kHeadBytes - 1)).length < recordLengthIn fields ∨
    recordLengthIn fields ≤ (fields.drop (kHeadBytes - 1)).length ∧
      (afterRecordIn fields).length < kExtensionCountBytes

/-- The ways to read the fields before the extensions. -/
theorem decodeLogEvent_cases (version : UInt8) (fields : Bytes) :
    (version.toNat ≠ kLogEventCodecVersion ∧
        decodeLogEvent (version :: fields) = .error .UnsupportedVersion) ∨
      (version.toNat = kLogEventCodecVersion ∧ fields.length < kHeadBytes - 1 ∧
        decodeLogEvent (version :: fields) = .error .Truncated) ∨
      (version.toNat = kLogEventCodecVersion ∧ kHeadBytes - 1 ≤ fields.length ∧
        kHeadBytes + recordLengthIn fields + kExtensionCountBytes > kMaxEncodedEventBytes ∧
        decodeLogEvent (version :: fields) = .error .TooLarge) ∨
      (version.toNat = kLogEventCodecVersion ∧ kHeadBytes - 1 ≤ fields.length ∧
        kHeadBytes + recordLengthIn fields + kExtensionCountBytes ≤ kMaxEncodedEventBytes ∧
        RecordShort fields ∧ decodeLogEvent (version :: fields) = .error .Truncated) ∨
      (version.toNat = kLogEventCodecVersion ∧ HasRecord fields) := by
  by_cases hversion : version.toNat ≠ kLogEventCodecVersion
  · exact Or.inl ⟨hversion, by rw [decodeLogEvent, if_pos hversion]⟩
  right
  have hknown := not_not.mp hversion
  by_cases hhead : fields.length < kHeadBytes - 1
  · exact Or.inl ⟨hknown, hhead, by rw [decodeLogEvent, if_neg hversion, if_pos hhead]⟩
  right
  by_cases hlimit : kHeadBytes + recordLengthIn fields + kExtensionCountBytes >
      kMaxEncodedEventBytes
  · refine Or.inl ⟨hknown, by omega, hlimit, ?_⟩
    rw [decodeLogEvent, if_neg hversion, if_neg hhead]
    exact if_pos hlimit
  right
  by_cases hrecord : (fields.drop (kHeadBytes - 1)).length < recordLengthIn fields
  · refine Or.inl ⟨hknown, by omega, by omega, Or.inl hrecord, ?_⟩
    rw [decodeLogEvent, if_neg hversion, if_neg hhead]
    exact (if_neg hlimit).trans (if_pos hrecord)
  by_cases hcount : (afterRecordIn fields).length < kExtensionCountBytes
  · refine Or.inl ⟨hknown, by omega, by omega, Or.inr ⟨by omega, hcount⟩, ?_⟩
    rw [decodeLogEvent, if_neg hversion, if_neg hhead]
    exact (if_neg hlimit).trans ((if_neg hrecord).trans (if_pos hcount))
  · exact Or.inr ⟨hknown, by omega, by omega, by omega, by omega⟩

/-- A field of eight bytes, back in its place. -/
theorem putLittleEndian_uint64 {data : Bytes} (h : 8 ≤ data.length) :
    putLittleEndian (UInt64.ofNat (getLittleEndian (data.take 8))).toNat 8 = data.take 8 := by
  have hlt : getLittleEndian (data.take 8) < 2 ^ 64 := getLittleEndian_take_lt 8
  rw [UInt64.toNat_ofNat', Nat.mod_eq_of_lt hlt, putLittleEndian_take h]

/-- A field of four bytes, back in its place. -/
theorem putLittleEndian_uint32 {data : Bytes} (h : 4 ≤ data.length) :
    putLittleEndian (UInt32.ofNat (getLittleEndian (data.take 4))).toNat 4 = data.take 4 := by
  have hlt : getLittleEndian (data.take 4) < 2 ^ 32 := getLittleEndian_take_lt 4
  rw [UInt32.toNat_ofNat', Nat.mod_eq_of_lt hlt, putLittleEndian_take h]

theorem encode_of_decodeLogEvent {data : Bytes} {event : LogEvent}
    {extensions : List EventExtension} (h : decodeLogEvent data = .ok (event, extensions)) :
    ∃ parts, encodeLogEvent event extensions = some parts ∧ parts.bytes <+: data := by
  cases data with
  | nil => cases h
  | cons version fields =>
    rcases decodeLogEvent_cases version fields with ⟨-, herr⟩ | ⟨-, -, herr⟩ | ⟨-, -, -, herr⟩ |
      ⟨-, -, -, -, herr⟩ | ⟨hversion, hrecord⟩
    · rw [herr] at h; cases h
    · rw [herr] at h; cases h
    · rw [herr] at h; cases h
    · rw [herr] at h; cases h
    rw [decodeLogEvent_of_hasRecord hversion hrecord] at h
    obtain ⟨extensions', hdec, hpair⟩ := map_eq_ok h
    obtain ⟨rfl, rfl⟩ := Prod.mk.inj hpair
    obtain ⟨hcount, hsize, hpre⟩ := encode_of_decodeExtensions hrecord.limit hdec
    have hlength : (eventIn fields).logRecord.length = recordLengthIn fields := by
      rw [eventIn, List.length_take, Nat.min_eq_left hrecord.record]
    have hfew : extensions'.length ≤ 65535 := by
      have hlt := @getLittleEndian_take_lt (afterRecordIn fields) 2
      omega
    obtain ⟨parts, hparts⟩ := exists_encodeLogEvent hfew
      (show encodedSize (eventIn fields) extensions' ≤ _ by rw [encodedSize, hlength]; exact hsize)
    refine ⟨parts, hparts, ?_⟩
    obtain ⟨-, -, -, hbytes⟩ := encodeLogEvent_eq_some hparts
    have hhead := hrecord.head
    rw [kHeadBytes] at hhead
    -- the fields one after another, up to the extensions
    have hfields : fields = fields.take 8 ++ ((fields.drop 8).take 8 ++ ((fields.drop 16).take 8 ++
        ((fields.drop 24).take 4 ++ ((fields.drop 28).take 4 ++ ((eventIn fields).logRecord ++
        ((afterRecordIn fields).take 2 ++ (afterRecordIn fields).drop 2)))))) := by
      rw [List.take_append_drop, eventIn, afterRecordIn, List.take_append_drop,
        show fields.drop (kHeadBytes - 1) = (fields.drop 28).drop 4 by rw [List.drop_drop]; rfl,
        List.take_append_drop, show fields.drop 28 = (fields.drop 24).drop 4 by rw [List.drop_drop],
        List.take_append_drop, show fields.drop 24 = (fields.drop 16).drop 8 by rw [List.drop_drop],
        List.take_append_drop, show fields.drop 16 = (fields.drop 8).drop 8 by rw [List.drop_drop],
        List.take_append_drop, List.take_append_drop]
    have hone : putLittleEndian kLogEventCodecVersion 1 = [version] := by
      rw [← hversion]
      simp [putLittleEndian]
    rw [EncodedEventParts.bytes, hbytes, hone]
    conv_rhs => rw [hfields]
    have hcountBytes := hrecord.count
    rw [kExtensionCountBytes] at hcountBytes
    rw [hlength, hcount]
    simp only [eventIn]
    rw [putLittleEndian_uint64 (by omega),
      putLittleEndian_uint64 (by rw [List.length_drop]; omega),
      putLittleEndian_uint64 (by rw [List.length_drop]; omega),
      putLittleEndian_uint32 (by rw [List.length_drop]; omega), recordLengthIn,
      putLittleEndian_take (by rw [List.length_drop]; omega), putLittleEndian_take hcountBytes]
    simp only [List.singleton_append, List.cons_prefix_cons, true_and,
      List.prefix_append_right_inj]
    exact hpre

theorem decodeLogEvent_append {data : Bytes} {e : CodecStatus}
    (h : decodeLogEvent data = .error e) (he : e ≠ .Truncated) (rest : Bytes) :
    decodeLogEvent (data ++ rest) = .error e := by
  cases data with
  | nil => exact absurd (Except.error.inj h).symm he
  | cons version fields =>
    rw [List.cons_append]
    have hlonger : fields.length ≤ (fields ++ rest).length := by
      rw [List.length_append]
      omega
    have hsame : kHeadBytes - 1 ≤ fields.length →
        recordLengthIn (fields ++ rest) = recordLengthIn fields := by
      intro hhead
      rw [kHeadBytes] at hhead
      rw [recordLengthIn, List.drop_append_of_le_length (by omega),
        List.take_append_of_le_length (by rw [List.length_drop]; omega), recordLengthIn]
    rcases decodeLogEvent_cases version fields with ⟨hversion, herr⟩ | ⟨-, -, herr⟩ |
      ⟨hversion, hhead, hover, herr⟩ | ⟨-, -, -, -, herr⟩ | ⟨hversion, hrecord⟩
    · rw [decodeLogEvent, if_pos hversion, ← h, herr]
    · rw [herr] at h
      exact absurd (Except.error.inj h).symm he
    · rw [← hsame hhead] at hover
      rw [decodeLogEvent, if_neg (by simp [hversion]), if_neg (by omega), ← h, herr]
      exact if_pos hover
    · rw [herr] at h
      exact absurd (Except.error.inj h).symm he
    · have hdrop : (fields ++ rest).drop (kHeadBytes - 1) = fields.drop (kHeadBytes - 1) ++ rest :=
        List.drop_append_of_le_length hrecord.head
      have hafter : afterRecordIn (fields ++ rest) = afterRecordIn fields ++ rest := by
        rw [afterRecordIn, hdrop, hsame hrecord.head,
          List.drop_append_of_le_length hrecord.record, afterRecordIn]
      have hcount := hrecord.count
      have hrecord' : HasRecord (fields ++ rest) := by
        refine ⟨hrecord.head.trans hlonger, ?_, ?_, ?_⟩
        · rw [hsame hrecord.head]
          exact hrecord.limit
        · rw [hsame hrecord.head, hdrop, List.length_append]
          exact hrecord.record.trans (Nat.le_add_right _ _)
        · rw [hafter, List.length_append]
          omega
      have htwo : (afterRecordIn fields ++ rest).take 2 = (afterRecordIn fields).take 2 :=
        List.take_append_of_le_length hcount
      rw [decodeLogEvent_of_hasRecord hversion hrecord] at h
      rw [decodeLogEvent_of_hasRecord hversion hrecord', hsame hrecord.head, hafter,
        List.drop_append_of_le_length hcount, htwo]
      -- the failure is that of an extension
      cases hdec : decodeExtensions (getLittleEndian ((afterRecordIn fields).take 2))
          (kHeadBytes + recordLengthIn fields + kExtensionCountBytes)
          ((afterRecordIn fields).drop kExtensionCountBytes) with
      | ok extensions => rw [hdec] at h; cases h
      | error e' =>
        rw [hdec] at h
        obtain rfl : e' = e := Except.error.inj h
        rw [decodeExtensions_append hdec he]
        rfl

/-- The encoder as one string for a pair of an event and its extensions. -/
def encodeLogEventBytes (value : LogEvent × List EventExtension) : Option Bytes :=
  (encodeLogEvent value.1 value.2).map EncodedEventParts.bytes

/-- **The codec is a prefix code.** -/
theorem lawful_logEventCodec :
    PrefixCode.Lawful encodeLogEventBytes decodeLogEvent .Truncated where
  decode_append h rest := by
    obtain ⟨parts, hparts, rfl⟩ := Option.map_eq_some_iff.mp h
    exact decodeLogEvent_encodeLogEvent hparts rest
  encode_of_decode h := by
    obtain ⟨parts, hparts, hpre⟩ := encode_of_decodeLogEvent h
    exact ⟨parts.bytes, by rw [encodeLogEventBytes, hparts, Option.map_some], hpre⟩
  error_append h he rest := decodeLogEvent_append h he rest

/-! ### The loop over a reader -/

/-- The offset of the `Reader`, and the variables that the caller passes: the event, and the
extensions or a null pointer. -/
structure DecoderState where
  pos : ℕ
  event : LogEvent
  extensions : Option (List EventExtension)

/-- Steps of the decoder: a status ends it at once, and `none` is a read past its input. -/
abbrev Decoder := ExceptT CodecStatus (StateT DecoderState Option)

namespace Decoder

variable (data : Bytes)

/-- `if(!in.has(bytes)) return CodecStatus::Truncated`. -/
def need (bytes : ℕ) : Decoder Unit := do
  let s ← get
  if ¬data.length - s.pos ≥ bytes then throw .Truncated

/-- `Reader::skip`: the bytes at the offset. -/
def skip (bytes : ℕ) : Decoder Bytes := do
  let s ← get
  if s.pos + bytes ≤ data.length then
    set { s with pos := s.pos + bytes }
    return (data.drop s.pos).take bytes
  else liftM (none : Option Bytes)

/-- `Reader::take`: the number at the offset. -/
def take (bytes : ℕ) : Decoder ℕ := return getLittleEndian (← skip data bytes)

/-- `if(in.offset() + bytes > kMaxEncodedEventBytes) return CodecStatus::TooLarge`. -/
def limit (bytes : ℕ) : Decoder Unit := do
  let s ← get
  if s.pos + bytes > kMaxEncodedEventBytes then throw .TooLarge

/-- The loop over the extensions. -/
def extensions : ℕ → Decoder (List EventExtension)
  | 0 => return []
  | count + 1 => do
    need data kExtensionHeadBytes
    let tag ← take data 2
    let value_length ← take data 4
    limit value_length
    need data value_length
    let value ← skip data value_length
    let more ← extensions count
    return ⟨UInt16.ofNat tag, value⟩ :: more

/-- `decodeLogEvent` from the check of the record length on; `event` is made of the record. -/
def afterRecordLength (record_length : ℕ) (event : Bytes → LogEvent) : Decoder Unit := do
  limit (record_length + kExtensionCountBytes)
  need data record_length
  let record ← skip data record_length
  need data kExtensionCountBytes
  let extension_count ← take data 2
  let decoded ← extensions data extension_count
  modify fun s =>
    { s with event := event record, extensions := s.extensions.map fun _ => decoded }

/-- `decodeLogEvent`. -/
def logEvent : Decoder Unit := do
  need data 1
  let version ← take data 1
  if version ≠ kLogEventCodecVersion then throw .UnsupportedVersion
  need data (kHeadBytes - 1)
  let story_id ← take data 8
  let time ← take data 8
  let client_id ← take data 8
  let index ← take data 4
  let record_length ← take data 4
  afterRecordLength data record_length fun record =>
    ⟨UInt64.ofNat story_id, UInt64.ofNat time, UInt64.ofNat client_id, UInt32.ofNat index, record⟩

end Decoder

/-- `decodeLogEvent` with its output: the status, the event and the extensions after it. -/
def decodeLogEventInto (data : Bytes) (event : LogEvent)
    (extensions : Option (List EventExtension)) :
    Option (Except CodecStatus Unit × LogEvent × Option (List EventExtension)) :=
  ((Decoder.logEvent data).run.run ⟨0, event, extensions⟩).map fun r =>
    (r.1, r.2.event, r.2.extensions)

namespace Decoder

variable {data : Bytes} {α : Type} {s : DecoderState}

theorem run_need_bind (bytes : ℕ) (f : Unit → Decoder α) :
    (need data bytes >>= f).run.run s =
      if data.length - s.pos < bytes then some (.error .Truncated, s) else (f ()).run.run s := by
  change ((if ¬data.length - s.pos ≥ bytes then throw .Truncated else pure () : Decoder Unit) >>=
    f).run.run s = _
  by_cases h : data.length - s.pos < bytes
  · rw [if_pos (by omega), if_pos h]
    rfl
  · rw [if_neg (by omega), if_neg h]
    rfl

theorem run_skip_bind {bytes : ℕ} (h : s.pos + bytes ≤ data.length) (f : Bytes → Decoder α) :
    (skip data bytes >>= f).run.run s =
      (f ((data.drop s.pos).take bytes)).run.run { s with pos := s.pos + bytes } := by
  change ((if s.pos + bytes ≤ data.length then do
      set { s with pos := s.pos + bytes }
      return (data.drop s.pos).take bytes
    else liftM (none : Option Bytes) : Decoder Bytes) >>= f).run.run s = _
  rw [if_pos h]
  rfl

theorem run_take_bind {bytes : ℕ} (h : s.pos + bytes ≤ data.length) (f : ℕ → Decoder α) :
    (take data bytes >>= f).run.run s =
      (f (getLittleEndian ((data.drop s.pos).take bytes))).run.run
        { s with pos := s.pos + bytes } := by
  rw [take, bind_assoc, run_skip_bind h]
  rfl

theorem run_limit_bind (bytes : ℕ) (f : Unit → Decoder α) :
    (limit bytes >>= f).run.run s =
      if s.pos + bytes > kMaxEncodedEventBytes then some (.error .TooLarge, s)
      else (f ()).run.run s := by
  change ((if s.pos + bytes > kMaxEncodedEventBytes then throw .TooLarge else pure () :
    Decoder Unit) >>= f).run.run s = _
  by_cases h : s.pos + bytes > kMaxEncodedEventBytes
  · rw [if_pos h, if_pos h]
    rfl
  · rw [if_neg h, if_neg h]
    rfl

/-- What a decoder that reads the same as a function leaves behind: the offset has moved, and
the variables are the caller's. -/
def Reads (m : Decoder α) (s : DecoderState) (result : Except CodecStatus α) : Prop :=
  ∃ pos, m.run.run s = some (result, { s with pos })

theorem run_bind_ok {β : Type} {m : Decoder α} {f : α → Decoder β} {a : α} {s' : DecoderState}
    (h : m.run.run s = some (.ok a, s')) : (m >>= f).run.run s = (f a).run.run s' := by
  change (m.run.run s).bind _ = _
  rw [h]
  rfl

theorem run_bind_error {β : Type} {m : Decoder α} {f : α → Decoder β} {e : CodecStatus}
    {s' : DecoderState} (h : m.run.run s = some (.error e, s')) :
    (m >>= f).run.run s = some (.error e, s') := by
  change (m.run.run s).bind _ = _
  rw [h]
  rfl

/-- The loop over the extensions reads what `decodeExtensions` does. -/
theorem reads_extensions (count : ℕ) (h : s.pos ≤ data.length) :
    Reads (extensions data count) s (decodeExtensions count s.pos (data.drop s.pos)) := by
  induction count generalizing s with
  | zero => exact ⟨s.pos, rfl⟩
  | succ count ih =>
    have hvalue : ((data.drop s.pos).drop 2).take 4 = (data.drop (s.pos + 2)).take 4 := by
      rw [List.drop_drop]
    have hleft : (data.drop s.pos).length = data.length - s.pos := List.length_drop
    have hafter : ((data.drop s.pos).drop kExtensionHeadBytes).length =
        data.length - (s.pos + 2 + 4) := by
      rw [List.drop_drop, List.length_drop]
      rfl
    rcases decodeExtensions_succ_cases s.pos (data.drop s.pos) with ⟨hhead, herr⟩ |
      ⟨hhead, hover, herr⟩ | ⟨hhead, hlimit, hshort, herr⟩ | ⟨hhead, hlimit, hfits⟩
    · rw [herr, extensions]
      exact ⟨s.pos, by rw [run_need_bind, if_pos (by omega)]⟩
    all_goals have hhead' := hhead
    all_goals rw [hleft, kExtensionHeadBytes] at hhead
    · rw [herr, extensions]
      rw [hvalue, kExtensionHeadBytes] at hover
      refine ⟨s.pos + 2 + 4, ?_⟩
      rw [run_need_bind, if_neg (by rw [kExtensionHeadBytes]; omega), run_take_bind (by omega),
        run_take_bind (by simp only; omega), run_limit_bind]
      exact if_pos (by simp only; omega)
    · rw [herr, extensions]
      rw [hvalue, kExtensionHeadBytes] at hlimit
      rw [hvalue, hafter] at hshort
      refine ⟨s.pos + 2 + 4, ?_⟩
      rw [run_need_bind, if_neg (by rw [kExtensionHeadBytes]; omega), run_take_bind (by omega),
        run_take_bind (by simp only; omega), run_limit_bind, if_neg (by simp only; omega),
        run_need_bind]
      exact if_pos hshort
    · rw [decodeExtensions_succ hhead' hlimit hfits, extensions]
      rw [hvalue, kExtensionHeadBytes] at hlimit
      rw [hvalue, hafter] at hfits
      obtain ⟨size, hsize⟩ : ∃ size, getLittleEndian ((data.drop (s.pos + 2)).take 4) = size :=
        ⟨_, rfl⟩
      rw [hsize] at hlimit hfits
      have hhere : (data.drop s.pos).drop kExtensionHeadBytes = data.drop (s.pos + 2 + 4) := by
        rw [List.drop_drop]
        rfl
      have hrest : ((data.drop s.pos).drop kExtensionHeadBytes).drop size =
          data.drop (s.pos + 2 + 4 + size) := by
        rw [hhere, List.drop_drop]
      obtain ⟨pos, hmore⟩ := ih (s := { s with pos := s.pos + 2 + 4 + size })
        (by simp only; omega)
      refine ⟨pos, ?_⟩
      rw [run_need_bind, if_neg (by rw [kExtensionHeadBytes]; omega), run_take_bind (by omega),
        run_take_bind (by simp only; omega), run_limit_bind, if_neg (by simp only; omega),
        run_need_bind, if_neg (by simp only; omega), run_skip_bind (by simp only; omega)]
      rw [hvalue, hsize, hrest, hhere]
      simp only
      -- the extensions that are left
      cases hdec : decodeExtensions count (s.pos + 2 + 4 + size)
          (data.drop (s.pos + 2 + 4 + size)) with
      | error e =>
        rw [hdec] at hmore
        exact (run_bind_error hmore).trans (by rw [kExtensionHeadBytes, hdec]; rfl)
      | ok more =>
        rw [hdec] at hmore
        exact (run_bind_ok hmore).trans (by rw [kExtensionHeadBytes, hdec]; rfl)

/-! ### The whole of it -/

variable {version : UInt8} {fields : Bytes}

theorem run_logEvent_nil (s : DecoderState) (h : s.pos = 0) :
    (logEvent []).run.run s = some (.error .Truncated, s) := by
  rw [logEvent, run_need_bind, if_pos (by rw [List.length_nil]; omega)]

/-- The version is the first byte. -/
theorem run_logEvent_cons (h : s.pos = 0) :
    (logEvent (version :: fields)).run.run s =
      if version.toNat ≠ kLogEventCodecVersion then
        some (.error .UnsupportedVersion, { s with pos := 1 })
      else if fields.length < kHeadBytes - 1 then some (.error .Truncated, { s with pos := 1 })
      else (afterRecordLength (version :: fields) (recordLengthIn fields) fun record =>
        { eventIn fields with logRecord := record }).run.run { s with pos := kHeadBytes } := by
  obtain ⟨pos, event, exts⟩ := s
  obtain rfl : pos = 0 := h
  have hversion : getLittleEndian (((version :: fields).drop 0).take 1) = version.toNat := by
    simp [getLittleEndian]
  rw [logEvent, run_need_bind, if_neg (by simp), run_take_bind (by simp), hversion]
  by_cases hv : version.toNat ≠ kLogEventCodecVersion
  · rw [if_pos hv, if_pos hv]
    rfl
  rw [if_neg hv, if_neg hv]
  change (need (version :: fields) (kHeadBytes - 1) >>= _).run.run _ = _
  rw [run_need_bind]
  by_cases hh : fields.length < kHeadBytes - 1
  · rw [if_pos hh, if_pos (by simpa using hh)]
  rw [if_neg hh, if_neg (by simpa using hh)]
  rw [kHeadBytes] at hh
  have hlength : (version :: fields).length = fields.length + 1 := rfl
  rw [run_take_bind (by simp only; omega), run_take_bind (by simp only; omega),
    run_take_bind (by simp only; omega), run_take_bind (by simp only; omega),
    run_take_bind (by simp only; omega)]
  rfl

theorem run_afterRecordLength_error {c : CodecStatus} {mk : Bytes → LogEvent}
    (hpos : s.pos = kHeadBytes)
    (h : recordLengthIn fields + kHeadBytes + kExtensionCountBytes > kMaxEncodedEventBytes ∧
        c = .TooLarge ∨
      recordLengthIn fields + kHeadBytes + kExtensionCountBytes ≤ kMaxEncodedEventBytes ∧
        kHeadBytes - 1 ≤ fields.length ∧ RecordShort fields ∧ c = .Truncated) :
    ∃ pos, (afterRecordLength (version :: fields) (recordLengthIn fields) mk).run.run s =
      some (.error c, { s with pos }) := by
  have hlength : (version :: fields).length = fields.length + 1 := rfl
  rw [afterRecordLength, run_limit_bind]
  rcases h with ⟨hover, rfl⟩ | ⟨hlimit, hhead, hshort, rfl⟩
  · exact ⟨s.pos, if_pos (by omega)⟩
  rw [if_neg (by omega), run_need_bind]
  simp only [RecordShort, afterRecordIn, List.length_drop, kHeadBytes] at hshort
  rw [kHeadBytes] at hhead hpos
  rcases hshort with hrecord | ⟨hrecord, hcount⟩
  · exact ⟨s.pos, if_pos (by omega)⟩
  · refine ⟨s.pos + recordLengthIn fields, ?_⟩
    rw [if_neg (by omega), run_skip_bind (by omega), run_need_bind]
    exact if_pos (by simp only; omega)

theorem run_afterRecordLength_hasRecord {mk : Bytes → LogEvent} (hpos : s.pos = kHeadBytes)
    (h : HasRecord fields) :
    ∃ pos, (afterRecordLength (version :: fields) (recordLengthIn fields) mk).run.run s =
        ((extensions (version :: fields) (getLittleEndian ((afterRecordIn fields).take 2)) >>=
          fun decoded => modify fun s =>
            { s with
              event := mk (eventIn fields).logRecord
              extensions := s.extensions.map fun _ => decoded }).run.run { s with pos }) ∧
      pos = kHeadBytes + recordLengthIn fields + kExtensionCountBytes ∧
      pos ≤ (version :: fields).length ∧
      (version :: fields).drop pos = (afterRecordIn fields).drop kExtensionCountBytes := by
  have hlength : (version :: fields).length = fields.length + 1 := rfl
  have hhead := h.head
  have hlimit := h.limit
  have hrecord := h.record
  have hcount := h.count
  rw [afterRecordIn, List.length_drop, List.length_drop, kExtensionCountBytes] at hcount
  rw [List.length_drop] at hrecord
  rw [kHeadBytes] at hhead hrecord hcount
  have hkHead : kHeadBytes = 33 := rfl
  have hkCount : kExtensionCountBytes = 2 := rfl
  have hafter : (version :: fields).drop (s.pos + recordLengthIn fields) =
      afterRecordIn fields := by
    rw [afterRecordIn, List.drop_drop, hpos,
      show kHeadBytes + recordLengthIn fields = (kHeadBytes - 1 + recordLengthIn fields) + 1 by
        rw [hkHead]; omega, List.drop_succ_cons]
  have hrecordBytes : ((version :: fields).drop s.pos).take (recordLengthIn fields) =
      (eventIn fields).logRecord := by
    rw [hpos]
    rfl
  refine ⟨s.pos + recordLengthIn fields + 2, ?_, by rw [hpos, hkCount], by omega, ?_⟩
  · rw [afterRecordLength, run_limit_bind, if_neg (by omega), run_need_bind, if_neg (by omega),
      run_skip_bind (by omega), run_need_bind, if_neg (by simp only; omega),
      run_take_bind (by simp only; omega)]
    simp only [hafter, hrecordBytes]
  · rw [← hafter, List.drop_drop, hkCount]

/-- **The loop over the reader decodes what `decodeLogEvent` does.**  No step of it takes bytes
past the data. -/
theorem run_logEvent (hpos : s.pos = 0) :
    (∀ c, decodeLogEvent data = .error c →
        ∃ pos, (logEvent data).run.run s = some (.error c, { s with pos })) ∧
      ∀ event decoded, decodeLogEvent data = .ok (event, decoded) →
        ∃ pos, (logEvent data).run.run s = some (.ok (),
          { pos, event, extensions := s.extensions.map fun _ => decoded }) := by
  cases data with
  | nil =>
    refine ⟨fun c h => ⟨s.pos, ?_⟩, fun event decoded h => by cases h⟩
    obtain rfl : CodecStatus.Truncated = c := Except.error.inj h
    exact run_logEvent_nil s hpos
  | cons version fields =>
    rw [run_logEvent_cons hpos]
    rcases decodeLogEvent_cases version fields with ⟨hversion, herr⟩ | ⟨hversion, hhead, herr⟩ |
      ⟨hversion, hhead, hover, herr⟩ | ⟨hversion, hhead, hlimit, hshort, herr⟩ |
      ⟨hversion, hrecord⟩
    · refine ⟨fun c h => ⟨1, ?_⟩, fun event decoded h => by rw [herr] at h; cases h⟩
      obtain rfl : CodecStatus.UnsupportedVersion = c := Except.error.inj (herr.symm.trans h)
      rw [if_pos hversion]
    · refine ⟨fun c h => ⟨1, ?_⟩, fun event decoded h => by rw [herr] at h; cases h⟩
      obtain rfl : CodecStatus.Truncated = c := Except.error.inj (herr.symm.trans h)
      rw [if_neg (not_not.mpr hversion), if_pos hhead]
    · refine ⟨fun c h => ?_, fun event decoded h => by rw [herr] at h; cases h⟩
      obtain rfl : CodecStatus.TooLarge = c := Except.error.inj (herr.symm.trans h)
      rw [if_neg (not_not.mpr hversion), if_neg (by omega)]
      exact run_afterRecordLength_error rfl (Or.inl ⟨by omega, rfl⟩)
    · refine ⟨fun c h => ?_, fun event decoded h => by rw [herr] at h; cases h⟩
      obtain rfl : CodecStatus.Truncated = c := Except.error.inj (herr.symm.trans h)
      rw [if_neg (not_not.mpr hversion), if_neg (by omega)]
      exact run_afterRecordLength_error rfl (Or.inr ⟨by omega, hhead, hshort, rfl⟩)
    · have hhead := hrecord.head
      rw [if_neg (not_not.mpr hversion), if_neg (by omega),
        decodeLogEvent_of_hasRecord hversion hrecord]
      obtain ⟨pos, hrun, hposEq, hle, hdrop⟩ := @run_afterRecordLength_hasRecord
        { s with pos := kHeadBytes } version fields
        (fun record => { eventIn fields with logRecord := record }) rfl hrecord
      rw [hrun]
      obtain ⟨pos', hread⟩ := reads_extensions (s := { s with pos })
        (getLittleEndian ((afterRecordIn fields).take 2)) hle
      subst hposEq
      simp only [hdrop] at hread
      -- the rest is what the extensions give
      cases hdec : decodeExtensions (getLittleEndian ((afterRecordIn fields).take 2))
          (kHeadBytes + recordLengthIn fields + kExtensionCountBytes)
          ((afterRecordIn fields).drop kExtensionCountBytes) with
      | error e =>
        rw [hdec] at hread
        refine ⟨fun c h => ⟨pos', ?_⟩, fun event decoded h => by cases h⟩
        obtain rfl : e = c := Except.error.inj h
        exact run_bind_error hread
      | ok more =>
        rw [hdec] at hread
        refine ⟨fun c h => (by cases h), fun event decoded h => ⟨pos', ?_⟩⟩
        obtain ⟨rfl, rfl⟩ := Prod.mk.inj (Except.ok.inj h)
        exact run_bind_ok hread

end Decoder

section

variable {data : Bytes} {out : LogEvent} {outExtensions : Option (List EventExtension)}

theorem decodeLogEventInto_ok {event : LogEvent} {extensions : List EventExtension}
    (h : decodeLogEvent data = .ok (event, extensions)) :
    decodeLogEventInto data out outExtensions =
      some (.ok (), event, outExtensions.map fun _ => extensions) := by
  obtain ⟨pos, hrun⟩ := (Decoder.run_logEvent (s := ⟨0, out, outExtensions⟩) rfl).2 _ _ h
  rw [decodeLogEventInto, hrun]
  rfl

theorem decodeLogEventInto_error {c : CodecStatus} (h : decodeLogEvent data = .error c) :
    decodeLogEventInto data out outExtensions = some (.error c, out, outExtensions) := by
  obtain ⟨pos, hrun⟩ := (Decoder.run_logEvent (s := ⟨0, out, outExtensions⟩) rfl).1 _ h
  rw [decodeLogEventInto, hrun]
  rfl

end

/-- **The event codec.**  An encoding reads back whatever follows it, and a strict part of it
ends too early; the encoder throws exactly past its limits; what is decoded is encoded as the
start of the data; the decoder answers on every data without a read past it, and changes its
output on success only. -/
theorem log_event_codec (event : LogEvent) (extensions : List EventExtension) :
    (∀ parts, encodeLogEvent event extensions = some parts →
        parts.bytes.length = encodedSize event extensions ∧
        (∀ rest out outExtensions, decodeLogEventInto (parts.bytes ++ rest) out outExtensions =
          some (.ok (), event, outExtensions.map fun _ => extensions)) ∧
        ∀ data out outExtensions, data <+: parts.bytes → data ≠ parts.bytes →
          decodeLogEventInto data out outExtensions =
            some (.error .Truncated, out, outExtensions)) ∧
      (encodeLogEvent event extensions = none ↔
        extensions.length > 65535 ∨ encodedSize event extensions > kMaxEncodedEventBytes) ∧
      (∀ data out outExtensions, decodeLogEventInto data out (some outExtensions) =
          some (.ok (), event, some extensions) →
        ∃ parts, encodeLogEvent event extensions = some parts ∧ parts.bytes <+: data) ∧
      ∀ data out outExtensions, ∃ r, decodeLogEventInto data out outExtensions = some r ∧
        ∀ c, r.1 = .error c → r.2 = (out, outExtensions) := by
  refine ⟨fun parts hparts => ⟨length_bytes_of_encode hparts, fun rest out outExtensions => ?_,
    fun data out outExtensions hpre hne => ?_⟩, encodeLogEvent_eq_none_iff event extensions,
    fun data out outExtensions h => ?_, fun data out outExtensions => ?_⟩
  · exact decodeLogEventInto_ok (decodeLogEvent_encodeLogEvent hparts rest)
  · have henc : encodeLogEventBytes (event, extensions) = some parts.bytes := by
      rw [encodeLogEventBytes, hparts, Option.map_some]
    exact decodeLogEventInto_error (lawful_logEventCodec.decode_strict henc hpre hne)
  · cases hdec : decodeLogEvent data with
    | error c =>
      rw [decodeLogEventInto_error hdec, Option.some.injEq, Prod.mk.injEq] at h
      cases h.1
    | ok value =>
      obtain ⟨event', extensions'⟩ := value
      rw [decodeLogEventInto_ok hdec, Option.some.injEq, Prod.mk.injEq, Prod.mk.injEq] at h
      obtain ⟨-, rfl, hexts⟩ := h
      obtain rfl : extensions' = extensions := Option.some.inj hexts
      exact encode_of_decodeLogEvent hdec
  · cases hdec : decodeLogEvent data with
    | error c => exact ⟨_, decodeLogEventInto_error hdec, fun _ _ => rfl⟩
    | ok value =>
      refine ⟨_, decodeLogEventInto_ok hdec, fun c hc => ?_⟩
      cases hc

end ChronoLog
