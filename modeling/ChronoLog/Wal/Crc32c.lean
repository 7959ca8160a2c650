import ChronoLog.Lib.WordPolynomials
import ChronoLog.Wal.Frames

/-!
# The checksum of the records

CRC-32C is computed by the processor where it has the instruction and by a library
otherwise (`Crc32c.cpp`).  The instruction and the library are taken as their documents
describe them, by the polynomials over the field of two elements that they compute with: a
byte goes in low bit first, and a register holds a remainder low bit first.

## Main definitions

* `castagnoli`, `IsCrc32c` — the generator and the checksum it defines.
* `Crc32Instruction`, `CrcOptimal` — the instruction of the processor, the library.
* `crc32cHardware`, `crc32cSoftware` — the two paths.
* `Machine.extend` — `crc32c_extend` where the processor has the instruction or not.

## Main results

* `isCrc32c_crc32cExtend`, `IsCrc32c.eq` — the checksum bit by bit is the one of the
  definition, and no other.
* `crc32cHardware_eq`, `crc32cSoftware_eq` — both paths compute it.
* `crc32c_agrees` — **the paths agree, on any pieces, and with the frames of the log.**
-/

namespace ChronoLog

namespace Wal

open Polynomial WordPolynomials

/-! ### The definition -/

/-- The Castagnoli polynomial. -/
noncomputable def castagnoli : (ZMod 2)[X] := X ^ 32 + highFirst 32 0x1EDC6F41

theorem castagnoli_eq : castagnoli = generator 32 0x82F63B78 := by
  have hreflected := highFirst_reverseBits 32 0 0x82F63B78 0
  rw [show reverseBits 32 0x82F63B78 0 = 0x1EDC6F41 by decide, highFirst, mul_zero,
    zero_add, zero_add] at hreflected
  rw [castagnoli, generator, hreflected]

theorem monic_castagnoli : castagnoli.Monic := by
  rw [castagnoli_eq]
  exact monic_generator 32 _

/-- The value of a register as a polynomial. -/
noncomputable def remainderOf (rem : UInt32) : (ZMod 2)[X] := lowFirst 32 rem.toNat

/-- Bytes as a polynomial: the low bit of the first byte is the highest coefficient. -/
noncomputable def messageOf : Bytes → (ZMod 2)[X]
  | [] => 0
  | byte :: data => lowFirst 8 byte.toNat * X ^ (8 * data.length) + messageOf data

/-- What the register holds after more bytes. -/
noncomputable def remainderAfter (start : (ZMod 2)[X]) (data : Bytes) : (ZMod 2)[X] :=
  (start * X ^ (8 * data.length) + messageOf data * X ^ 32) %ₘ castagnoli

/-- **The checksum.**  The register starts and ends complemented. -/
def IsCrc32c (crc : UInt32) (data : Bytes) (result : UInt32) : Prop :=
  remainderOf (result ^^^ 0xFFFFFFFF) = remainderAfter (remainderOf (crc ^^^ 0xFFFFFFFF)) data

theorem remainderOf_inj {rem rem' : UInt32} (h : remainderOf rem = remainderOf rem') :
    rem = rem' :=
  UInt32.toNat_inj.mp (lowFirst_inj rem.toNat_lt rem'.toNat_lt h)

theorem degree_remainderOf (rem : UInt32) : (remainderOf rem).degree < castagnoli.degree := by
  rw [castagnoli_eq, degree_generator]
  exact degree_lowFirst_lt 32 _

/-- At most one value is the checksum. -/
theorem IsCrc32c.eq {crc result result' : UInt32} {data : Bytes} (h : IsCrc32c crc data result)
    (h' : IsCrc32c crc data result') : result = result' := by
  have hsame : result ^^^ 0xFFFFFFFF = result' ^^^ 0xFFFFFFFF := remainderOf_inj (h.trans h'.symm)
  have hcancel := congrArg (· ^^^ (0xFFFFFFFF : UInt32)) hsame
  simpa only [UInt32.xor_assoc, UInt32.xor_self, UInt32.xor_zero] using hcancel

/-! ### Bit by bit -/

theorem toNat_crcBit (rem : UInt32) : (crcBit rem).toNat = shiftReduce 0x82F63B78 rem.toNat := by
  have hlow : (rem &&& 1 = 1) ↔ rem.toNat % 2 = 1 := by
    rw [← UInt32.toNat_inj, UInt32.toNat_and]
    exact (by rw [show (1 : UInt32).toNat = 1 from rfl, Nat.and_one_is_mod])
  have hshift : (rem >>> 1).toNat = rem.toNat / 2 := by
    rw [UInt32.toNat_shiftRight]
    rfl
  unfold crcBit shiftReduce
  simp only [hlow]
  split
  · rw [UInt32.toNat_xor, hshift]
    rfl
  · exact hshift

theorem mk_crcBit (rem : UInt32) :
    AdjoinRoot.mk castagnoli (remainderOf (crcBit rem)) =
      AdjoinRoot.mk castagnoli X * AdjoinRoot.mk castagnoli (remainderOf rem) := by
  rw [← map_mul, remainderOf, toNat_crcBit, castagnoli_eq]
  exact mk_lowFirst_shiftReduce rem.toNat_lt

/-- A byte is added at the top of the register and shifted through it. -/
theorem mk_crcByte (rem : UInt32) (byte : UInt8) :
    AdjoinRoot.mk castagnoli (remainderOf (crcByte rem byte)) =
      AdjoinRoot.mk castagnoli (remainderOf rem * X ^ 8 + lowFirst 8 byte.toNat * X ^ 32) := by
  have hbyte : lowFirst 32 byte.toNat = lowFirst 8 byte.toNat * X ^ 24 := by
    rw [lowFirst_add 8 24, Nat.div_eq_of_lt byte.toNat_lt, lowFirst_zero, add_zero]
  have hsum : remainderOf (rem ^^^ byte.toUInt32) =
      remainderOf rem + lowFirst 8 byte.toNat * X ^ 24 := by
    rw [← hbyte, remainderOf, UInt32.toNat_xor, UInt8.toNat_toUInt32, lowFirst_xor, remainderOf]
  simp only [crcByte, mk_crcBit, hsum, map_add, map_mul, map_pow]
  ring

theorem mk_foldl_crcByte (rem : UInt32) (data : Bytes) :
    AdjoinRoot.mk castagnoli (remainderOf (data.foldl crcByte rem)) =
      AdjoinRoot.mk castagnoli
        (remainderOf rem * X ^ (8 * data.length) + messageOf data * X ^ 32) := by
  induction data generalizing rem with
  | nil => simp [messageOf]
  | cons byte data ih =>
    rw [List.foldl_cons, ih, messageOf, List.length_cons]
    simp only [map_add, map_mul, mk_crcByte, map_pow]
    ring

/-- **Byte by byte the register holds the remainder.** -/
theorem remainderOf_foldl (rem : UInt32) (data : Bytes) :
    remainderOf (data.foldl crcByte rem) = remainderAfter (remainderOf rem) data :=
  eq_modByMonic monic_castagnoli (degree_remainderOf _) (mk_foldl_crcByte rem data)

theorem isCrc32c_crc32cExtend (crc : UInt32) (data : Bytes) :
    IsCrc32c crc data (crc32cExtend crc data) := by
  rw [IsCrc32c, crc32cExtend, UInt32.xor_assoc, UInt32.xor_self, UInt32.xor_zero]
  exact remainderOf_foldl _ data

/-! ### The instruction and the library -/

/-- The `crc32` instruction of the processor as its manual describes it: the operand, low bit
first, and the register shifted past it, modulo the Castagnoli polynomial.  The form for eight
bytes takes the low half of a register and clears the high half of the result. -/
structure Crc32Instruction where
  u8 : UInt32 → UInt8 → UInt32
  u64 : UInt64 → UInt64 → UInt64
  u8_spec : ∀ rem byte, remainderOf (u8 rem byte) =
    (remainderOf rem * X ^ 8 + lowFirst 8 byte.toNat * X ^ 32) %ₘ castagnoli
  u64_spec : ∀ rem word, (u64 rem word).toNat < 2 ^ 32 ∧ lowFirst 32 (u64 rem word).toNat =
    (lowFirst 32 rem.toNat * X ^ 64 + lowFirst 64 word.toNat * X ^ 32) %ₘ castagnoli

/-- `boost::crc_optimal<32, 0x1EDC6F41, 0xFFFFFFFF, 0xFFFFFFFF, true, true>` as documented:
built from an initial remainder, low bit last, it takes each byte low bit first and gives the
final remainder low bit first and complemented. -/
structure CrcOptimal where
  checksum : UInt32 → Bytes → UInt32
  spec : ∀ initial data, remainderOf (checksum initial data ^^^ 0xFFFFFFFF) =
    remainderAfter (highFirst 32 initial.toNat) data

section

variable (instruction : Crc32Instruction)

/-! ### The hardware path -/

/-- The loop up to an address that is a multiple of eight: the register and the bytes left. -/
def alignLoop (rem address : UInt64) : Bytes → UInt64 × Bytes
  | [] => (rem, [])
  | byte :: data =>
    if address &&& 7 = 0 then (rem, byte :: data)
    else alignLoop (instruction.u8 rem.toUInt32 byte).toUInt64 (address + 1) data

/-- The loop over words of eight bytes, which the processor loads low byte first. -/
def wordLoop (rem : UInt64) (data : Bytes) : UInt64 × Bytes :=
  if 8 ≤ data.length then
    wordLoop (instruction.u64 rem (UInt64.ofNat (getLittleEndian (data.take 8)))) (data.drop 8)
  else (rem, data)
termination_by data.length
decreasing_by
  rw [List.length_drop]
  omega

/-- The loop over the bytes that are left. -/
def byteLoop (rem : UInt64) : Bytes → UInt64
  | [] => rem
  | byte :: data => byteLoop (instruction.u8 rem.toUInt32 byte).toUInt64 data

/-- `crc32cHardware`, for bytes at an address. -/
def crc32cHardware (address : UInt64) (crc : UInt32) (data : Bytes) : UInt32 :=
  let aligned := alignLoop instruction (~~~crc).toUInt64 address data
  let words := wordLoop instruction aligned.1 aligned.2
  ~~~(byteLoop instruction words.1 words.2).toUInt32

/-- On one byte the instruction is the step of the register. -/
theorem Crc32Instruction.u8_eq (rem : UInt32) (byte : UInt8) :
    instruction.u8 rem byte = crcByte rem byte := by
  apply remainderOf_inj
  rw [instruction.u8_spec]
  exact (eq_modByMonic monic_castagnoli (degree_remainderOf _) (mk_crcByte rem byte)).symm

/-- A word loaded low byte first is the polynomial of its bytes. -/
theorem lowFirst_getLittleEndian (data : Bytes) :
    lowFirst (8 * data.length) (getLittleEndian data) = messageOf data := by
  induction data with
  | nil => rfl
  | cons byte data ih =>
    have hhigh : (byte.toNat + 256 * getLittleEndian data) / 2 ^ 8 = getLittleEndian data := by
      have hlt := byte.toNat_lt
      omega
    rw [List.length_cons, Nat.mul_succ, add_comm, getLittleEndian, lowFirst_add, hhigh, ih,
      show 256 = 2 ^ 8 from rfl, lowFirst_add_mul, messageOf]

/-- Of a register for words only the low half counts. -/
theorem remainderOf_toUInt32 (rem : UInt64) :
    remainderOf rem.toUInt32 = lowFirst 32 rem.toNat := by
  rw [remainderOf, UInt64.toNat_toUInt32]
  conv_rhs => rw [← Nat.mod_add_div rem.toNat (2 ^ 32)]
  rw [lowFirst_add_mul]

/-- On a word the instruction is the register's steps over its bytes. -/
theorem Crc32Instruction.u64_eq (rem : UInt64) {data : Bytes} (h : data.length = 8) :
    (instruction.u64 rem (UInt64.ofNat (getLittleEndian data))).toUInt32 =
      data.foldl crcByte rem.toUInt32 := by
  obtain ⟨-, hspec⟩ := instruction.u64_spec rem (UInt64.ofNat (getLittleEndian data))
  have hword : (UInt64.ofNat (getLittleEndian data)).toNat = getLittleEndian data := by
    rw [UInt64.toNat_ofNat']
    exact Nat.mod_eq_of_lt (by simpa [h] using getLittleEndian_lt data)
  have hmessage := lowFirst_getLittleEndian data
  rw [h] at hmessage
  apply remainderOf_inj
  rw [remainderOf_foldl, remainderAfter, remainderOf_toUInt32, remainderOf_toUInt32, h, hspec,
    hword, hmessage]

theorem foldl_alignLoop (rem address : UInt64) (data : Bytes) :
    (alignLoop instruction rem address data).2.foldl crcByte
        (alignLoop instruction rem address data).1.toUInt32 =
      data.foldl crcByte rem.toUInt32 := by
  induction data generalizing rem address with
  | nil => rfl
  | cons byte data ih =>
    rw [alignLoop]
    split
    · rfl
    · rw [ih, instruction.u8_eq, UInt32.toUInt32_toUInt64, List.foldl_cons]

theorem foldl_wordLoop (rem : UInt64) (data : Bytes) :
    (wordLoop instruction rem data).2.foldl crcByte (wordLoop instruction rem data).1.toUInt32 =
      data.foldl crcByte rem.toUInt32 := by
  fun_induction wordLoop instruction rem data with
  | case1 rem data h ih =>
    have hlen : (data.take 8).length = 8 := by
      rw [List.length_take]
      omega
    rw [ih, instruction.u64_eq rem hlen, ← List.foldl_append, List.take_append_drop]
  | case2 rem data h => rfl

theorem toUInt32_byteLoop (rem : UInt64) (data : Bytes) :
    (byteLoop instruction rem data).toUInt32 = data.foldl crcByte rem.toUInt32 := by
  induction data generalizing rem with
  | nil => rfl
  | cons byte data ih =>
    rw [byteLoop, ih, instruction.u8_eq, UInt32.toUInt32_toUInt64, List.foldl_cons]

theorem not_eq_xor (crc : UInt32) : ~~~crc = crc ^^^ 0xFFFFFFFF := by
  rw [← UInt32.xor_neg_one]
  rfl

/-- **The hardware path computes the checksum**, wherever the bytes stand. -/
theorem crc32cHardware_eq (address : UInt64) (crc : UInt32) (data : Bytes) :
    crc32cHardware instruction address crc data = crc32cExtend crc data := by
  rw [crc32cHardware, toUInt32_byteLoop, foldl_wordLoop, foldl_alignLoop,
    UInt32.toUInt32_toUInt64, not_eq_xor, not_eq_xor, crc32cExtend]

end

/-! ### The software path -/

/-- The loop that turns the bits of the remainder around. -/
def unreflect : ℕ → UInt32 → UInt32 → UInt32
  | 0, _, unreflected => unreflected
  | bits + 1, rem, unreflected => unreflect bits (rem >>> 1) ((unreflected <<< 1) ||| (rem &&& 1))

/-- `crc32c_software`. -/
def crc32cSoftware (boost : CrcOptimal) (crc : UInt32) (data : Bytes) : UInt32 :=
  boost.checksum (unreflect 32 (crc ^^^ 0xFFFFFFFF) 0) data

/-- The loop loses no bit as long as there is room. -/
theorem toNat_unreflect {bits w : ℕ} {rem unreflected : UInt32} (hw : w + bits ≤ 32)
    (h : unreflected.toNat < 2 ^ w) :
    (unreflect bits rem unreflected).toNat =
      reverseBits bits rem.toNat unreflected.toNat := by
  induction bits generalizing w rem unreflected with
  | zero => rfl
  | succ bits ih =>
    have hroom : 2 ^ w * 2 ≤ 2 ^ 32 := by
      rw [← pow_succ]
      exact Nat.pow_le_pow_right Nat.two_pos (by omega)
    have hlow : (rem &&& 1).toNat = rem.toNat % 2 := by
      rw [UInt32.toNat_and, UInt32.toNat_one, Nat.and_one_is_mod]
    have hrem : (rem >>> 1).toNat = rem.toNat / 2 := by
      rw [UInt32.toNat_shiftRight]
      rfl
    have hshift : (unreflected <<< 1).toNat = 2 * unreflected.toNat := by
      rw [UInt32.toNat_shiftLeft, show (1 : UInt32).toNat % 32 = 1 from rfl, Nat.shiftLeft_eq]
      omega
    have hpushed : ((unreflected <<< 1) ||| (rem &&& 1)).toNat =
        2 * unreflected.toNat + rem.toNat % 2 := by
      rw [UInt32.toNat_or, hshift, hlow]
      exact (Nat.two_pow_add_eq_or_of_lt (i := 1) (Nat.mod_lt _ Nat.two_pos) _).symm
    rw [unreflect, reverseBits, ih (w := w + 1) (by omega), hpushed, hrem]
    rw [hpushed, pow_succ]
    omega

/-- **The software path computes the checksum.** -/
theorem crc32cSoftware_eq (boost : CrcOptimal) (crc : UInt32) (data : Bytes) :
    crc32cSoftware boost crc data = crc32cExtend crc data := by
  have hreflected := highFirst_reverseBits 32 0 (crc ^^^ 0xFFFFFFFF).toNat 0
  rw [highFirst, mul_zero, zero_add, zero_add] at hreflected
  have hinitial : highFirst 32 (unreflect 32 (crc ^^^ 0xFFFFFFFF) 0).toNat =
      remainderOf (crc ^^^ 0xFFFFFFFF) := by
    rw [toNat_unreflect (w := 0) (by omega) (by decide)]
    exact hreflected
  have hspec := boost.spec (unreflect 32 (crc ^^^ 0xFFFFFFFF) 0) data
  rw [hinitial] at hspec
  exact IsCrc32c.eq hspec (isCrc32c_crc32cExtend crc data)

/-! ### The function the log calls -/

/-- A machine: its processor has the instruction or not. -/
structure Machine where
  instruction : Option Crc32Instruction
  boost : CrcOptimal

/-- `crc32c_extend`, for bytes at an address. -/
def Machine.extend (machine : Machine) (address : UInt64) (crc : UInt32) (data : Bytes) : UInt32 :=
  match machine.instruction with
  | some instruction => crc32cHardware instruction address crc data
  | none => crc32cSoftware machine.boost crc data

theorem Machine.extend_eq (machine : Machine) (address : UInt64) (crc : UInt32) (data : Bytes) :
    machine.extend address crc data = crc32cExtend crc data := by
  unfold Machine.extend
  split
  · exact crc32cHardware_eq _ _ _ _
  · exact crc32cSoftware_eq _ _ _

/-- A piece of a string: the machine that sees it and where it stands there. -/
structure Piece where
  machine : Machine
  address : UInt64
  data : Bytes

/-- The checksum extended over pieces. -/
def extendPieces (crc : UInt32) (pieces : List Piece) : UInt32 :=
  pieces.foldl (fun crc piece => piece.machine.extend piece.address crc piece.data) crc

theorem extendPieces_eq (crc : UInt32) (pieces : List Piece) :
    extendPieces crc pieces = crc32cExtend crc (pieces.flatMap Piece.data) := by
  induction pieces generalizing crc with
  | nil =>
    rw [List.flatMap_nil, crc32cExtend, List.foldl_nil, UInt32.xor_assoc, UInt32.xor_self,
      UInt32.xor_zero]
    rfl
  | cons piece pieces ih =>
    show extendPieces (piece.machine.extend piece.address crc piece.data) pieces = _
    rw [ih, piece.machine.extend_eq, List.flatMap_cons, crc32cExtend_append]

/-- **The checksum of an event frame is the one the reader computes over the body.** -/
theorem frameHeader_eq {event : LogEvent} {extensions : List EventExtension}
    {eventFrame : EventFrame} (h : encodeEvent event extensions = some eventFrame) :
    let body := eventFrame.head ++ eventFrame.record ++ eventFrame.tail
    eventFrame.frameHeader =
        putLittleEndian body.length 4 ++ putLittleEndian (crc32cExtend 0 body).toNat 4 ∧
      ∀ rest, readFrame (eventFrame.bytes ++ rest) = .record body := by
  obtain ⟨parts, hparts, hbytes, hsized⟩ := eventFrame_bytes h
  obtain ⟨parts', hparts', -, hhead, hrecord, htail⟩ := encodeEvent_eq_some h
  obtain rfl := Option.some.inj (hparts.symm.trans hparts')
  have hbody : eventFrame.head ++ eventFrame.record ++ eventFrame.tail =
      RecordType.Event.byte :: (parts.head ++ parts.record ++ parts.tail) := by
    rw [hhead, hrecord, htail]
    simp only [List.cons_append, List.append_assoc]
  intro body
  have hsplit : eventFrame.bytes = eventFrame.frameHeader ++ body := by
    simp only [body, EventFrame.bytes, List.append_assoc]
  rw [← hbody] at hbytes hsized
  constructor
  · -- the frame header is what stands before the body
    rw [hsplit, frame] at hbytes
    exact List.append_cancel_right hbytes
  · intro rest
    rw [hbytes]
    exact readFrame_frame hsized rest

/-- **The checksum is one function.**  The hardware path, wherever the bytes stand, and the
software path both give the checksum of the definition; pieces of a string, each on a machine
of its own, give the checksum of the string; and the checksum in the header of an event frame,
taken over the head, the record and the tail, is the one a reader takes over the body. -/
theorem crc32c_agrees (instruction : Crc32Instruction) (boost : CrcOptimal) (address : UInt64)
    (crc : UInt32) (data : Bytes) :
    (crc32cHardware instruction address crc data = crc32cSoftware boost crc data ∧
      ∀ result, IsCrc32c crc data result ↔ result = crc32cSoftware boost crc data) ∧
    (∀ (machine : Machine) (pieces : List Piece), pieces.flatMap Piece.data = data →
      extendPieces crc pieces = machine.extend address crc data) ∧
    ∀ (event : LogEvent) (extensions : List EventExtension) (eventFrame : EventFrame),
      encodeEvent event extensions = some eventFrame →
      ∀ head record tail : Piece, head.data = eventFrame.head →
      record.data = eventFrame.record → tail.data = eventFrame.tail →
      eventFrame.frameHeader =
          putLittleEndian (eventFrame.head ++ eventFrame.record ++ eventFrame.tail).length 4 ++
            putLittleEndian (extendPieces 0 [head, record, tail]).toNat 4 ∧
        ∀ (machine : Machine) (address : UInt64) (rest : Bytes),
          extendPieces 0 [head, record, tail] =
            machine.extend address 0 (eventFrame.head ++ eventFrame.record ++ eventFrame.tail) ∧
          readFrame (eventFrame.bytes ++ rest) =
            .record (eventFrame.head ++ eventFrame.record ++ eventFrame.tail) := by
  refine ⟨⟨?_, ?_⟩, ?_, ?_⟩
  · rw [crc32cHardware_eq, crc32cSoftware_eq]
  · intro result
    rw [crc32cSoftware_eq]
    constructor
    · intro h
      exact h.eq (isCrc32c_crc32cExtend crc data)
    · intro h
      rw [h]
      exact isCrc32c_crc32cExtend crc data
  · intro machine pieces hdata
    rw [extendPieces_eq, hdata, machine.extend_eq]
  · intro event extensions eventFrame h head record tail hhead hrecord htail
    obtain ⟨hheader, hread⟩ := frameHeader_eq h
    have hpieces : extendPieces 0 [head, record, tail] =
        crc32cExtend 0 (eventFrame.head ++ eventFrame.record ++ eventFrame.tail) := by
      rw [extendPieces_eq, ← hhead, ← hrecord, ← htail]
      simp only [List.flatMap_cons, List.flatMap_nil, List.append_nil, List.append_assoc]
    refine ⟨by rw [hpieces]; exact hheader, ?_⟩
    intro machine address rest
    exact ⟨by rw [hpieces, machine.extend_eq], hread rest⟩

/-- An instruction and a library that compute bit by bit. -/
def bitwiseInstruction : Crc32Instruction where
  u8 := crcByte
  u64 rem word := ((putLittleEndian word.toNat 8).foldl crcByte rem.toUInt32).toUInt64
  u8_spec rem byte :=
    eq_modByMonic monic_castagnoli (degree_remainderOf _) (mk_crcByte rem byte)
  u64_spec := by
    intro rem word
    have hword : messageOf (putLittleEndian word.toNat 8) = lowFirst 64 word.toNat := by
      have hbytes := lowFirst_getLittleEndian (putLittleEndian word.toNat 8)
      rw [length_putLittleEndian, getLittleEndian_putLittleEndian word.toNat_lt] at hbytes
      exact hbytes.symm
    have hrem : remainderOf rem.toUInt32 = lowFirst 32 rem.toNat := remainderOf_toUInt32 rem
    rw [UInt32.toNat_toUInt64]
    refine ⟨UInt32.toNat_lt _, ?_⟩
    have hfold := remainderOf_foldl rem.toUInt32 (putLittleEndian word.toNat 8)
    rw [remainderAfter, hword, length_putLittleEndian, hrem] at hfold
    exact hfold

@[inherit_doc bitwiseInstruction]
def bitwiseOptimal : CrcOptimal where
  checksum initial data :=
    data.foldl crcByte (unreflect 32 initial 0) ^^^ 0xFFFFFFFF
  spec := by
    intro initial data
    have hinitial : remainderOf (unreflect 32 initial 0) = highFirst 32 initial.toNat := by
      have hreflected := lowFirst_reverseBits 32 0 initial.toNat 0
      rw [lowFirst_zero, pow_zero, one_mul, add_zero, zero_add] at hreflected
      rw [remainderOf, toNat_unreflect (w := 0) (by omega) (by decide)]
      exact hreflected
    rw [UInt32.xor_assoc, UInt32.xor_self, UInt32.xor_zero, remainderOf_foldl, hinitial]

/-- On the nine digits both paths give the check value of the checksum; an event of a machine
without the instruction is read on one with it. -/
theorem crc32c_agrees_digits :
    let digits : Bytes := [0x31, 0x32, 0x33, 0x34, 0x35, 0x36, 0x37, 0x38, 0x39]
    let event : LogEvent := ⟨7, 100, 1, 0, [0x61]⟩
    let plain : Machine := ⟨none, bitwiseOptimal⟩
    let other : Machine := ⟨some bitwiseInstruction, bitwiseOptimal⟩
    crc32cHardware bitwiseInstruction 3 0 digits = 0xE3069283 ∧
      extendPieces 0 [⟨plain, 3, digits.take 4⟩, ⟨other, 7, digits.drop 4⟩] = 0xE3069283 ∧
      ∃ eventFrame, encodeEvent event [] = some eventFrame ∧
        extendPieces 0 [⟨plain, 0, eventFrame.head⟩, ⟨plain, 1, eventFrame.record⟩,
          ⟨plain, 2, eventFrame.tail⟩] =
        other.extend 5 0 (eventFrame.head ++ eventFrame.record ++ eventFrame.tail) := by
  intro digits event plain other
  have hcheck : crc32cExtend 0 digits = 0xE3069283 := by decide +kernel
  obtain ⟨⟨hpaths, -⟩, hpieces, hframes⟩ :=
    crc32c_agrees bitwiseInstruction bitwiseOptimal 3 0 digits
  refine ⟨by rw [hpaths, crc32cSoftware_eq, hcheck], ?_, ?_⟩
  · rw [hpieces plain _ rfl, plain.extend_eq, hcheck]
  · obtain ⟨eventFrame, hframe⟩ : ∃ eventFrame, encodeEvent event [] = some eventFrame :=
      Option.isSome_iff_exists.mp (by decide +kernel)
    obtain ⟨-, hread⟩ := hframes event [] eventFrame hframe ⟨plain, 0, eventFrame.head⟩
      ⟨plain, 1, eventFrame.record⟩ ⟨plain, 2, eventFrame.tail⟩ rfl rfl rfl
    exact ⟨eventFrame, hframe, (hread other 5 []).1⟩

end Wal

end ChronoLog
