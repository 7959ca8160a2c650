import Mathlib

/-!
# Codes that are read from the start of a string

A decoder reads one value from the start of its input and does not look at what follows.
An input that ends too early is told apart from one that no continuation can repair.  The
laws of such a pair of functions say what a strict part of an encoding decodes to and that
no encoding continues another.

## Main definitions

* `PrefixCode.Lawful` — the laws of an encoder and a decoder.

## Main results

* `PrefixCode.Lawful.decode_strict` — what is cut off an encoding is missed.
* `PrefixCode.Lawful.eq_of_isPrefix` — no encoding continues another one.
-/

namespace PrefixCode

variable {α β ε : Type*}

/-- The laws of an encoder, which may refuse a value, and a decoder that answers `short`
where its input ends too early. -/
structure Lawful (encode : α → Option (List β)) (decode : List β → Except ε α) (short : ε) :
    Prop where
  decode_append : ∀ {a bs}, encode a = some bs → ∀ rest, decode (bs ++ rest) = .ok a
  encode_of_decode : ∀ {data a}, decode data = .ok a → ∃ bs, encode a = some bs ∧ bs <+: data
  error_append : ∀ {data e}, decode data = .error e → e ≠ short → ∀ rest,
    decode (data ++ rest) = .error e

namespace Lawful

variable {encode : α → Option (List β)} {decode : List β → Except ε α} {short : ε}

theorem decode_encode (h : Lawful encode decode short) {a : α} {bs : List β}
    (henc : encode a = some bs) : decode bs = .ok a := by
  have hdec := h.decode_append henc []
  rwa [List.append_nil] at hdec

/-- No encoding continues another one. -/
theorem eq_of_isPrefix (h : Lawful encode decode short) {a b : α} {bs bs' : List β}
    (ha : encode a = some bs) (hb : encode b = some bs') (hpre : bs <+: bs') : a = b := by
  obtain ⟨rest, rfl⟩ := hpre
  have hdec := (h.decode_append ha rest).symm.trans (h.decode_encode hb)
  exact Except.ok.inj hdec

/-- **A strict part of an encoding, from its start, ends too early.** -/
theorem decode_strict (h : Lawful encode decode short) {a : α} {data bs : List β}
    (henc : encode a = some bs) (hpre : data <+: bs) (hne : data ≠ bs) :
    decode data = .error short := by
  obtain ⟨rest, rfl⟩ := hpre
  have hwhole := h.decode_encode henc
  cases hdec : decode data with
  | ok b =>
    -- the part would hold an encoding, which is the whole one
    obtain ⟨bs', hb, hpart⟩ := h.encode_of_decode hdec
    have heq := h.eq_of_isPrefix hb henc (hpart.trans (List.prefix_append _ _))
    rw [heq, henc, Option.some.injEq] at hb
    have hle := hpart.length_le
    rw [← hb, List.length_append] at hle
    have hnil : rest = [] := List.length_eq_zero_iff.mp (by omega)
    exact absurd (by rw [hnil, List.append_nil]) hne
  | error e =>
    by_contra hshort
    have herr := h.error_append hdec (fun heq => hshort (by rw [heq])) rest
    rw [hwhole] at herr
    cases herr

end Lawful

end PrefixCode
