import IotClient.Amqp.Encoding

/-!
# Strings, symbols and binaries on the wire

The wrappers take the narrow format code for up to 255 bytes and the wide one for more.
`wrapSized_iff` says for which lengths they write the value's encoding: the wide length is copied
in the byte order of the target.
-/

namespace IotClient.Amqp

open Mem

/-- A value whose encoding has a length. -/
inductive SizedValue where
  | string (s : CString)
  | symbol (s : CString)
  | binary (data : List UInt8)

namespace SizedValue

def kind : SizedValue → VariableKind
  | string _ => .string
  | symbol _ => .symbol
  | binary _ => .binary

def bytes : SizedValue → List UInt8
  | string s | symbol s => s.bytes
  | binary data => data

def wrap : SizedValue → Run TlvAmqp
  | string s => wrapString s
  | symbol s => wrapSymbol ⟨.ref s⟩
  | binary data => wrapBinary data data.length

/-- The value, with a length field that is no wider than it has to be. -/
def value (v : SizedValue) : Val :=
  .sized (if v.bytes.length ≤ 255 then .narrow else .wide) v.kind v.bytes

/-- The wrapper writes the encoding of the value. -/
def Written (v : SizedValue) : Prop := ∃ tlv, v.wrap = .ok tlv ∧ Holds tlv v.value.enc

theorem wrap_holds (v : SizedValue) :
    ∃ tlv, v.wrap = .ok tlv ∧ Holds tlv (sizedBytes v.kind v.bytes) := by
  cases v with
  | string s => exact wrapString_holds s
  | symbol s => exact wrapSymbol_holds s
  | binary data => exact wrapBinary_holds data

theorem written_iff (v : SizedValue) : v.Written ↔ sizedBytes v.kind v.bytes = v.value.enc := by
  obtain ⟨tlv, htlv, hholds⟩ := v.wrap_holds
  constructor
  · rintro ⟨tlv', htlv', hholds'⟩
    obtain rfl : tlv = tlv' := Except.ok.inj (htlv.symm.trans htlv')
    exact List.map_injective_iff.2 (Option.some_injective UInt8)
      (hholds.fills.unique hholds'.fills)
  · exact fun h => ⟨tlv, htlv, h ▸ hholds⟩

end SizedValue

theorem enc_sized (w : Width) (kind : VariableKind) (data : List UInt8) :
    (Val.sized w kind data).enc = (w.variableType kind).toByte :: (w.field data.length ++ data) := rfl

theorem sizedBytes_eq_iff (kind : VariableKind) (data : List UInt8) :
    sizedBytes kind data =
        (Val.sized (if data.length ≤ 255 then .narrow else .wide) kind data).enc ↔
      data.length ≤ 255 ∨
        (intBytes (UInt32.ofNat data.length)).reverse = intBytes (UInt32.ofNat data.length) := by
  rw [enc_sized, sizedBytes]
  by_cases h : data.length ≤ 255
  · rw [if_pos h, if_pos h]
    exact iff_of_true rfl (.inl h)
  · rw [if_neg h, if_neg h, List.cons.injEq, List.append_left_inj, littleInt, int_ofInt_natCast,
      or_iff_right h]
    exact and_iff_right rfl

/-- The wrapper writes another length. -/
theorem SizedValue.not_written {v : SizedValue} {n : Nat} (hn : v.bytes.length = n) (h : 255 < n)
    (hrev : (intBytes (UInt32.ofNat n)).reverse ≠ intBytes (UInt32.ofNat n)) : ¬ v.Written := by
  intro hwritten
  subst hn
  rcases (sizedBytes_eq_iff v.kind v.bytes).1 (v.written_iff.1 hwritten) with hle | hsame
  · omega
  · exact hrev hsame

/-- A length field is right when it has one byte, or when its four bytes read the same both
ways. -/
theorem wrapSized_iff (v : SizedValue) :
    v.Written ↔ v.bytes.length ≤ 255 ∨
      (intBytes (UInt32.ofNat v.bytes.length)).reverse = intBytes (UInt32.ofNat v.bytes.length) :=
  v.written_iff.trans (sizedBytes_eq_iff v.kind v.bytes)

/-- 256 letters are written with the length 65536. -/
theorem letters256_not_written :
    ¬ (SizedValue.string ⟨List.replicate 256 0x61,
      fun h => absurd (List.eq_of_mem_replicate h) (by decide)⟩).Written :=
  SizedValue.not_written (List.length_replicate ..) (by decide) (by decide)

end IotClient.Amqp
