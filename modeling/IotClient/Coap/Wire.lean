import IotClient.Coap.Parser

/-!
# Encoded CoAP messages

`CoapPacket` is a CoAP message with its options in ascending order, `message` the struct that
stands for it, and `wire` the bytes `coapEncode` makes of it (`encodeInto_message`).
-/

namespace IotClient.Coap

open Mem

structure PacketOption where
  number : Nat
  value : List UInt8
  number_lt : number < 65536
  length_lt : value.length < 65536

structure CoapPacket where
  type : CoapType
  code : CoapCode
  messageId : UInt16
  token : CString
  options : List PacketOption
  payload : Ptr CString
  token_le : token.bytes.length ≤ 8
  sorted : options.Pairwise (·.number ≤ ·.number)
  payload_set : payload ≠ .indet

theorem PacketOption.sorted_nil :
    ([] : List PacketOption).Pairwise (·.number ≤ ·.number) := .nil

/-- The text `1` is a token. -/
theorem token_one : (CString.ofBytes [0x31]).bytes.length ≤ 8 := by decide

/-- The struct of an option. -/
def PacketOption.struct (o : PacketOption) : CoapOption := ⟨o.number, o.value.length, .ref o.value⟩

/-- The struct of a message. -/
def CoapPacket.message (p : CoapPacket) : CoapMessage where
  version := 1
  type := p.type.value
  code := p.code.value
  messageId := p.messageId
  token := .ref p.token
  tokenLength := .is p.token.bytes.length
  options := .ref (p.options.map PacketOption.struct)
  optionsAmount := p.options.length
  payload := p.payload

/-! ### The bytes -/

/-- The bytes that extend a delta or a length. -/
def extension (n : Nat) : List UInt8 :=
  if n < 13 then [] else if n < 0xff then [UInt8.ofInt (n - 13)]
  else shortBytes (UInt16.ofInt (n - 269))

def optionBytes (delta : Nat) (o : PacketOption) : List UInt8 :=
  UInt8.ofInt (nibble delta * 16 + nibble o.value.length) ::
    (extension delta ++ (extension o.value.length ++ o.value))

/-- The options behind one with a given number. -/
def optionsBytes : Nat → List PacketOption → List UInt8
  | _, [] => []
  | previousNumber, o :: os =>
    optionBytes (o.number - previousNumber) o ++ optionsBytes o.number os

/-- The bytes of the payload, whose length is kept in 16 bits. -/
def payloadBytes : Ptr CString → List UInt8
  | .ref payload => payload.bytes.take (UInt16.ofNat payload.strlen).toNat
  | _ => []

namespace CoapPacket

variable (p : CoapPacket)

/-- Header and token. -/
def head : List UInt8 :=
  firstByte 1 p.type.value (UInt16.ofNat p.token.strlen) :: codeByte p.code.value ::
    (shortBytes p.messageId ++ p.token.bytes)

/-- Marker and payload. -/
def foot : List UInt8 := 0xff :: payloadBytes p.payload

def wire : List UInt8 := p.head ++ (optionsBytes 0 p.options ++ p.foot)

theorem payload_ref (h : p.payload ≠ .null) : ∃ payload, p.payload = .ref payload := by
  cases hp : p.payload with
  | ref payload => exact ⟨payload, rfl⟩
  | null => exact absurd hp h
  | indet => exact absurd hp p.payload_set

theorem nulFree_payloadBytes : 0 ∉ payloadBytes p.payload := by
  cases p.payload with
  | ref payload => exact fun h => payload.nulFree (List.mem_of_mem_take h)
  | null => exact List.not_mem_nil
  | indet => exact List.not_mem_nil

end CoapPacket

/-! ### Encoding -/

/-- Options in ascending order, from a number on. -/
def Ascending (previousNumber : Nat) (os : List PacketOption) : Prop :=
  (∀ o ∈ os, previousNumber ≤ o.number) ∧ os.Pairwise (·.number ≤ ·.number)

theorem Ascending.head {n : Nat} {o : PacketOption} {os : List PacketOption}
    (h : Ascending n (o :: os)) : n ≤ o.number := h.1 o List.mem_cons_self

theorem Ascending.tail {n : Nat} {o : PacketOption} {os : List PacketOption}
    (h : Ascending n (o :: os)) : Ascending o.number os := List.pairwise_cons.mp h.2

theorem CoapPacket.ascending (p : CoapPacket) : Ascending 0 p.options :=
  ⟨fun _ _ => Nat.zero_le _, p.sorted⟩

theorem putExtension_emits (n : Nat) : Emits (putExtension n) (extension n) := by
  unfold putExtension extension
  by_cases h13 : n < 13
  · rw [if_pos (by omega : (n : Int) < 13), if_pos h13]
    exact .nil
  · rw [if_neg (by omega : ¬ (n : Int) < 13), if_neg h13]
    by_cases hff : n < 0xff
    · rw [if_pos (by omega : (n : Int) < 0xff), if_pos hff]
      exact .put _
    · rw [if_neg (by omega : ¬ (n : Int) < 0xff), if_neg hff]
      exact addShort_emits _

theorem encodeOptions_emits (os : List PacketOption) :
    ∀ {n : Nat}, Ascending n os →
      Emits (encodeOptions n (os.map PacketOption.struct)) (optionsBytes n os) := by
  induction os with
  | nil => exact fun _ => .nil
  | cons o os ih =>
    intro n h
    have hn := h.head
    have hdelta : o.struct.number - n = ((o.number - n : Nat) : Int) := by
      simp only [PacketOption.struct]
      omega
    have hvalue : o.struct.value.elems (UInt16.ofInt o.struct.length).toNat = .ok o.value := by
      have hl := o.length_lt
      simp only [PacketOption.struct]
      rw [short_ofInt_natCast, UInt16.toNat_ofNat', Nat.mod_eq_of_lt (by omega)]
      exact Ptr.elems_ref _
    rw [List.map_cons, encodeOptions]
    simp only [hdelta]
    refine .of_eq ((Emits.put _).seq ((putExtension_emits _).seq ((putExtension_emits _).seq
      (.lift_ok hvalue ((Emits.copy _).seq (ih h.tail)))))) ?_
    simp [optionsBytes, optionBytes, PacketOption.struct]

theorem encodeMessage_emits {p : CoapPacket} {payload : CString} (h : p.payload = .ref payload) :
    Emits (encodeMessage p.message) p.wire := by
  have htoken : (UInt16.ofNat p.token.strlen).toNat = p.token.bytes.length := by
    have := p.token_le
    rw [UInt16.toNat_ofNat', CString.strlen]
    omega
  have hoptions : p.message.options.elems p.message.optionsAmount.toNat =
      .ok (p.options.map PacketOption.struct) := by
    have hlen : p.message.optionsAmount.toNat = (p.options.map PacketOption.struct).length := by
      simp [CoapPacket.message]
    rw [hlen]
    exact Ptr.elems_ref _
  have hpayload : p.message.payload.deref = .ok payload := by
    unfold CoapPacket.message
    rw [h, Ptr.deref_ref]
  have hfoot : Emits (do
      let payload ← Enc.lift p.message.payload.deref
      Enc.copy (payload.bytes.take (UInt16.ofNat payload.strlen).toNat)) (payloadBytes p.payload) :=
    .of_eq (.lift_ok hpayload (.copy _)) (by rw [h, payloadBytes])
  have htail := (encodeOptions_emits p.options p.ascending).seq ((Emits.put 0xff).seq hfoot)
  refine .of_eq (.lift_ok (rfl : p.message.token.deref = .ok p.token) ((Emits.put _).seq
    ((Emits.put _).seq ((addShort_emits _).seq ((Emits.copy _).seq (.lift_ok hoptions htail)))))) ?_
  rw [htoken, List.take_length]
  simp [CoapPacket.wire, CoapPacket.head, CoapPacket.foot, CoapPacket.message]

/-- `coapEncode` leaves the bytes of the message at the front of its block. -/
theorem encodeInto_message {p : CoapPacket} {payload : CString} (h : p.payload = .ref payload)
    (room : Nat) : encodeInto room p.message = emitted room p.wire :=
  (encodeMessage_emits h).run room

/-- A message without a payload string is never encoded. -/
theorem payload_of_encodeInto {m : CoapMessage} {room : Nat} {c : Cursor}
    (h : encodeInto room m = .ok c) : ∃ payload, m.payload = .ref payload := by
  obtain ⟨r, h, -⟩ := bind_eq_ok.mp h
  unfold encodeMessage at h
  obtain ⟨_, _, -, h⟩ := Enc.bind_eq_ok.mp h
  obtain ⟨_, _, -, h⟩ := Enc.bind_eq_ok.mp h
  obtain ⟨_, _, -, h⟩ := Enc.bind_eq_ok.mp h
  obtain ⟨_, _, -, h⟩ := Enc.bind_eq_ok.mp h
  obtain ⟨_, _, -, h⟩ := Enc.bind_eq_ok.mp h
  obtain ⟨_, _, -, h⟩ := Enc.bind_eq_ok.mp h
  obtain ⟨_, _, -, h⟩ := Enc.bind_eq_ok.mp h
  obtain ⟨_, _, -, h⟩ := Enc.bind_eq_ok.mp h
  obtain ⟨payload, _, hpayload, -⟩ := Enc.bind_eq_ok.mp h
  cases hm : m.payload with
  | ref payload => exact ⟨payload, rfl⟩
  | null => rw [hm] at hpayload; cases hpayload
  | indet => rw [hm] at hpayload; cases hpayload

/-- What there is after encoding: the bytes of the message, and those never written behind
them. -/
theorem encodeInto_ok {p : CoapPacket} {room : Nat} {c : Cursor}
    (h : encodeInto room p.message = .ok c) :
    (∃ payload, p.payload = .ref payload) ∧ p.wire.length ≤ room ∧
      c = ⟨.part p.wire (room - p.wire.length), p.wire.length⟩ := by
  obtain ⟨payload, hp⟩ := payload_of_encodeInto h
  have hp : p.payload = .ref payload := hp
  rw [encodeInto_message hp, emitted] at h
  split at h
  case isTrue hle =>
    cases h
    exact ⟨⟨payload, hp⟩, hle, rfl⟩
  case isFalse => cases h

/-- `coap_encode` leaves 256 bytes besides the payload. -/
theorem coapEncode_eq {m : CoapMessage} {payload : CString} (h : m.payload = .ref payload) :
    coapEncode m = encodeInto (256 + payload.bytes.length) m := by
  unfold coapEncode bufSize
  rw [h]
  rfl

theorem payload_of_coapEncode {m : CoapMessage} {c : Cursor} (h : coapEncode m = .ok c) :
    ∃ payload, m.payload = .ref payload := by
  obtain ⟨room, -, h⟩ := bind_eq_ok.mp h
  exact payload_of_encodeInto h

end IotClient.Coap
