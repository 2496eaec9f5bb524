import IotClient.Coap.Decoding

/-!
# The payload of a CoAP message

`PayloadBack p`: given exactly the bytes `coap_encode` returns, `coap_decode` finds the payload
of `p`. It never does (`payloadBack_never`): it counts the marker among the bytes of the
payload, and so reads the byte behind the last one.
-/

namespace IotClient.Coap

open Mem

/-- `coap_encode` succeeds, and decoding the bytes it returns, with no byte to read behind
them, gives the payload. -/
def PayloadBack (p : CoapPacket) : Prop :=
  ∃ c, coapEncode p.message = .ok c ∧ ∀ junk, ∃ m,
    coapDecode (Block.bytes junk (c.buf.take c.i)) c.i = .ok (some m) ∧ m.payload = p.payload

/-- The bytes an encoder returned are those it wrote. -/
theorem bytes_take_part (junk : Nat → UInt8) (pre : List UInt8) (k : Nat) :
    Block.bytes junk ((Block.part pre k).take pre.length) = pre := by
  obtain ⟨tail, hlen, htail⟩ := Block.bytes_part junk pre 0
  rw [Block.take_part, ← Block.part_zero, htail, List.eq_nil_of_length_eq_zero hlen, List.append_nil]

theorem payload_unset {p : CoapPacket} {c : Cursor} {junk : Nat → UInt8} {m : CoapMessage}
    (henc : coapEncode p.message = .ok c)
    (hdec : coapDecode (Block.bytes junk (c.buf.take c.i)) c.i = .ok (some m)) : m.payload = .indet := by
  obtain ⟨payload, hp⟩ := payload_of_coapEncode henc
  rw [coapEncode_eq hp] at henc
  obtain ⟨-, -, rfl⟩ := encodeInto_ok henc
  simp only [bytes_take_part] at hdec
  exact coapDecode_exact hdec

theorem payloadBack_never (p : CoapPacket) : ¬ PayloadBack p := by
  rintro ⟨c, henc, hdec⟩
  obtain ⟨m, hm, hback⟩ := hdec fun _ => 0
  exact p.payload_set (hback.symm.trans (payload_unset henc hm))

/-- A message with the payload `hi`, without options. -/
def payloadHi : CoapPacket where
  type := .confirmable
  code := .put
  messageId := 1
  token := .ofBytes [0x31]
  options := []
  payload := .ref (.ofBytes [0x68, 0x69])
  token_le := token_one
  sorted := PacketOption.sorted_nil
  payload_set := by simp

/-- The decoder reads the byte behind `hi`. -/
theorem payloadHi_not_back : coapDecode payloadHi.wire payloadHi.wire.length = .error .readOut ∧
    ¬ PayloadBack payloadHi := by
  refine ⟨payloadHi.coapDecode_alone trivial, ?_⟩
  rintro ⟨c, henc, hdec⟩
  obtain ⟨m, hm, hback⟩ := hdec fun _ => 0
  exact payloadHi.payload_set (hback.symm.trans (payload_unset henc hm))

end IotClient.Coap
