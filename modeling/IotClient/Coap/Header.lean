import IotClient.Coap.Decoding

/-!
# Header and token of a CoAP message

`HeaderBack p`: encoded and decoded, the message `p` comes back with its version, type, code,
message id and token. The decoder keeps one bit of the type and leaves an empty token
unassigned, and the encoder splits the code as a decimal number, so that a code comes back
when its last two digits are below 32.
-/

namespace IotClient.Coap

open Mem

/-- The decoded message has the header and the token of `p`. -/
def SameHeader (m : CoapMessage) (p : CoapPacket) : Prop :=
  m.version = 1 ∧ m.type = p.type.value ∧ m.code = p.code.value ∧ m.messageId = p.messageId ∧
    m.token = .ref p.token

/-- `coap_encode` succeeds, and decoding its block gives header and token back, whatever the
cells hold that were not written. -/
def HeaderBack (p : CoapPacket) : Prop :=
  ∃ c, coapEncode p.message = .ok c ∧ ∀ junk, ∃ m,
    coapDecode (c.buf.bytes junk) c.i = .ok (some m) ∧ SameHeader m p

/-- The type is one of two, the code has its last digits below 32, and the token is not
empty. -/
def HeaderKept (p : CoapPacket) : Prop :=
  (p.type = .confirmable ∨ p.type = .acknowledgement) ∧ p.code.value % 100 < 32 ∧
    p.token.bytes ≠ []

/-- The payload is a string, and the encoding is shorter than the block `coap_encode`
allocates. -/
def HasRoom (p : CoapPacket) : Prop :=
  ∃ payload, p.payload = .ref payload ∧ p.wire.length < 256 + payload.bytes.length

theorem type_kept (type : CoapType) :
    type.value &&& 2 = type.value ↔ type = .confirmable ∨ type = .acknowledgement := by
  cases type <;> decide

theorem sameHeader_decoded (p : CoapPacket) (options : List CoapOption) (payload : Ptr CString) :
    SameHeader (p.decoded options payload) p ↔ HeaderKept p := by
  have htoken : (if p.token.bytes = [] then .indet else .ref p.token) = Ptr.ref p.token ↔
      p.token.bytes ≠ [] := by
    by_cases h : p.token.bytes = []
    · simp [h]
    · simp [h]
  simp only [SameHeader, HeaderKept, CoapPacket.decoded, type_kept, codeBack_eq, htoken, true_and]

theorem kept_of_headerBack {p : CoapPacket} (hfit : OptionsFit 0 p.options) (h : HeaderBack p) :
    HeaderKept p ∧ HasRoom p := by
  obtain ⟨c, henc, hdec⟩ := h
  obtain ⟨payload, hp⟩ := payload_of_coapEncode henc
  rw [coapEncode_eq hp] at henc
  obtain ⟨-, hroom, rfl⟩ := encodeInto_ok henc
  obtain ⟨tail, hlen, htail⟩ :=
    Block.bytes_part (fun _ => 0) p.wire (256 + payload.bytes.length - p.wire.length)
  obtain ⟨m, hm, hsame⟩ := hdec fun _ => 0
  simp only [htail] at hm
  by_cases hnil : tail = []
  · rw [hnil, List.append_nil, p.coapDecode_alone hfit] at hm
    cases hm
  · have hpos := List.length_pos_iff.mpr hnil
    obtain ⟨payload', hfull⟩ := p.coapDecode_fit hfit hnil
    rw [hfull] at hm
    cases hm
    exact ⟨(sameHeader_decoded p _ _).mp hsame, payload, hp, by omega⟩

theorem headerBack_of_kept {p : CoapPacket} (hfit : OptionsFit 0 p.options) (hkept : HeaderKept p)
    (hroom : HasRoom p) : HeaderBack p := by
  obtain ⟨payload, hp, hroom⟩ := hroom
  refine ⟨_, (coapEncode_eq hp).trans ((encodeInto_message hp _).trans (emitted_of_le hroom.le)),
    fun junk => ?_⟩
  obtain ⟨tail, hlen, htail⟩ :=
    Block.bytes_part junk p.wire (256 + payload.bytes.length - p.wire.length)
  have hne : tail ≠ [] := List.ne_nil_of_length_pos (by omega)
  obtain ⟨payload', hdec⟩ := p.coapDecode_fit hfit hne
  refine ⟨p.decoded (p.options.map PacketOption.decoded) payload', ?_,
    (sameHeader_decoded p _ _).mpr hkept⟩
  simp only [htail, hdec]

/-- Which header and token come back, for options that do. -/
theorem headerBack_iff (p : CoapPacket) (hfit : OptionsFit 0 p.options) :
    HeaderBack p ↔ HeaderKept p ∧ HasRoom p :=
  ⟨kept_of_headerBack hfit, fun h => headerBack_of_kept hfit h.1 h.2⟩

/-- A message with a type, a code and a token, no options and no payload. -/
def bare (type : CoapType) (code : CoapCode) : CoapPacket where
  type := type
  code := code
  messageId := 1
  token := .ofBytes [0x32]
  options := []
  payload := .ref ∅
  token_le := by decide
  sorted := PacketOption.sorted_nil
  payload_set := by simp

theorem headerBack_iff_bare :
    OptionsFit 0 (bare .confirmable .get).options ∧
      (HeaderBack (bare .confirmable .get) ↔
        HeaderKept (bare .confirmable .get) ∧ HasRoom (bare .confirmable .get)) :=
  ⟨trivial, headerBack_iff (bare .confirmable .get) trivial⟩

/-- CREATED, encoded as a byte of 65, comes back as 201. -/
theorem created_not_back : OptionsFit 0 (bare .confirmable .created).options ∧
    ¬ HeaderBack (bare .confirmable .created) := by
  refine ⟨trivial, fun h => ?_⟩
  have hkept := (kept_of_headerBack (p := bare .confirmable .created) trivial h).1
  exact absurd hkept.2.1 (by decide)

end IotClient.Coap
