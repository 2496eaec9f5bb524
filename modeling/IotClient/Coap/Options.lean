import IotClient.Coap.Decoding

/-!
# The options of a CoAP message

`OptionsBack room p`: encoded into a block of `room` bytes and decoded from it, the message `p`
comes back with its options. It does when every delta and every length survives the encoding
(`OptionsFit`: deltas outside 255 to 268, lengths up to 254), the payload is a string, and the
block has one byte more than the encoding takes, since the decoder reads that byte. Otherwise
it does not, unless the value of an option of 269 bytes or more happens to be the extension
bytes of its own length, over and over.
-/

namespace IotClient.Coap

open Mem

/-- The decoded message has these options, in this order. -/
def SameOptions (m : CoapMessage) (os : List PacketOption) : Prop :=
  m.optionsAmount = os.length ∧
    ∃ cos, m.options.elems os.length = .ok cos ∧ List.Forall₂ PacketOption.Holds os cos

/-- Encoding succeeds, and decoding gives the options back, whatever the cells hold that were
not written. -/
def OptionsBack (room : Nat) (p : CoapPacket) : Prop :=
  ∃ c, encodeInto room p.message = .ok c ∧ ∀ junk, ∃ m,
    coapDecode (c.buf.bytes junk) c.i = .ok (some m) ∧ SameOptions m p.options

/-- The options survive, and the block has room for the byte the decoder reads behind the
encoding. -/
def Survives (room : Nat) (p : CoapPacket) : Prop :=
  OptionsFit 0 p.options ∧ p.payload ≠ .null ∧ p.wire.length < room

theorem forall₂_decoded (os : List PacketOption) :
    List.Forall₂ PacketOption.Holds os (os.map PacketOption.decoded) := by
  induction os with
  | nil => exact .nil
  | cons o os ih => exact .cons o.holds_decoded ih

theorem elems_decoded (p : CoapPacket) (options : List CoapOption) (payload : Ptr CString) :
    (p.decoded options payload).options.elems options.length = .ok options := by
  rw [CoapPacket.decoded]
  by_cases h : options = []
  · rw [h]; rfl
  · rw [if_neg h, Ptr.elems_ref]

theorem sameOptions_decoded (p : CoapPacket) (payload : Ptr CString) :
    SameOptions (p.decoded (p.options.map PacketOption.decoded) payload) p.options := by
  refine ⟨by simp [CoapPacket.decoded], p.options.map PacketOption.decoded, ?_, forall₂_decoded _⟩
  have helems := elems_decoded p (p.options.map PacketOption.decoded) payload
  rwa [List.length_map] at helems

theorem optionsBack_of_survives {room : Nat} {p : CoapPacket} (h : Survives room p) :
    OptionsBack room p := by
  obtain ⟨hfit, hnull, hroom⟩ := h
  obtain ⟨payload, hp⟩ := p.payload_ref hnull
  refine ⟨_, (encodeInto_message hp room).trans (emitted_of_le hroom.le), fun junk => ?_⟩
  obtain ⟨tail, hlen, htail⟩ := Block.bytes_part junk p.wire (room - p.wire.length)
  have hne : tail ≠ [] := List.ne_nil_of_length_pos (by omega)
  obtain ⟨payload', hdec⟩ := p.coapDecode_fit hfit hne
  exact ⟨_, by simp only [htail, hdec], sameOptions_decoded p payload'⟩

theorem fit_of_sameOptions {p : CoapPacket} {tail : List UInt8} {m : CoapMessage}
    (h : coapDecode (p.wire ++ tail) p.wire.length = .ok (some m)) (hsame : SameOptions m p.options) :
    OptionsFit 0 p.options ∨ ∃ o ∈ p.options, o.Echoes := by
  have hsplit : p.wire ++ tail = p.head ++ (optionsBytes 0 p.options ++ (p.foot ++ tail)) := by
    simp [CoapPacket.wire]
  have hlen := p.length_wire
  unfold CoapPacket.footStart at hlen
  rw [hsplit, p.coapDecode_head] at h
  obtain ⟨r, hr, h⟩ := bind_eq_ok.mp h
  split at h
  case h_2 => cases h
  case h_1 options i =>
    obtain ⟨payload, -, h⟩ := bind_eq_ok.mp h
    cases h
    obtain ⟨hamount, cos, hcos, hall⟩ := hsame
    have hcount : p.options.length = options.length := Int.ofNat_inj.mp hamount.symm
    rw [hcount, elems_decoded] at hcos
    cases hcos
    exact fit_of_decodeOptions p.options [] p.ascending List.drop_left (by omega) hr hall

/-- Options that come back fit, unless a value echoes an extension; and the block has room for
the byte behind the encoding. -/
theorem survives_of_optionsBack {room : Nat} {p : CoapPacket} (h : OptionsBack room p) :
    Survives room p ∨ ∃ o ∈ p.options, o.Echoes := by
  obtain ⟨c, henc, hdec⟩ := h
  obtain ⟨⟨payload, hp⟩, hroom, rfl⟩ := encodeInto_ok henc
  obtain ⟨m, hm, hsame⟩ := hdec fun _ => 0
  obtain ⟨tail, hlen, htail⟩ := Block.bytes_part (fun _ => 0) p.wire (room - p.wire.length)
  simp only [htail] at hm
  rcases fit_of_sameOptions hm hsame with hfit | hecho
  · refine .inl ⟨hfit, by simp [hp], ?_⟩
    by_contra hlt
    have hnil : tail = [] := List.eq_nil_of_length_eq_zero (by omega)
    rw [hnil, List.append_nil, p.coapDecode_alone hfit] at hm
    cases hm
  · exact .inr hecho

/-- The options of a message come back when they survive the encoding, and hardly ever
otherwise. -/
theorem optionsBack_survives (room : Nat) (p : CoapPacket) :
    (Survives room p → OptionsBack room p) ∧
      (OptionsBack room p → Survives room p ∨ ∃ o ∈ p.options, o.Echoes) :=
  ⟨optionsBack_of_survives, survives_of_optionsBack⟩

/-- Number 260, without a value. -/
def number260 : PacketOption := ⟨260, [], by decide, by decide⟩

/-- A message with that option. -/
def farOption : CoapPacket where
  type := .confirmable
  code := .get
  messageId := 1
  token := .ofBytes [0x31]
  options := [number260]
  payload := .ref (.ofBytes [])
  token_le := token_one
  sorted := List.pairwise_singleton _ _
  payload_set := by simp

/-- Its delta is read as 65796. -/
theorem decodeOptions_farOption (tail : List UInt8) :
    decodeOptions (farOption.wire ++ tail) farOption.wire.length ((farOption.wire ++ tail).length + 1)
      farOption.head.length farOption.head.length 0 [] =
        .ok (some ([⟨65796, 0, .null⟩], farOption.footStart)) := by
  have hfoot : (farOption.wire ++ tail).drop farOption.footStart = optionsBytes 65796 [] ++ 0xff :: tail :=
    farOption.drop_footStart tail
  have hoption : (farOption.wire ++ tail).drop farOption.head.length =
      optionBytes (number260.number - 0) number260 ++ (farOption.foot ++ tail) :=
    (farOption.drop_head tail).trans (List.append_assoc _ [] _)
  refine (decodeOptions_cons (n := 0) (by decide) hoption).trans ?_
  rw [decodeOption_wrapped (n := 0) (Nat.zero_le _) (Nat.zero_le _) hoption, ok_bind]
  have hnone : Ascending 65796 [] := ⟨fun _ h => absurd h List.not_mem_nil, .nil⟩
  have hfuel : 0 < (farOption.wire ++ tail).length := by
    rw [List.length_append]
    exact Nat.lt_add_right _ (by decide)
  exact decodeOptions_fit [] _ _ hnone trivial hfoot (by decide) hfuel

theorem coapDecode_farOption {tail : List UInt8} (htail : tail ≠ []) :
    ∃ payload, coapDecode (farOption.wire ++ tail) farOption.wire.length =
      .ok (some (farOption.decoded [⟨65796, 0, .null⟩] payload)) := by
  obtain ⟨z, rest, rfl⟩ := List.exists_cons_of_ne_nil htail
  have hfoot := decodePayload_eq (farOption.drop_footStart (z :: rest))
  rw [← farOption.length_wire] at hfoot
  have hsplit : farOption.wire ++ z :: rest =
      farOption.head ++ (optionsBytes 0 farOption.options ++ (farOption.foot ++ z :: rest)) := rfl
  have hopts := decodeOptions_farOption (z :: rest)
  rw [hsplit] at hopts hfoot ⊢
  rw [farOption.coapDecode_head, hopts, ok_bind]
  simp only [hfoot, ok_bind]
  exact ⟨_, rfl⟩

/-- Its number comes back as 65796. -/
theorem farOption_not_back :
    (∃ c, encodeInto 256 farOption.message = .ok c ∧ ∀ junk, ∃ payload,
      coapDecode (c.buf.bytes junk) c.i =
        .ok (some (farOption.decoded [⟨65796, 0, .null⟩] payload))) ∧
    ¬ OptionsBack 256 farOption := by
  refine ⟨⟨_, (encodeInto_message rfl 256).trans (emitted_of_le (by decide)), fun junk => ?_⟩,
    fun h => ?_⟩
  · obtain ⟨tail, hlen, htail⟩ := Block.bytes_part junk farOption.wire (256 - farOption.wire.length)
    have hne : tail ≠ [] := List.ne_nil_of_length_pos (hlen ▸ by decide)
    obtain ⟨payload, hdec⟩ := coapDecode_farOption hne
    exact ⟨payload, by simp only [htail, hdec]⟩
  · rcases survives_of_optionsBack h with ⟨⟨hfits, -⟩, -⟩ | ⟨o, ho, hecho⟩
    · exact hfits.1 (by decide)
    · rw [List.mem_singleton.mp ho] at hecho
      exact absurd hecho.1 (by decide)

end IotClient.Coap
