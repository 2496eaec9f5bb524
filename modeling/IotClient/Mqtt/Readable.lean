import IotClient.Mqtt.Parser

/-!
# What `decode` needs of its input

`decode` does not learn how many bytes were received. `Message.Assigned` says that every field
of a decoded message was set. The lemmas say, type by type, when the branch of `decode` stays
inside the bytes it was given, or when it gives an assigned message.
-/

namespace IotClient.Mqtt

open Mem

/-! ### Messages all of whose fields are set -/

def Topic.Assigned (t : Topic) : Prop := t.topicName ≠ .indet ∧ t.qos ≠ .indet

def Packet.Assigned : Packet → Prop
  | connect c => c.username ≠ .indet ∧ c.password ≠ .indet ∧ c.clientId ≠ .indet ∧
    c.will.topic.Assigned ∧ c.will.content ≠ .indet
  | publish p => p.topic.Assigned ∧ p.content ≠ .indet ∧ p.packetId ≠ .indet
  | subscribe s => s.topics ≠ .indet
  | suback sa => sa.codes ≠ .indet
  | unsubscribe us => us.topicsNumber ≠ .indet ∧ us.topics ≠ .indet
  | connack _ | puback _ | pubrec _ | pubrel _ | pubcomp _ | unsuback _ => True

/-- PINGREQ, PINGRESP and DISCONNECT are without a packet. -/
def MessageType.Bare : MessageType → Prop
  | pingreq | pingresp | disconnect => True
  | _ => False

/-- The message has a type, and the packet that belongs to it, with every field set. -/
def Message.Assigned (message : Message) : Prop :=
  ∃ type, message.messageType = .is type ∧
    (type.Bare ∨ ∃ packet, message.packet = .ref packet ∧ packet.Assigned)

theorem rejected_not_assigned {type : MessageType} (h : ¬ type.Bare) :
    ¬ (rejected type).Assigned := by
  rintro ⟨_, ⟨⟩, hbare | ⟨packet, hpacket, -⟩⟩
  · exact h hbare
  · cases hpacket

theorem assigned_ref {type : MessageType} {packet : Packet} (h : ¬ type.Bare) :
    Message.Assigned ⟨.is type, .ref packet⟩ ↔ packet.Assigned := by
  constructor
  · rintro ⟨_, ⟨⟩, hbare | ⟨_, ⟨⟩, hpacket⟩⟩
    · exact absurd hbare h
    · exact hpacket
  · intro hpacket
    exact ⟨type, rfl, .inr ⟨packet, rfl, hpacket⟩⟩

/-! ### Lengths in the input -/

section Body

variable {buf : List UInt8} {i n : Nat}

/-- The 16 bits at `i`. -/
def shortAt (buf : List UInt8) (i : Nat) : Nat :=
  (((buf.getD i 0).toUInt16 <<< 8) ||| (buf.getD (i + 1) 0).toUInt16).toNat

/-- The position behind a string with its length at `i`. -/
def fieldEnd (buf : List UInt8) (i : Nat) : Nat := i + 2 + shortAt buf i

/-- The position behind the remaining length; a length of several bytes counts for none. -/
def bodyStart (buf : List UInt8) : Nat := if buf.getD 1 0 < 128 then 2 else 0

/-- The length of the packet, as `decode_remaining_length` has it. -/
def declared (buf : List UInt8) : Int :=
  if buf.getD 1 0 < 128 then (buf.getD 1 0).toNat + 2 else -1

theorem rd_getD (h : i < buf.length) : rd buf i = .ok (buf.getD i 0) := by
  unfold rd
  rw [List.getD_eq_getElem?_getD, List.getElem?_eq_getElem h]
  rfl

theorem rd_ok_getD {x : UInt8} (h : rd buf i = .ok x) : x = buf.getD i 0 :=
  Except.ok.inj (h.symm.trans (rd_getD (rd_ok_lt h)))

theorem getShort_shortAt (h : i + 1 < buf.length) :
    ∃ s, getShort buf i = .ok s ∧ s.toNat = shortAt buf i := by
  unfold getShort
  rw [rd_getD (by omega), ok_bind, rd_getD h, ok_bind]
  exact ⟨_, rfl, rfl⟩

theorem decodeRemainingLength_eq (h : 2 ≤ buf.length) :
    decodeRemainingLength buf = .ok ⟨declared buf, bodyStart buf - 1⟩ := by
  have hrd : rd buf 1 = .ok (buf.getD 1 0) := rd_getD (by omega)
  unfold declared bodyStart
  by_cases hlt : buf.getD 1 0 < 128
  · rw [decodeRemainingLength_short hrd hlt, if_pos hlt, if_pos hlt]
    rfl
  · rw [decodeRemainingLength_long hrd (UInt8.not_lt.1 hlt), if_neg hlt, if_neg hlt]
    rfl

/-- A copy of a string whose length fits a natural number. -/
theorem copyOut_nat_returns : Returns (copyOut buf i n) ↔ (0 < n → i + n ≤ buf.length) := by
  rw [copyOut_returns]
  omega

theorem bodyStart_eq : ((1 : Int) + ((bodyStart buf : Int) - 1)).toNat = bodyStart buf := by
  omega

/-! ### The branches that only read -/

theorem decodeId_returns {type : MessageType} {packet : UInt16 → Packet} :
    Returns (decodeId type packet buf) ↔ 4 ≤ buf.length :=
  (returns_bind_ok fun _ => returns_ok _).trans getShort_returns

/-- A PUBLISH is rejected for its flags, or has room for the topic and the packet id, and for the
payload that its length leaves. -/
def PublishFits (buf : List UInt8) (fixedHeader : UInt8) : Prop :=
  let qos := ((fixedHeader &&& 0x07) >>> 1).toNat
  let payload := fieldEnd buf (bodyStart buf) + if qos ≠ 0 then 2 else 0
  qos > 2 ∨ (fixedHeader >>> 3 &&& 1).toNat ≠ 0 ∧ qos = 0 ∨
    payload ≤ buf.length ∧ (payload < declared buf → declared buf ≤ buf.length)

/-- The payload of a PUBLISH. -/
theorem payload_returns {i : Nat} {length : Int} {f : Ptr CString → Message} :
    Returns (do
      let content ←
        if length - i > 0 then do
          pure (Ptr.ref (CString.ofBytes (← copyOut buf i (length - i))))
        else pure Ptr.indet
      pure (f content)) ↔ (i < length → length ≤ buf.length) := by
  by_cases hdata : length - i > 0
  · simp only [if_pos hdata]
    refine (returns_bind_ok fun _ => returns_ok _).trans ?_
    rw [copyOut_returns]
    omega
  · simp only [if_neg hdata]
    exact iff_of_true (returns_ok _) (by omega)

theorem payload_ok {i : Nat} {length : Int} {f : Ptr CString → Message} {message : Message}
    (h : (do
      let content ←
        if length - i > 0 then do
          pure (Ptr.ref (CString.ofBytes (← copyOut buf i (length - i))))
        else pure Ptr.indet
      pure (f content)) = .ok message) : ∃ content, message = f content := by
  split at h
  · obtain ⟨data, -, h⟩ := bind_eq_ok.1 h
    cases h
    exact ⟨_, rfl⟩
  · cases h
    exact ⟨_, rfl⟩

theorem decodePublish_returns {fixedHeader : UInt8} (h : 2 ≤ buf.length) :
    Returns (decodePublish buf fixedHeader) ↔ PublishFits buf fixedHeader := by
  unfold decodePublish PublishFits
  rw [decodeRemainingLength_eq h, ok_bind]
  dsimp only
  rw [bodyStart_eq]
  set qos := ((fixedHeader &&& 0x07) >>> 1).toNat
  by_cases hqos : qos > 2
  · rw [if_pos hqos]
    exact iff_of_true (returns_ok _) (.inl hqos)
  rw [if_neg hqos]
  by_cases hdup : (fixedHeader >>> 3 &&& 1).toNat ≠ 0 ∧ qos = 0
  · rw [if_pos hdup]
    exact iff_of_true (returns_ok _) (.inr (.inl hdup))
  rw [if_neg hdup, or_iff_right hqos, or_iff_right hdup]
  by_cases hlt : bodyStart buf + 1 < buf.length
  · obtain ⟨topicLength, htopic, hvalue⟩ := getShort_shortAt hlt
    rw [htopic, ok_bind, hvalue]
    have hend : bodyStart buf + 2 + shortAt buf (bodyStart buf) = fieldEnd buf (bodyStart buf) :=
      rfl
    rw [hend]
    by_cases hid : qos ≠ 0
    · simp only [if_pos hid]
      refine (returns_bind fun _ _ => returns_bind fun _ _ => payload_returns).trans ?_
      rw [copyOut_nat_returns, getShort_returns]
      simp only [Nat.add_eq, Nat.succ_eq_add_one]
      omega
    · simp only [if_neg hid]
      refine (returns_bind fun _ _ => payload_returns).trans ?_
      rw [copyOut_nat_returns]
      omega
  · refine iff_of_false ?_ ?_
    · exact not_returns_bind fun hshort => hlt (getShort_returns.1 hshort)
    · unfold fieldEnd
      omega

/-- The byte is no return code of a SUBACK. -/
def BadCode (code : UInt8) : Prop := code ≠ 128 ∧ code > 2

/-- The codes are there, up to the first bad one. -/
def CodesFit (n : Nat) (codes : List UInt8) : Prop :=
  n ≤ codes.length ∨ ∃ code ∈ codes.take n, BadCode code

theorem codesFit_zero {codes : List UInt8} : CodesFit 0 codes := .inl (Nat.zero_le _)

theorem codesFit_cons {code : UInt8} {codes : List UInt8} :
    CodesFit (n + 1) (code :: codes) ↔ BadCode code ∨ CodesFit n codes := by
  unfold CodesFit
  simp only [List.length_cons, List.take_succ_cons, List.exists_mem_cons_iff,
    Nat.add_le_add_iff_right]
  exact or_left_comm

theorem not_codesFit_nil : ¬ CodesFit (n + 1) [] := by
  simp [CodesFit]

theorem decodeCodes_returns : Returns (decodeCodes buf i n) ↔ CodesFit n (buf.drop i) := by
  induction n generalizing i with
  | zero => exact iff_of_true (returns_ok _) codesFit_zero
  | succ n ih =>
    rcases Nat.lt_or_ge i buf.length with hlt | hge
    · have hdrop : buf.drop i = buf.getD i 0 :: buf.drop (i + 1) := by
        rw [List.drop_eq_getElem_cons hlt, List.getD_eq_getElem?_getD, List.getElem?_eq_getElem hlt]
        rfl
      unfold decodeCodes
      rw [rd_getD hlt, ok_bind, hdrop, codesFit_cons]
      by_cases hbad : BadCode (buf.getD i 0)
      · refine iff_of_true ?_ (.inl hbad)
        rw [if_pos (show _ ∧ _ from hbad)]
        exact returns_ok _
      · rw [if_neg (show ¬ (_ ∧ _) from hbad), or_iff_right hbad]
        exact (returns_bind_ok fun _ => returns_ok _).trans ih
    · rw [List.drop_eq_nil_of_le hge]
      refine iff_of_false (not_returns_bind ?_) not_codesFit_nil
      rw [rd_returns]
      omega

/-- A SUBACK has room for its packet id, and for the codes that its length leaves. -/
def SubackFits (buf : List UInt8) : Prop :=
  bodyStart buf + 2 ≤ buf.length ∧
    CodesFit (declared buf - (bodyStart buf + 2 : Nat)).toNat (buf.drop (bodyStart buf + 2))

theorem decodeSuback_returns (h : 2 ≤ buf.length) :
    Returns (decodeSuback buf) ↔ SubackFits buf := by
  unfold decodeSuback SubackFits
  rw [decodeRemainingLength_eq h, ok_bind]
  dsimp only
  rw [bodyStart_eq]
  refine (returns_bind fun _ _ =>
    (returns_bind_ok fun codes => ?_).trans decodeCodes_returns).trans ?_
  · split
    · exact returns_ok _
    · split <;> exact returns_ok _
  · rw [getShort_returns]
    exact Iff.rfl

/-! ### The branches whose message is used -/

/-- The two bytes of a CONNACK that `decode` accepts. -/
def ConnackFits (buf : List UInt8) : Prop :=
  4 ≤ buf.length ∧ buf.getD 2 0 ≤ 1 ∧ buf.getD 3 0 ≤ 5

theorem flag_byte {x : UInt8} : ¬ (x ≠ 0 ∧ x ≠ 1) ↔ x ≤ 1 := by
  revert x; decide +kernel

theorem decodeConnack_ok {message : Message} (h : decodeConnack buf = .ok message) :
    message = rejected .connack ∨ ∃ ca, message = ⟨.is .connack, .ref (.connack ca)⟩ := by
  obtain ⟨sessionPresent, -, h⟩ := bind_eq_ok.1 h
  split at h
  · cases h
    exact .inl rfl
  · obtain ⟨returnCode, -, h⟩ := bind_eq_ok.1 h
    split at h <;> cases h
    · exact .inl rfl
    · exact .inr ⟨_, rfl⟩

theorem decodeConnack_assigned :
    (∃ message, decodeConnack buf = .ok message ∧ message.Assigned) ↔ ConnackFits buf := by
  have hreject : ¬ (rejected .connack).Assigned := rejected_not_assigned id
  constructor
  · rintro ⟨message, h, hset⟩
    obtain ⟨sessionPresent, hsession, h⟩ := bind_eq_ok.1 h
    split at h
    · cases h
      exact absurd hset hreject
    next hflag =>
      obtain ⟨returnCode, hcode, h⟩ := bind_eq_ok.1 h
      split at h
      · cases h
        exact absurd hset hreject
      next hle =>
        have hlt := rd_ok_lt hcode
        obtain rfl := rd_ok_getD hsession
        obtain rfl := rd_ok_getD hcode
        exact ⟨by omega, flag_byte.1 hflag, UInt8.not_lt.1 hle⟩
  · rintro ⟨hlen, hflag, hcode⟩
    unfold decodeConnack
    rw [rd_getD (by omega), ok_bind, if_neg (flag_byte.2 hflag), rd_getD (by omega), ok_bind,
      if_neg (UInt8.not_lt.2 hcode)]
    exact ⟨_, rfl, (assigned_ref id).2 trivial⟩

theorem decodeSubscribe_messageType {message : Message} (h : decodeSubscribe buf = .ok message) :
    message.messageType = .is .subscribe := by
  obtain ⟨d, -, h⟩ := bind_eq_ok.1 h
  obtain ⟨packetId, -, h⟩ := bind_eq_ok.1 h
  dsimp only at h
  split at h
  · obtain ⟨topicFilterLength, -, h⟩ := bind_eq_ok.1 h
    obtain ⟨topicFilter, -, h⟩ := bind_eq_ok.1 h
    obtain ⟨qos, -, h⟩ := bind_eq_ok.1 h
    split at h <;> cases h
    rfl
  · cases h
    rfl

theorem decodeUnsubscribe_messageType {message : Message}
    (h : decodeUnsubscribe buf = .ok message) : message.messageType = .is .unsubscribe := by
  obtain ⟨d, -, h⟩ := bind_eq_ok.1 h
  obtain ⟨packetId, -, h⟩ := bind_eq_ok.1 h
  dsimp only at h
  split at h
  · obtain ⟨topicLength, -, h⟩ := bind_eq_ok.1 h
    obtain ⟨topic, -, h⟩ := bind_eq_ok.1 h
    obtain ⟨malformed, -, h⟩ := bind_eq_ok.1 h
    split at h <;> cases h
    rfl
  · cases h
    rfl

/-! ### CONNECT -/

/-- A CONNECT is never given back: the message is that of a rejected one. -/
theorem decodeConnectTail_ok {length : Int} {contentFlags : UInt8} {message : Message}
    (h : decodeConnectTail buf length contentFlags i = .ok message) :
    message = rejected .connect := by
  obtain ⟨topic, -, h⟩ := bind_eq_ok.1 h
  obtain _ | j := topic
  · exact (Except.ok.inj h).symm
  obtain ⟨content, -, h⟩ := bind_eq_ok.1 h
  obtain _ | k := content
  · exact (Except.ok.inj h).symm
  obtain ⟨username, -, h⟩ := bind_eq_ok.1 h
  obtain _ | l := username
  · exact (Except.ok.inj h).symm
  obtain ⟨password, -, h⟩ := bind_eq_ok.1 h
  obtain _ | m := password
  · exact (Except.ok.inj h).symm
  dsimp only at h
  split at h <;> exact (Except.ok.inj h).symm

theorem decodeConnect_ok {message : Message} (h : decodeConnect buf = .ok message) :
    message = rejected .connect := by
  obtain ⟨d, -, h⟩ := bind_eq_ok.1 h
  obtain ⟨nameSize, -, h⟩ := bind_eq_ok.1 h
  obtain ⟨name, -, h⟩ := bind_eq_ok.1 h
  split at h
  · exact (Except.ok.inj h).symm
  obtain ⟨protocolLevel, -, h⟩ := bind_eq_ok.1 h
  obtain ⟨contentFlags, -, h⟩ := bind_eq_ok.1 h
  dsimp only at h
  split at h
  · exact (Except.ok.inj h).symm
  split at h
  · exact (Except.ok.inj h).symm
  split at h
  · exact (Except.ok.inj h).symm
  split at h
  · exact (Except.ok.inj h).symm
  obtain ⟨keepalive, -, h⟩ := bind_eq_ok.1 h
  obtain ⟨clientIdLength, -, h⟩ := bind_eq_ok.1 h
  obtain ⟨clientId, -, h⟩ := bind_eq_ok.1 h
  exact decodeConnectTail_ok h

/-! ### The types -/

/-- What the branch of a type needs, where the message is used or only read. The types that end
the connection have none. -/
def PacketFits (buf : List UInt8) : MessageType → Prop
  | .connack => ConnackFits buf
  | .publish => PublishFits buf (buf.getD 0 0 &&& 0xf)
  | .puback | .pubrec | .pubrel | .pubcomp | .unsuback => 4 ≤ buf.length
  | .suback => SubackFits buf
  | .pingresp => True
  | .connect | .subscribe | .unsubscribe | .pingreq | .disconnect => False

theorem decodeId_messageType {type : MessageType} {packet : UInt16 → Packet} {message : Message}
    (h : decodeId type packet buf = .ok message) : message.messageType = .is type := by
  obtain ⟨packetId, -, h⟩ := bind_eq_ok.1 h
  cases h
  rfl

theorem decodePublish_messageType {fixedHeader : UInt8} {message : Message}
    (h : decodePublish buf fixedHeader = .ok message) : message.messageType = .is .publish := by
  obtain ⟨d, -, h⟩ := bind_eq_ok.1 h
  dsimp only at h
  split at h
  · cases h
    rfl
  split at h
  · cases h
    rfl
  obtain ⟨topicLength, -, h⟩ := bind_eq_ok.1 h
  obtain ⟨topicName, -, h⟩ := bind_eq_ok.1 h
  split at h
  · obtain ⟨packetId, -, h⟩ := bind_eq_ok.1 h
    obtain ⟨content, rfl⟩ := payload_ok h
    rfl
  · obtain ⟨content, rfl⟩ := payload_ok h
    rfl

/-- The flags of a PUBLISH that is not rejected. -/
theorem decodePublish_flags {fixedHeader : UInt8} {p : Publish}
    (h : decodePublish buf fixedHeader = .ok ⟨.is .publish, .ref (.publish p)⟩) :
    ((fixedHeader &&& 0x07) >>> 1).toNat ≤ 2 ∧
      ((fixedHeader >>> 3 &&& 1).toNat ≠ 0 → ((fixedHeader &&& 0x07) >>> 1).toNat ≠ 0) ∧
      p.dup = (fixedHeader >>> 3 &&& 1).toNat := by
  obtain ⟨d, -, h⟩ := bind_eq_ok.1 h
  dsimp only at h
  split at h
  · cases h
  next hqos =>
  split at h
  · cases h
  next hdup =>
  refine ⟨Nat.not_lt.1 hqos, fun hd hq => hdup ⟨hd, hq⟩, ?_⟩
  obtain ⟨topicLength, -, h⟩ := bind_eq_ok.1 h
  obtain ⟨topicName, -, h⟩ := bind_eq_ok.1 h
  split at h
  · obtain ⟨packetId, -, h⟩ := bind_eq_ok.1 h
    obtain ⟨content, hmessage⟩ := payload_ok h
    cases hmessage
    rfl
  · obtain ⟨content, hmessage⟩ := payload_ok h
    cases hmessage
    rfl

theorem decodeSuback_messageType {message : Message} (h : decodeSuback buf = .ok message) :
    message.messageType = .is .suback := by
  obtain ⟨d, -, h⟩ := bind_eq_ok.1 h
  obtain ⟨packetId, -, h⟩ := bind_eq_ok.1 h
  obtain ⟨codes, -, h⟩ := bind_eq_ok.1 h
  split at h
  · cases h
    rfl
  · split at h <;> cases h <;> rfl

end Body

end IotClient.Mqtt
