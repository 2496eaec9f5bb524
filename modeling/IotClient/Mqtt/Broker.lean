import IotClient.Mqtt.Encoding

/-!
# Packets from a broker

`BrokerPacket` is an MQTT 3.1.1 packet of a type a broker sends, `wire` its encoding and
`message` the struct that stands for it. `Carries m p` says that a message has the type and
the fields of the packet. For packets of at most 127 bytes behind the length field, `decode`
reads `wire` whatever follows it, and `encode` writes `wire`; a SUBACK is only ever decoded.
-/

namespace IotClient.Mqtt

open Mem

inductive SubackCode where
  | acceptedQos0 | acceptedQos1 | acceptedQos2 | failure
  deriving DecidableEq, Repr

def SubackCode.toByte : SubackCode → UInt8
  | acceptedQos0 => 0
  | acceptedQos1 => 1
  | acceptedQos2 => 2
  | failure => 128

/-- A PUBLISH as the protocol allows it, with a payload. -/
structure PublishPacket where
  topic : CString
  content : CString
  qos : Fin 3
  dup : Bool
  retain : Bool
  packetId : UInt16
  topic_ne : topic.bytes ≠ []
  content_ne : content.bytes ≠ []
  dup_qos : dup = true → qos ≠ 0
  packetId_qos : packetId ≠ 0 ↔ qos ≠ 0

inductive BrokerPacket where
  | connack (sessionPresent : Bool) (code : Fin 6)
  | publish (p : PublishPacket)
  | puback (packetId : UInt16)
  | pubrec (packetId : UInt16)
  | pubrel (packetId : UInt16)
  | pubcomp (packetId : UInt16)
  | suback (packetId : UInt16) (codes : List SubackCode) (codes_ne : codes ≠ [])
  | unsuback (packetId : UInt16)

/-- The variable header and the payload of a PUBLISH. -/
def PublishPacket.body (p : PublishPacket) : List UInt8 :=
  shortBytes (UInt16.ofNat p.topic.strlen) ++ p.topic.bytes ++
    (if p.qos = 0 then [] else shortBytes p.packetId) ++ p.content.bytes

namespace BrokerPacket

/-- The first byte: the type, and the flags the protocol gives it. -/
def header : BrokerPacket → UInt8
  | connack .. => 0x20
  | publish p => 0x30 + (if p.dup then 8 else 0) + 2 * UInt8.ofNat p.qos + (if p.retain then 1 else 0)
  | puback _ => 0x40
  | pubrec _ => 0x50
  | pubrel _ => 0x62
  | pubcomp _ => 0x70
  | suback .. => 0x90
  | unsuback _ => 0xb0

/-- What follows the length field. -/
def body : BrokerPacket → List UInt8
  | connack sessionPresent code => [if sessionPresent then 1 else 0, UInt8.ofNat code]
  | publish p => p.body
  | puback packetId | pubrec packetId | pubrel packetId | pubcomp packetId | unsuback packetId =>
    shortBytes packetId
  | suback packetId codes _ => shortBytes packetId ++ codes.map SubackCode.toByte

/-- The MQTT 3.1.1 encoding. -/
def wire (p : BrokerPacket) : List UInt8 := p.header :: (lengthBytes p.body.length ++ p.body)

def type : BrokerPacket → MessageType
  | connack .. => .connack
  | publish _ => .publish
  | puback _ => .puback
  | pubrec _ => .pubrec
  | pubrel _ => .pubrel
  | pubcomp _ => .pubcomp
  | suback .. => .suback
  | unsuback _ => .unsuback

/-- The struct with the fields of a packet. -/
def packet : BrokerPacket → Packet
  | connack sessionPresent code => .connack ⟨sessionPresent.toNat, code⟩
  | publish p => .publish {
      topic := ⟨.ref p.topic, .is p.qos⟩
      content := .ref p.content
      retain := p.retain.toNat
      dup := p.dup.toNat
      packetId := .is p.packetId }
  | puback packetId => .puback ⟨packetId⟩
  | pubrec packetId => .pubrec ⟨packetId⟩
  | pubrel packetId => .pubrel ⟨packetId⟩
  | pubcomp packetId => .pubcomp ⟨packetId⟩
  | suback packetId codes _ => .suback ⟨packetId, codes.length, .ref (codes.map (·.toByte.toNat))⟩
  | unsuback packetId => .unsuback ⟨packetId⟩

def message (p : BrokerPacket) : Message := ⟨.is p.type, .ref p.packet⟩

/-- The message has the type and the fields of the packet; the packet id of a QoS 0 PUBLISH
may be anything. -/
def Carries (m : Message) (p : BrokerPacket) : Prop :=
  m.messageType = .is p.type ∧
    match p with
    | publish q => ∃ r : Publish, m.packet = .ref (.publish r) ∧
        r.topic = ⟨.ref q.topic, .is q.qos⟩ ∧ r.content = .ref q.content ∧
        r.retain = q.retain.toNat ∧ r.dup = q.dup.toNat ∧
        (q.qos ≠ 0 → r.packetId = .is q.packetId)
    | p => m.packet = .ref p.packet

/-- A short frame: one length byte is enough. -/
theorem wire_short {p : BrokerPacket} (h : p.body.length ≤ 127) :
    p.wire = p.header :: UInt8.ofNat p.body.length :: p.body := by
  rw [wire, lengthBytes_short (by omega)]; rfl

end BrokerPacket

/-! ### Decoding -/

section Decode

variable {buf r : List UInt8} {h l : UInt8}

theorem decode_eq {t : MessageType} (hbuf : buf.drop 0 = h :: r)
    (ht : MessageType.ofByte (h >>> 4 &&& 0xf) = some t) : decode buf = decodeType buf h t := by
  unfold decode
  rw [rd_drop hbuf, ok_bind, ht]

theorem decodeId_eq (t : MessageType) (packet : UInt16 → Packet) {s : UInt16}
    (hbuf : buf.drop 0 = h :: l :: (shortBytes s ++ r)) :
    decodeId t packet buf = .ok ⟨.is t, .ref (packet s)⟩ := by
  have h2 : buf.drop 2 = shortBytes s ++ r := drop_succ (drop_succ hbuf)
  unfold decodeId
  rw [getShort_drop h2]
  rfl

theorem decodeConnack_eq (sessionPresent : Bool) (code : Fin 6)
    (hbuf : buf.drop 0 =
      h :: l :: (if sessionPresent then 1 else 0) :: UInt8.ofNat code :: r) :
    decodeConnack buf = .ok ⟨.is .connack, .ref (.connack ⟨sessionPresent.toNat, code⟩)⟩ := by
  have h2 := drop_succ (drop_succ hbuf)
  have h3 := drop_succ h2
  unfold decodeConnack
  rw [rd_drop h2, ok_bind, rd_drop h3]
  clear hbuf h2 h3
  revert sessionPresent code
  decide

/-- The flags of a PUBLISH come back from its first byte. -/
theorem publish_flags (dup retain : Bool) (qos : Fin 3) :
    let b : UInt8 :=
      0x30 + (if dup then 8 else 0) + 2 * UInt8.ofNat qos + (if retain then 1 else 0)
    MessageType.ofByte (b >>> 4 &&& 0xf) = some .publish ∧
      ((b &&& 0xf) >>> 3 &&& 1).toNat = dup.toNat ∧
      ((b &&& 0xf &&& 0x07) >>> 1).toNat = qos ∧ (b &&& 0xf &&& 1).toNat = retain.toNat ∧
      publishHeader dup.toNat retain.toNat qos = b := by
  revert dup retain qos; decide

theorem decodeCodes_eq (codes : List SubackCode) :
    ∀ {i : Nat}, buf.drop i = codes.map SubackCode.toByte ++ r →
      decodeCodes buf i codes.length = .ok (some (codes.map (·.toByte.toNat))) := by
  induction codes with
  | nil => intro i _; rfl
  | cons c cs ih =>
    intro i hbuf
    have hc : ¬ (c.toByte ≠ 128 ∧ c.toByte > 2) := by cases c <;> decide
    rw [List.length_cons, decodeCodes, rd_drop hbuf, ok_bind, if_neg hc, ih (drop_succ hbuf)]
    rfl

theorem decodeSuback_eq {s : UInt16} {codes : List SubackCode} (hne : codes ≠ [])
    (hshort : codes.length + 2 ≤ 127)
    (hbuf : buf.drop 0 = h :: UInt8.ofNat (codes.length + 2) ::
      (shortBytes s ++ codes.map SubackCode.toByte ++ r)) :
    decodeSuback buf = .ok ⟨.is .suback,
      .ref (.suback ⟨s, codes.length, .ref (codes.map (·.toByte.toNat))⟩)⟩ := by
  have h1 := drop_succ hbuf
  have h2 : buf.drop 2 = shortBytes s ++ (codes.map SubackCode.toByte ++ r) := by
    rw [← List.append_assoc]
    exact drop_succ h1
  have h4 : buf.drop 4 = codes.map SubackCode.toByte ++ r := drop_add h2
  have hsize : (((codes.length + 2 : Nat) : Int) + 2 - ((4 : Nat) : Int)).toNat = codes.length := by
    omega
  unfold decodeSuback
  rw [decodeRemainingLength_drop (by omega) h1, ok_bind]
  simp only [Int.reduceAdd, Int.reduceToNat, Nat.reduceAdd]
  rw [getShort_drop h2, ok_bind, hsize, decodeCodes_eq codes h4]
  simp [hne]

/-- `decodePublish` over the parts of a PUBLISH: the topic at 4, then the packet id if there is one,
then the payload. -/
theorem decodePublish_parts {topic payload : List UInt8} {qos n : Nat} {packetId : UInt16} {b : UInt8}
    (hshort : n ≤ 127)
    (hsize : n = 2 + topic.length + (if qos = 0 then 0 else 2) + payload.length)
    (hqos : ((b &&& 0x07) >>> 1).toNat = qos) (hq2 : qos ≤ 2)
    (hdup : (b >>> 3 &&& 1).toNat ≠ 0 → qos ≠ 0)
    (hbuf : buf.drop 0 = h :: UInt8.ofNat n :: (shortBytes (UInt16.ofNat topic.length) ++ (topic ++
      ((if qos = 0 then [] else shortBytes packetId) ++ (payload ++ r))))) :
    decodePublish buf b = .ok ⟨.is .publish, .ref (.publish {
      topic := ⟨.ref (CString.ofBytes topic), .is qos⟩
      content := if payload = [] then .indet else .ref (CString.ofBytes payload)
      retain := (b &&& 1).toNat
      dup := (b >>> 3 &&& 1).toNat
      packetId := if qos = 0 then .indet else .is packetId })⟩ := by
  have h1 := drop_succ hbuf
  have h2 := drop_succ h1
  have h4 : buf.drop 4 = topic ++ _ := drop_short h2
  have h5 := drop_add h4
  have htopic : (UInt16.ofNat topic.length).toNat = topic.length := short_toNat_of_lt (by omega)
  have hdq : ¬ ((b >>> 3 &&& 1).toNat ≠ 0 ∧ qos = 0) := fun hd => hdup hd.1 hd.2
  unfold decodePublish
  rw [decodeRemainingLength_drop (by omega) h1, ok_bind]
  simp only [Int.reduceAdd, Int.reduceToNat, Nat.reduceAdd, hqos, if_neg (Nat.not_lt.2 hq2),
    if_neg hdq, getShort_drop h2, ok_bind, htopic, copyOut_drop h4]
  by_cases hq : qos = 0
  · have hdata : (n : Int) + 2 - ((4 + topic.length : Nat) : Int) = payload.length := by
      rw [hsize, if_pos hq]; omega
    rw [if_pos hq, List.nil_append] at h5
    simp only [hq, ne_eq, not_true_eq_false, if_false, if_true, pure_eq_ok, ok_bind, hdata]
    by_cases hnil : payload = []
    · rw [if_neg (by simp [hnil]), if_pos hnil]
    · have hpos := List.length_pos_iff.mpr hnil
      rw [if_pos (by omega), if_neg hnil, copyOut_drop h5]
      rfl
  · have hdata : (n : Int) + 2 - ((4 + topic.length + 2 : Nat) : Int) = payload.length := by
      rw [hsize, if_neg hq]; omega
    rw [if_neg hq] at h5
    simp only [if_pos hq, if_neg hq, ne_eq, getShort_drop h5, pure_eq_ok, ok_bind, hdata]
    by_cases hnil : payload = []
    · rw [if_neg (by simp [hnil]), if_pos hnil]
    · have hpos := List.length_pos_iff.mpr hnil
      rw [if_pos (by omega), if_neg hnil, copyOut_drop (drop_short h5)]
      rfl

theorem decodePublish_eq {p : PublishPacket} {b : UInt8} (hshort : p.body.length ≤ 127)
    (hdup : (b >>> 3 &&& 1).toNat = p.dup.toNat) (hqos : ((b &&& 0x07) >>> 1).toNat = p.qos)
    (hretain : (b &&& 1).toNat = p.retain.toNat)
    (hbuf : buf.drop 0 = h :: UInt8.ofNat p.body.length :: (p.body ++ r)) :
    decodePublish buf b = .ok ⟨.is .publish, .ref (.publish {
      topic := ⟨.ref p.topic, .is p.qos⟩
      content := .ref p.content
      retain := p.retain.toNat
      dup := p.dup.toNat
      packetId := if p.qos = 0 then .indet else .is p.packetId })⟩ := by
  have hval : (p.qos : Nat) = 0 ↔ p.qos = 0 := Fin.val_eq_zero_iff
  have hsize : p.body.length = 2 + p.topic.bytes.length + (if (p.qos : Nat) = 0 then 0 else 2) +
      p.content.bytes.length := by
    simp only [PublishPacket.body, List.length_append, length_shortBytes, hval]
    split <;> rfl
  have hd : (b >>> 3 &&& 1).toNat ≠ 0 → (p.qos : Nat) ≠ 0 := by
    intro hd hq
    rw [hdup] at hd
    cases hp : p.dup
    · rw [hp] at hd
      exact hd rfl
    · exact p.dup_qos hp (hval.1 hq)
  have hparts : buf.drop 0 = h :: UInt8.ofNat p.body.length ::
      (shortBytes (UInt16.ofNat p.topic.bytes.length) ++ (p.topic.bytes ++
        ((if (p.qos : Nat) = 0 then [] else shortBytes p.packetId) ++ (p.content.bytes ++ r)))) := by
    simpa [PublishPacket.body, CString.strlen, hval] using hbuf
  rw [decodePublish_parts hshort hsize hqos (by omega) hd hparts, hdup, hretain]
  simp only [CString.ofBytes_bytes, if_neg p.content_ne, hval]

end Decode

theorem BrokerPacket.ofByte_header (p : BrokerPacket) :
    MessageType.ofByte (p.header >>> 4 &&& 0xf) = some p.type := by
  cases p with
  | publish q => exact (publish_flags q.dup q.retain q.qos).1
  | _ => simp only [header, type]; decide

theorem decode_wire (p : BrokerPacket) (h : p.body.length ≤ 127) (rest : List UInt8) :
    ∃ m, decode (p.wire ++ rest) = .ok m ∧ p.Carries m := by
  have hbuf : (p.wire ++ rest).drop 0 =
      p.header :: UInt8.ofNat p.body.length :: (p.body ++ rest) := by
    rw [BrokerPacket.wire_short h]; rfl
  rw [decode_eq hbuf p.ofByte_header]
  cases p with
  | connack sessionPresent code => exact ⟨_, decodeConnack_eq sessionPresent code hbuf, rfl, rfl⟩
  | publish q =>
    obtain ⟨-, hdup, hqos, hretain, -⟩ := publish_flags q.dup q.retain q.qos
    exact ⟨_, decodePublish_eq h hdup hqos hretain hbuf, rfl, _, rfl, rfl, rfl, rfl, rfl,
      fun hq => if_neg hq⟩
  | suback packetId codes hne =>
    have hlen : (BrokerPacket.suback packetId codes hne).body.length = codes.length + 2 := by
      simp [BrokerPacket.body, Nat.add_comm]
    rw [hlen] at hbuf h
    exact ⟨_, decodeSuback_eq hne h hbuf, rfl, rfl⟩
  | puback packetId => exact ⟨_, decodeId_eq _ _ hbuf, rfl, rfl⟩
  | pubrec packetId => exact ⟨_, decodeId_eq _ _ hbuf, rfl, rfl⟩
  | pubrel packetId => exact ⟨_, decodeId_eq _ _ hbuf, rfl, rfl⟩
  | pubcomp packetId => exact ⟨_, decodeId_eq _ _ hbuf, rfl, rfl⟩
  | unsuback packetId => exact ⟨_, decodeId_eq _ _ hbuf, rfl, rfl⟩

/-! ### Encoding -/

theorem length_topic_le (q : PublishPacket) : q.topic.bytes.length ≤ q.body.length := by
  simp only [PublishPacket.body, List.length_append]
  omega

theorem getLength_publish (q : PublishPacket) :
    getLength (BrokerPacket.publish q).message = .ok q.body.length := by
  have hsize : q.body.length = (if q.packetId ≠ 0 then 2 else 0) + q.topic.bytes.length + 2 +
      q.content.bytes.length := by
    simp only [PublishPacket.body, List.length_append, length_shortBytes]
    by_cases hq : q.qos = 0
    · rw [if_pos hq, if_neg (fun hid => q.packetId_qos.mp hid hq), List.length_nil]
      omega
    · rw [if_neg hq, if_pos (q.packetId_qos.mpr hq), length_shortBytes]
  rw [hsize]
  rfl

theorem encode_wire (p : BrokerPacket) (h : p.body.length ≤ 127) (ht : p.type ≠ .suback) :
    ∃ l, getLength p.message = .ok l ∧ encode p.message l = .ok (p.wire.map some) := by
  rw [BrokerPacket.wire_short h]
  cases p with
  | connack sessionPresent code =>
    exact ⟨2, rfl, (encodeConnack_block _).trans (by revert sessionPresent code; decide)⟩
  | publish q =>
    have hb := (publish_flags q.dup q.retain q.qos).2.2.2.2
    have htopic : q.topic.bytes.length < 65536 := by
      have := length_topic_le q
      exact Nat.lt_of_le_of_lt (this.trans h) (by decide)
    have hbody : publishBody q.topic q.content q.packetId = q.body := by
      unfold publishBody PublishPacket.body
      rw [stringField_short htopic q.topic_ne]
      by_cases hq : q.qos = 0
      · rw [if_pos hq, if_neg (fun hid => q.packetId_qos.mp hid hq)]
        simp
      · rw [if_neg hq, if_pos (q.packetId_qos.mpr hq)]
        simp
    refine ⟨q.body.length, getLength_publish q, ?_⟩
    refine (encode_publish _ _).trans ?_
    rw [encodePublish_block rfl rfl rfl, hb, hbody]
    exact emittedBlock_frame rfl h
  | puback packetId => exact ⟨2, rfl, encodeId_block _ _⟩
  | pubrec packetId => exact ⟨2, rfl, encodeId_block _ _⟩
  | pubrel packetId => exact ⟨2, rfl, encodeId_block _ _⟩
  | pubcomp packetId => exact ⟨2, rfl, encodeId_block _ _⟩
  | unsuback packetId =>
    exact ⟨2, rfl, (encodeUnsuback_block _).trans (emittedBlock_frame rfl (by decide))⟩
  | suback packetId codes hne => exact absurd rfl ht

/-- Short frames: `decode` reads the encoding of a broker's packet whatever follows it, and
`encode` writes this encoding. -/
theorem short_frames (p : BrokerPacket) (h : p.body.length ≤ 127) :
    (∀ rest, ∃ m, decode (p.wire ++ rest) = .ok m ∧ p.Carries m) ∧
      (p.type ≠ .suback →
        ∃ l, getLength p.message = .ok l ∧ encode p.message l = .ok (p.wire.map some)) :=
  ⟨decode_wire p h, encode_wire p h⟩

/-- A retained QoS 1 PUBLISH of `hi` on the topic `t/1`. -/
def publishHi : BrokerPacket := .publish {
  topic := .ofBytes [0x74, 0x2f, 0x31]
  content := .ofBytes [0x68, 0x69]
  qos := 1
  dup := false
  retain := true
  packetId := 7
  topic_ne := by decide
  content_ne := by decide
  dup_qos := by decide
  packetId_qos := by decide }

theorem short_frames_publishHi :
    publishHi.body.length ≤ 127 ∧
      (∀ rest, ∃ m, decode (publishHi.wire ++ rest) = .ok m ∧ publishHi.Carries m) ∧
      (publishHi.type ≠ .suback →
        ∃ l, getLength publishHi.message = .ok l ∧
          encode publishHi.message l = .ok (publishHi.wire.map some)) :=
  ⟨by decide, short_frames publishHi (by decide)⟩

end IotClient.Mqtt
