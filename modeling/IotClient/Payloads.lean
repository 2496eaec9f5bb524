import IotClient.Mem.Junk
import IotClient.Mqtt.Broker
import IotClient.MqttSn.Datagrams
import IotClient.MqttSn.RoundTrip

/-!
# Empty payloads

Both decoders assign the content of a publication only where bytes are left for it. Without a
payload the field keeps what its memory held (MQTT), or is printed before it has a value (MQTT-SN).
A content is the same in all memory if and only if the payload is not empty (`payload_defined_iff`).
-/

namespace IotClient

open Mem

/-- The payload as a C string, `NULL` or the empty string where there is none. -/
def IsPayload (payload : List UInt8) (content : Option CString) : Prop :=
  content = some (CString.ofBytes payload) ∨ payload = [] ∧ content = none

/-- The field is the payload, and the same in memory of any contents. -/
def Defined (payload : List UInt8) (content : Ptr CString) : Prop :=
  (∀ junk junk', content.under junk = content.under junk') ∧
    ∀ junk, IsPayload payload (content.under junk)

theorem defined_ref (payload : List UInt8) : Defined payload (.ref (CString.ofBytes payload)) :=
  ⟨fun _ _ => rfl, fun _ => .inl rfl⟩

theorem not_defined_indet (payload : List UInt8) : ¬ Defined payload .indet :=
  fun h => absurd (h.1 none (some ∅)) (Option.some_ne_none _).symm

/-! ### MQTT -/

namespace Mqtt

/-- A PUBLISH of at most 127 bytes behind the length field, whose payload may be empty. -/
structure PublishFrame where
  topic : List UInt8
  payload : List UInt8
  qos : Fin 3
  dup : Bool
  retain : Bool
  packetId : UInt16
  dup_qos : dup = true → (qos : Nat) ≠ 0
  remaining_le : 2 + topic.length + (if (qos : Nat) = 0 then 0 else 2) + payload.length ≤ 127

namespace PublishFrame

variable (p : PublishFrame)

def header : UInt8 :=
  0x30 + (if p.dup then 8 else 0) + 2 * UInt8.ofNat p.qos + (if p.retain then 1 else 0)

/-- What follows the length field. -/
def body : List UInt8 :=
  shortBytes (UInt16.ofNat p.topic.length) ++ (p.topic ++
    ((if (p.qos : Nat) = 0 then [] else shortBytes p.packetId) ++ p.payload))

def wire : List UInt8 := p.header :: UInt8.ofNat p.body.length :: p.body

/-- `decode` reads the frame, and its content does not depend on what memory held. -/
def ContentDefined : Prop :=
  ∃ r, decode p.wire = .ok ⟨.is .publish, .ref (.publish r)⟩ ∧ Defined p.payload r.content

theorem length_body : p.body.length =
    2 + p.topic.length + (if (p.qos : Nat) = 0 then 0 else 2) + p.payload.length := by
  simp only [body, List.length_append, length_shortBytes]
  split
  · rw [List.length_nil]
    omega
  · rw [length_shortBytes]
    omega

/-- The content is assigned where bytes are left for it. -/
theorem decode_wire : ∃ r, decode p.wire = .ok ⟨.is .publish, .ref (.publish r)⟩ ∧
    r.content = if p.payload = [] then .indet else .ref (CString.ofBytes p.payload) := by
  obtain ⟨htype, hdup, hqos, -, -⟩ := publish_flags p.dup p.retain p.qos
  have hbuf : p.wire.drop 0 = p.header :: UInt8.ofNat p.body.length ::
      (shortBytes (UInt16.ofNat p.topic.length) ++ (p.topic ++
        ((if (p.qos : Nat) = 0 then [] else shortBytes p.packetId) ++ (p.payload ++ [])))) := by
    rw [List.append_nil]
    rfl
  have hd : ((p.header &&& 0xf) >>> 3 &&& 1).toNat ≠ 0 → (p.qos : Nat) ≠ 0 := by
    intro hd hq
    rw [header, hdup] at hd
    cases hp : p.dup
    · rw [hp] at hd
      exact hd rfl
    · exact p.dup_qos hp hq
  refine ⟨_, (decode_eq hbuf htype).trans
    (decodePublish_parts ?_ p.length_body hqos (by omega) hd hbuf), rfl⟩
  rw [p.length_body]
  exact p.remaining_le

theorem contentDefined_iff : p.ContentDefined ↔ p.payload ≠ [] := by
  obtain ⟨r, hr, hcontent⟩ := p.decode_wire
  unfold ContentDefined
  rw [hr]
  constructor
  · rintro ⟨r', hr', hdefined⟩ hnil
    cases hr'
    rw [hcontent, if_pos hnil] at hdefined
    exact not_defined_indet _ hdefined
  · intro hne
    rw [if_neg hne] at hcontent
    exact ⟨r, rfl, hcontent ▸ defined_ref _⟩

end PublishFrame

theorem zero_lt_three : 0 < 3 := by decide

/-- A PUBLISH on the topic `t` with nothing else. -/
def emptyFrame : PublishFrame where
  topic := [0x74]
  payload := []
  qos := ⟨0, zero_lt_three⟩
  dup := false
  retain := false
  packetId := 0
  dup_qos := by decide
  remaining_le := by decide

end Mqtt

/-! ### MQTT-SN -/

namespace MqttSn

/-- A PUBLISH with a topic id, its length in one byte or behind the suffix. -/
structure IdPublish where
  flags : UInt8
  topicId : UInt16
  messageId : UInt16
  data : List UInt8
  long : Bool
  topicType_ne : (decodeFlag flags).topicType ≠ .short
  size_le : if long then data.length + 9 ≤ 65535 else data.length + 7 ≤ 255

namespace IdPublish

variable (d : IdPublish)

def body : List UInt8 := d.flags :: (shortBytes d.topicId ++ (shortBytes d.messageId ++ d.data))

def wire : List UInt8 :=
  if d.long then
    THREE_OCTET_LENGTH_SUFFIX :: (shortBytes (UInt16.ofNat (d.data.length + 9)) ++
      SnMessageType.publish.toByte :: d.body)
  else UInt8.ofNat (d.data.length + 7) :: SnMessageType.publish.toByte :: d.body

def DataDefined : Prop :=
  ∃ r, snDecode d.wire = .ok ⟨.publish, .ref (.publish r)⟩ ∧ Defined d.data r.data

/-- What `sn_decode` makes of it. -/
def decoded : SnPublish where
  messageId := d.messageId
  topic := {
    id := .is d.topicId
    value := .indet
    qos := .is (decodeFlag d.flags).qos
    topicType := .indet }
  data := .ref (CString.ofBytes d.data)
  dup := (decodeFlag d.flags).dup
  retain := (decodeFlag d.flags).retain

theorem decodePublish_body (buf : List UInt8) {i : Nat} {n : Int} (h : buf.drop i = d.body)
    (hn : n = d.data.length + 5) : decodePublish buf i n =
      if d.data = [] then .error .indet else .ok (.ref (.publish d.decoded)) := by
  have hbody : buf.drop i = d.flags ::
      (shortBytes d.topicId ++ (shortBytes d.messageId ++ (d.data ++ []))) := by
    rw [List.append_nil]
    exact h
  rw [decodePublish_read hn hbody, if_neg d.topicType_ne]
  rfl

/-- The data is assigned where bytes are left for it; where none are, it is printed unassigned. -/
theorem snDecode_wire : snDecode d.wire =
    if d.data = [] then .error .indet else .ok ⟨.publish, .ref (.publish d.decoded)⟩ := by
  have hle := d.size_le
  have hpublish : SnMessageType.ofByte SnMessageType.publish.toByte = .publish := by decide
  unfold wire
  cases hlong : d.long with
  | false =>
    rw [hlong, if_neg Bool.false_ne_true] at hle
    have hbyte : (UInt8.ofNat (d.data.length + 7)).toNat = d.data.length + 7 :=
      toNat_ofNat_of_lt (by omega)
    have hne : UInt8.ofNat (d.data.length + 7) ≠ THREE_OCTET_LENGTH_SUFFIX := by
      intro h
      rw [h] at hbyte
      have h1 : (THREE_OCTET_LENGTH_SUFFIX).toNat = 1 := rfl
      omega
    rw [if_neg Bool.false_ne_true, snDecode_short _ hne, hpublish]
    have hbody := d.decodePublish_body
      (UInt8.ofNat (d.data.length + 7) :: SnMessageType.publish.toByte :: d.body) (i := 2) rfl
      (n := (UInt8.ofNat (d.data.length + 7)).toNat - 2) (by omega)
    rw [snDecodeBody, hbody]
    split <;> rfl
  | true =>
    rw [hlong, if_pos rfl] at hle
    have hshort : (UInt16.ofNat (d.data.length + 9)).toNat = d.data.length + 9 :=
      short_toNat_of_lt (by omega)
    rw [if_pos rfl]
    have hbody := d.decodePublish_body
      (THREE_OCTET_LENGTH_SUFFIX :: (shortBytes (UInt16.ofNat (d.data.length + 9)) ++
        SnMessageType.publish.toByte :: d.body)) (i := 4) rfl
      (n := (UInt16.ofNat (d.data.length + 9)).toNat - 4) (by omega)
    refine (snDecode_long _).trans ?_
    rw [short_join, hpublish, snDecodeBody]
    refine (congrArg (· >>= _) hbody).trans ?_
    split <;> rfl

theorem dataDefined_iff : d.DataDefined ↔ d.data ≠ [] := by
  unfold DataDefined
  rw [snDecode_wire]
  constructor
  · rintro ⟨r, hr, -⟩ hnil
    rw [if_pos hnil] at hr
    cases hr
  · intro hne
    rw [if_neg hne]
    exact ⟨d.decoded, rfl, defined_ref _⟩

end IdPublish

/-- A PUBLISH under the topic id 1 with nothing else. -/
def emptyPublish : IdPublish where
  flags := 1
  topicId := 1
  messageId := 0
  data := []
  long := false
  topicType_ne := by decide
  size_le := by decide

end MqttSn

/-- What the decoders assign to the content of a publication is the same in all memory if and only if
the publication has a payload. -/
theorem payload_defined_iff (p : Mqtt.PublishFrame) (d : MqttSn.IdPublish) :
    (p.ContentDefined ↔ p.payload ≠ []) ∧ (d.DataDefined ↔ d.data ≠ []) :=
  ⟨p.contentDefined_iff, d.dataDefined_iff⟩

theorem empty_not_defined :
    ¬ Mqtt.emptyFrame.ContentDefined ∧ ¬ MqttSn.emptyPublish.DataDefined :=
  ⟨fun h => Mqtt.emptyFrame.contentDefined_iff.1 h rfl,
    fun h => MqttSn.emptyPublish.dataDefined_iff.1 h rfl⟩

end IotClient
