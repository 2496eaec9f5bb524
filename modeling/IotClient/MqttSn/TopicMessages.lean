import IotClient.MqttSn.Datagrams
import IotClient.MqttSn.FrameSize

/-!
# Messages with a topic, there and back

The messages that `sn_decode` cannot read back: a will topic is read from behind its place, the
topic of a SUBSCRIBE, UNSUBSCRIBE or WILL_TOPIC_UPD is stored through a wild pointer, and the
topic of a PUBLISH gets no type. `roundTrips_iff` says that only an empty WILL_TOPIC_UPD survives.
-/

namespace IotClient.MqttSn

open Mem

/-- A will topic, whose id and type are not sent. -/
structure WillText where
  topicId : Cell UInt16
  value : CString
  qos : Fin 4
  type : Cell SnTopicType

def WillText.struct (w : WillText) : SnTopic := ⟨w.topicId, .ref w.value, .is w.qos, w.type⟩

inductive TopicMessage where
  | willTopic (retain : Bool) (topic : Option WillText)
  | willTopicUpd (retain : Bool) (topic : Option WillText)
  | subscribe (messageId : UInt16) (topic : TopicName) (qos : Fin 4) (dup : Bool)
  | unsubscribe (messageId : UInt16) (topic : TopicName) (qos : Cell Nat)
  | publish (messageId : UInt16) (topicId : Cell UInt16) (name : CString)
      (two : name.bytes.length = 2) (qos : Fin 4) (data : CString) (data_ne : data.bytes ≠ [])
      (dup retain : Bool)

namespace TopicMessage

theorem short_ne_id : SnTopicType.short ≠ .id := by decide

def type : TopicMessage → SnMessageType
  | willTopic .. => .willTopic
  | willTopicUpd .. => .willTopicUpd
  | subscribe .. => .subscribe
  | unsubscribe .. => .unsubscribe
  | publish .. => .publish

def packet : TopicMessage → SnPacket
  | willTopic retain topic => .willTopic ⟨retain.toNat, .ofOption (topic.map WillText.struct)⟩
  | willTopicUpd retain topic =>
    .willTopicUpd ⟨retain.toNat, .ofOption (topic.map WillText.struct)⟩
  | subscribe messageId topic qos dup =>
    .subscribe ⟨messageId, .ref (topic.struct (.is qos)), dup.toNat⟩
  | unsubscribe messageId topic qos => .unsubscribe ⟨messageId, .ref (topic.struct qos)⟩
  | publish messageId topicId name _ qos data _ dup retain => .publish
      ⟨messageId, (TopicName.text topicId name .short short_ne_id).struct (.is qos), .ref data,
        dup.toNat, retain.toNat⟩

def message (t : TopicMessage) : SnMessage := ⟨t.type, .ref t.packet⟩

/-- The bytes of a will topic behind the type. -/
def willBody (retain : Bool) : Option WillText → List UInt8
  | none => []
  | some w => encodeFlags 0 (some w.qos) retain.toNat 0 0 none :: w.value.bytes

/-- What follows the type byte. -/
def body : TopicMessage → List UInt8
  | willTopic retain topic | willTopicUpd retain topic => willBody retain topic
  | subscribe messageId topic qos dup =>
    encodeFlags dup.toNat (some qos) 0 0 0 (some topic.type) ::
      (shortBytes messageId ++ topic.bytes)
  | unsubscribe messageId topic _ =>
    encodeFlags 0 none 0 0 0 (some topic.type) :: (shortBytes messageId ++ topic.bytes)
  | publish messageId _ name _ qos data _ dup retain =>
    encodeFlags dup.toNat (some qos) retain.toNat 0 0 (some .short) ::
      (name.bytes ++ (shortBytes messageId ++ data.bytes))

/-- The whole message. -/
def size (t : TopicMessage) : Nat :=
  if t.body.length ≤ 253 then t.body.length + 2 else t.body.length + 4

end TopicMessage

/-! ### The same message -/

/-- The wills agree in what is sent of them. -/
def SameWill (p q : Ptr SnTopic) : Prop :=
  p.map (fun t => (t.value, t.qos)) = q.map fun t => (t.value, t.qos)

/-- The topics agree in type and QoS, and in the id or the text, as the type has it. -/
def SameTopic (t u : SnTopic) : Prop :=
  t.topicType = u.topicType ∧ t.qos = u.qos ∧
    if t.topicType = .is .id then t.id = u.id else t.value = u.value

/-- The packets are of one type and agree in the fields that are sent. -/
def SamePacket : SnPacket → SnPacket → Prop
  | .willTopic p, .willTopic q => p.retain = q.retain ∧ SameWill p.topic q.topic
  | .willTopicUpd p, .willTopicUpd q => p.retain = q.retain ∧ SameWill p.topic q.topic
  | .subscribe p, .subscribe q => p.messageId = q.messageId ∧ p.dup = q.dup ∧
      ∃ t u, p.topic = .ref t ∧ q.topic = .ref u ∧ SameTopic t u
  | .unsubscribe p, .unsubscribe q => p.messageId = q.messageId ∧
      ∃ t u, p.topic = .ref t ∧ q.topic = .ref u ∧ SameTopic t u
  | .publish p, .publish q => p.messageId = q.messageId ∧ p.dup = q.dup ∧ p.retain = q.retain ∧
      p.data = q.data ∧ SameTopic p.topic q.topic
  | _, _ => False

/-- What is encoded is decoded to the same message. -/
def ReadBack (t : TopicMessage) : Prop :=
  ∃ length out packet, snGetLength t.message = .ok length ∧
    snEncode t.message length = .ok (List.map some out) ∧
    snDecode out = .ok ⟨t.type, .ref packet⟩ ∧ SamePacket t.packet packet

/-! ### There -/

theorem snGetLength_topicMessage (t : TopicMessage) : snGetLength t.message = .ok (t.size : Int) := by
  cases t with
  | willTopic retain topic | willTopicUpd retain topic =>
    cases topic with
    | none => rfl
    | some w =>
      have hlen : (TopicMessage.willBody retain (some w)).length + 2 =
        3 + w.value.bytes.length := by
        simp only [TopicMessage.willBody, List.length_cons]
        omega
      unfold TopicMessage.size
      rw [TopicMessage.body, ← textLength_of_body 3 252 _ hlen rfl]
      rfl
  | subscribe messageId topic qos dup =>
    unfold TopicMessage.size
    rw [← textLength_of_body 5 250 topic.bytes.length _ rfl]
    · exact snGetLength_topic topic _
    · simp only [TopicMessage.body, List.length_cons, List.length_append, length_shortBytes]
      omega
  | unsubscribe messageId topic qos =>
    unfold TopicMessage.size
    rw [← textLength_of_body 5 250 topic.bytes.length _ rfl]
    · exact snGetLength_topic topic _
    · simp only [TopicMessage.body, List.length_cons, List.length_append, length_shortBytes]
      omega
  | publish messageId topicId name two qos data data_ne dup retain =>
    unfold TopicMessage.size
    rw [← textLength_of_body 7 248 data.bytes.length _ rfl]
    · rfl
    · simp only [TopicMessage.body, List.length_cons, List.length_append, length_shortBytes, two]
      omega

theorem TopicMessage.length_body_lt {t : TopicMessage} (h : t.size ≤ 65535) :
    t.body.length < 65536 := by
  unfold size at h
  split at h <;> omega

theorem TopicMessage.emits (t : TopicMessage) (h : t.size ≤ 65535) (length : Int) :
    Emits (snEncodeBody t.message length) t.body := by
  have hbody := length_body_lt h
  cases t with
  | willTopic retain topic | willTopicUpd retain topic =>
    cases topic with
    | none => exact .nil
    | some w =>
      refine putWillTopic_emits w.topicId w.value w.qos w.type retain.toNat ?_
      simp only [body, willBody, List.length_cons] at hbody
      omega
  | subscribe messageId topic qos dup =>
    refine subscribe_emits messageId topic qos dup.toNat ?_
    simp only [body, List.length_cons, List.length_append] at hbody
    omega
  | unsubscribe messageId topic qos =>
    refine unsubscribe_emits messageId topic qos ?_
    simp only [body, List.length_cons, List.length_append] at hbody
    omega
  | publish messageId topicId name two qos data data_ne dup retain =>
    refine publish_emits messageId (.text topicId name .short short_ne_id) qos data dup.toNat
      retain.toNat (two.trans_lt (by omega)) ?_
    simp only [body, List.length_cons, List.length_append] at hbody
    omega

theorem datagramFits_framed {type : SnMessageType} (htype : type ∈ SnMessageType.all)
    {body : List UInt8} {n : Nat} (hn : n ≤ 65535)
    (hsize : n = if n ≤ 255 then body.length + 2 else body.length + 4) :
    DatagramFits (lengthHeader n ++ type.toByte :: body) ↔ Fits body.length body.length type := by
  by_cases hs : n ≤ 255
  · have hbyte : (UInt8.ofNat n).toNat = n := toNat_ofNat_of_lt (by omega)
    rw [if_pos hs] at hsize
    have hne : UInt8.ofNat n ≠ THREE_OCTET_LENGTH_SUFFIX := by
      intro h0
      have h1 : (THREE_OCTET_LENGTH_SUFFIX).toNat = 1 := rfl
      rw [h0, h1] at hbyte
      omega
    have hleft : ((UInt8.ofNat n).toNat : Int) - 2 = body.length := by omega
    rw [lengthHeader, if_pos hs, List.singleton_append, DatagramFits, if_neg hne, ShortFits, hleft,
      SnMessageType.ofByte_toByte htype]
  · have hshort : (UInt16.ofNat n).toNat = n := short_toNat_of_lt (by omega)
    rw [if_neg hs] at hsize
    have hleft : ((UInt16.ofNat n).toNat : Int) - 4 = body.length := by omega
    rw [lengthHeader, if_neg hs, shortBytes, List.cons_append, DatagramFits, if_pos rfl,
      List.cons_append, List.cons_append, List.nil_append, LongFits, short_join, hleft,
      SnMessageType.ofByte_toByte htype]

/-- The encoded message, and how far its decoding has come with the type. -/
theorem TopicMessage.encoded (t : TopicMessage) (h : t.size ≤ 65535) :
    ∃ out i, snEncode t.message t.size = .ok (List.map some out) ∧
      (DatagramFits out ↔ Fits t.body.length t.body.length t.type) ∧ snDecode out = (do
        let packet ← snDecodeBody out i t.body.length t.type
        pure ⟨t.type, packet⟩) := by
  have htype : t.type ∈ SnMessageType.all := by
    cases t <;> simp only [type] <;> decide
  have hsize : t.size = if t.size ≤ 255 then t.body.length + 2 else t.body.length + 4 := by
    unfold size
    split <;> split <;> omega
  have hfull : (lengthHeader t.size ++ t.type.toByte :: t.body).length = t.size := by
    rw [length_framed]
    split at hsize <;> split <;> omega
  obtain ⟨i, -, hdecode⟩ := snDecode_framed htype [] h hsize
  rw [List.append_nil] at hdecode
  refine ⟨lengthHeader t.size ++ t.type.toByte :: t.body, i, ?_, datagramFits_framed htype h hsize,
    hdecode⟩
  have hblock := emittedBlock_full (lengthHeader t.size ++ t.type.toByte :: t.body)
  rw [hfull] at hblock
  exact (snEncode_body (t.emits h _)).trans hblock

/-! ### And back -/

/-- A PUBLISH that was read has a topic without a type. -/
theorem decodePublish_type {buf : List UInt8} {i : Nat} {n : Int} {packet : Ptr SnPacket}
    (h : decodePublish buf i n = .ok packet) :
    ∃ sp, packet = .ref (.publish sp) ∧ sp.topic.topicType = .indet := by
  unfold decodePublish at h
  by_cases hdata : n - 1 - 2 - 2 > 0
  · simp only [if_pos hdata] at h
    obtain ⟨flags, -, h⟩ := bind_eq_ok.1 h
    obtain ⟨topicId, -, h⟩ := bind_eq_ok.1 h
    obtain ⟨messageId, -, h⟩ := bind_eq_ok.1 h
    obtain ⟨data, -, h⟩ := bind_eq_ok.1 h
    cases h
    exact ⟨_, rfl, rfl⟩
  · simp only [if_neg hdata] at h
    obtain ⟨flags, -, h⟩ := bind_eq_ok.1 h
    obtain ⟨topicId, -, h⟩ := bind_eq_ok.1 h
    obtain ⟨messageId, -, h⟩ := bind_eq_ok.1 h
    cases h

/-- What is read of a message is not the message, unless that is an empty WILL_TOPIC_UPD. -/
theorem TopicMessage.eq_of_read {t : TopicMessage} {buf : List UInt8} {i : Nat} {packet : SnPacket}
    (hfits : Fits t.body.length t.body.length t.type)
    (hdecode : snDecodeBody buf i t.body.length t.type = .ok (.ref packet))
    (hsame : SamePacket t.packet packet) : t = .willTopicUpd false none := by
  cases t with
  | willTopic retain topic =>
    obtain ⟨hpos, hroom⟩ := hfits
    exact absurd (hroom (by omega)) (by omega)
  | willTopicUpd retain topic =>
    cases topic with
    | none =>
      cases hdecode
      have hretain : (retain.toNat : Int) = 0 := hsame.1
      cases retain with
      | false => rfl
      | true => cases hretain
    | some w =>
      have hempty : ((TopicMessage.willTopicUpd retain (some w)).body.length : Int) ≤ 0 := hfits
      simp only [body, willBody, List.length_cons] at hempty
      omega
  | subscribe messageId topic qos dup => exact hfits.elim
  | unsubscribe messageId topic qos => exact hfits.elim
  | publish messageId topicId name two qos data data_ne dup retain =>
    obtain ⟨sp, hsp, htype⟩ := decodePublish_type hdecode
    cases hsp
    have hsameType : Cell.is SnTopicType.short = sp.topic.topicType := hsame.2.2.2.2.1
    rw [htype] at hsameType
    cases hsameType

/-- Of the messages with a topic only an empty WILL_TOPIC_UPD is read back. -/
theorem readBack_iff (t : TopicMessage) {length : Int} (hlength : snGetLength t.message = .ok length)
    (hle : length ≤ 65535) : ReadBack t ↔ t = .willTopicUpd false none := by
  constructor
  · rintro ⟨length', out, packet, hlength', hencode, hdecode, hsame⟩
    rw [snGetLength_topicMessage] at hlength hlength'
    cases hlength
    cases hlength'
    obtain ⟨out', i, hencode', hfits, hbody⟩ := t.encoded (by omega)
    rw [hencode] at hencode'
    obtain rfl : out = out' := List.map_inj_right (fun _ _ => Option.some.inj) |>.1
      (Except.ok.inj hencode')
    have hreturns := hfits.1 ((snDecode_returns out).1 ⟨_, hdecode⟩)
    rw [hbody] at hdecode
    obtain ⟨p, hp, hmessage⟩ := bind_eq_ok.1 hdecode
    cases hmessage
    exact TopicMessage.eq_of_read hreturns hp hsame
  · rintro rfl
    exact ⟨2, [2, 0x1a], .willTopicUpd ⟨0, .null⟩, rfl, by decide, by decide, rfl, rfl⟩

theorem emptyWillTopicUpd_readBack : ReadBack (.willTopicUpd false none) :=
  (readBack_iff (.willTopicUpd false none) rfl (by decide)).2 rfl

/-- A SUBSCRIBE to a topic id, as it is sent. -/
def subscribeBytes : List UInt8 := [7, 0x12, 0x21, 0, 5, 0, 1]

theorem subscribe_not_readBack :
    snEncode (TopicMessage.subscribe 5 (.id 1 .indet) 1 false).message 7 =
        .ok (subscribeBytes.map some) ∧
      snDecode subscribeBytes = .error .indet ∧
      ¬ ∀ (t : TopicMessage) (length : Int), snGetLength t.message = .ok length →
        length ≤ 65535 → ReadBack t := by
  have hencode : snEncode (TopicMessage.subscribe 5 (.id 1 .indet) 1 false).message 7 =
    .ok (subscribeBytes.map some) := by decide
  have hdecode : snDecode subscribeBytes = .error .indet := by decide
  refine ⟨hencode, hdecode, fun h => ?_⟩
  obtain ⟨length, out, packet, hlength, hout, hread, -⟩ :=
    h (.subscribe 5 (.id 1 .indet) 1 false) 7 rfl (by decide)
  cases hlength
  have hout := hencode.symm.trans hout
  obtain rfl : subscribeBytes = out :=
    List.map_inj_right (fun _ _ => Option.some.inj) |>.1 (Except.ok.inj hout)
  rw [hdecode] at hread
  cases hread

end IotClient.MqttSn
