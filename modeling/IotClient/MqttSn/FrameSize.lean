import IotClient.MqttSn.RoundTrip

/-!
# The size of an MQTT-SN message

`sn_encode` allocates the length that `sn_get_length` gives. `Complete` are the messages whose
structs and texts are there, of every type but ENCAPSULATED. For each type the bytes written are
compared with the length (`fillsBuffer_iff`): they agree, but for a return code nobody counts,
and for the texts whose length formula knows no long header.
-/

namespace IotClient.MqttSn

open Mem

/-! ### Topics -/

/-- What names a topic: an id, or a text of a type that is not `ID`. -/
inductive TopicName where
  | id (topicId : UInt16) (value : Ptr CString)
  | text (topicId : Cell UInt16) (value : CString) (type : SnTopicType) (not_id : type ≠ .id)

namespace TopicName

def type : TopicName → SnTopicType
  | id .. => .id
  | text _ _ type _ => type

def struct (t : TopicName) (qos : Cell Nat) : SnTopic :=
  match t with
  | id topicId value => ⟨.is topicId, value, qos, .is .id⟩
  | text topicId value type _ => ⟨topicId, .ref value, qos, .is type⟩

def bytes : TopicName → List UInt8
  | id topicId _ => shortBytes topicId
  | text _ value _ _ => value.bytes

end TopicName

@[simp] theorem TopicName.get_qos (t : TopicName) (qos : Nat) :
    (t.struct (.is qos)).qos.get = .ok qos := by
  cases t <;> rfl

@[simp] theorem TopicName.get_type (t : TopicName) (qos : Cell Nat) :
    (t.struct qos).topicType.get = .ok t.type := by
  cases t <;> rfl

theorem topicLength_struct (t : TopicName) (qos : Cell Nat) :
    topicLength (.ref (t.struct qos)) = .ok (textLength 5 250 t.bytes.length) := by
  cases t with
  | id topicId value => rfl
  | text topicId value type not_id =>
    unfold topicLength
    rw [Ptr.deref_ref, ok_bind]
    simp only [TopicName.struct, Cell.get_is, ok_bind]
    rw [if_pos not_id]
    rfl

/-- The length of a message whose text is a topic. -/
theorem snGetLength_topic (t : TopicName) (qos : Cell Nat) :
    (do pure ((← topicLength (.ref (t.struct qos)) : Nat) : Int)) =
      (.ok (textLength 5 250 t.bytes.length : Nat) : Run Int) := by
  rw [topicLength_struct]
  rfl

theorem putTopic_emits (t : TopicName) (qos : Cell Nat) (h : t.bytes.length < 65536) :
    Emits (putTopic (t.struct qos) t.type) t.bytes := by
  cases t with
  | id topicId value => exact .lift_ok rfl (addShort_emits _)
  | text topicId value type not_id =>
    unfold putTopic TopicName.type
    rw [if_neg not_id]
    exact putText_emits h

/-! ### Bodies with a topic -/

section Bodies

variable {length : Int}

theorem putWillTopic_emits (topicId : Cell UInt16) (value : CString) (qos : Nat)
    (type : Cell SnTopicType) (retain : Int) (h : value.bytes.length < 65536) :
    Emits (putWillTopic (.ref ⟨topicId, .ref value, .is qos, type⟩) retain)
      (encodeFlags 0 (some qos) retain 0 0 none :: value.bytes) :=
  .seq (.put _) (putText_emits h)

theorem publish_emits (messageId : UInt16) (topic : TopicName) (qos : Nat) (data : CString)
    (dup retain : Int) (h : topic.bytes.length < 65536) (hdata : data.bytes.length < 65536) :
    Emits (snEncodeBody ⟨.publish, .ref (.publish
        ⟨messageId, topic.struct (.is qos), .ref data, dup, retain⟩)⟩ length)
      (encodeFlags dup (some qos) retain 0 0 (some topic.type) ::
        (topic.bytes ++ (shortBytes messageId ++ data.bytes))) :=
  .lift_ok rfl (.lift_ok (topic.get_qos qos) (.lift_ok (topic.get_type _)
    (.seq (.put _) (.seq (putTopic_emits topic _ h) (.seq (addShort_emits _)
      (putText_emits hdata))))))

theorem subscribe_emits (messageId : UInt16) (topic : TopicName) (qos : Nat) (dup : Int)
    (h : topic.bytes.length < 65536) :
    Emits (snEncodeBody ⟨.subscribe, .ref (.subscribe
        ⟨messageId, .ref (topic.struct (.is qos)), dup⟩)⟩ length)
      (encodeFlags dup (some qos) 0 0 0 (some topic.type) ::
        (shortBytes messageId ++ topic.bytes)) :=
  .lift_ok rfl (.lift_ok rfl (.lift_ok (topic.get_qos qos) (.lift_ok (topic.get_type _)
    (.seq (.put _) (.seq (addShort_emits _) (putTopic_emits topic _ h))))))

theorem unsubscribe_emits (messageId : UInt16) (topic : TopicName) (qos : Cell Nat)
    (h : topic.bytes.length < 65536) :
    Emits (snEncodeBody ⟨.unsubscribe, .ref (.unsubscribe
        ⟨messageId, .ref (topic.struct qos)⟩)⟩ length)
      (encodeFlags 0 none 0 0 0 (some topic.type) :: (shortBytes messageId ++ topic.bytes)) :=
  .lift_ok rfl (.lift_ok rfl (.lift_ok (topic.get_type _)
    (.seq (.put _) (.seq (addShort_emits _) (putTopic_emits topic _ h)))))

end Bodies

/-! ### Messages -/

/-- A message whose packet is that of its type and has the texts of its type. The address of a
gateway, the client ID of a ping and the topic of a will may be absent. -/
inductive Complete : SnMessage → Prop where
  | advertise (p : SnAdvertise) : Complete ⟨.advertise, .ref (.advertise p)⟩
  | searchgw (p : SnSearchGw) : Complete ⟨.searchgw, .ref (.searchgw p)⟩
  | gwinfo (gwId : UInt8) (gwAddress : Option CString) :
      Complete ⟨.gwinfo, .ref (.gwinfo ⟨gwId, .ofOption gwAddress⟩)⟩
  | connect (willPresent cleanSession : Int) (protocolId : UInt8) (duration : UInt16)
      (clientId : CString) : Complete ⟨.connect, .ref (.connect
        ⟨willPresent, cleanSession, protocolId, duration, .ref clientId⟩)⟩
  | connack (p : SnConnack) : Complete ⟨.connack, .ref (.connack p)⟩
  | willTopicReq (packet : Ptr SnPacket) : Complete ⟨.willTopicReq, packet⟩
  | willTopic (retain : Int) (topicId : Cell UInt16) (value : CString) (qos : Nat)
      (type : Cell SnTopicType) : Complete ⟨.willTopic, .ref (.willTopic
        ⟨retain, .ref ⟨topicId, .ref value, .is qos, type⟩⟩)⟩
  | noWillTopic (retain : Int) : Complete ⟨.willTopic, .ref (.willTopic ⟨retain, .null⟩)⟩
  | willMsgReq (packet : Ptr SnPacket) : Complete ⟨.willMsgReq, packet⟩
  | willMsg (text : CString) : Complete ⟨.willMsg, .ref (.willMsg ⟨.ref text⟩)⟩
  | register (topicId msgId : UInt16) (topicName : CString) :
      Complete ⟨.register, .ref (.register ⟨topicId, msgId, .ref topicName⟩)⟩
  | regack (p : SnRegAck) : Complete ⟨.regack, .ref (.regack p)⟩
  | publish (messageId : UInt16) (topic : TopicName) (two : topic.bytes.length = 2) (qos : Nat)
      (data : CString) (dup retain : Int) : Complete ⟨.publish, .ref (.publish
        ⟨messageId, topic.struct (.is qos), .ref data, dup, retain⟩)⟩
  | puback (p : SnPuback) : Complete ⟨.puback, .ref (.puback p)⟩
  | pubrec (p : SnPubrec) : Complete ⟨.pubrec, .ref (.pubrec p)⟩
  | pubrel (p : SnPubrel) : Complete ⟨.pubrel, .ref (.pubrel p)⟩
  | pubcomp (p : SnPubcomp) : Complete ⟨.pubcomp, .ref (.pubcomp p)⟩
  | subscribe (messageId : UInt16) (topic : TopicName) (qos : Nat) (dup : Int) :
      Complete ⟨.subscribe, .ref (.subscribe ⟨messageId, .ref (topic.struct (.is qos)), dup⟩)⟩
  | suback (p : SnSuback) : Complete ⟨.suback, .ref (.suback p)⟩
  | unsubscribe (messageId : UInt16) (topic : TopicName) (qos : Cell Nat) :
      Complete ⟨.unsubscribe, .ref (.unsubscribe ⟨messageId, .ref (topic.struct qos)⟩)⟩
  | unsuback (p : SnUnsuback) : Complete ⟨.unsuback, .ref (.unsuback p)⟩
  | pingreq (clientId : Option CString) :
      Complete ⟨.pingreq, .ref (.pingreq ⟨.ofOption clientId⟩)⟩
  | pingresp (packet : Ptr SnPacket) : Complete ⟨.pingresp, packet⟩
  | disconnect (p : SnDisconnect) : Complete ⟨.disconnect, .ref (.disconnect p)⟩
  | willTopicUpd (retain : Int) (topicId : Cell UInt16) (value : CString) (qos : Nat)
      (type : Cell SnTopicType) : Complete ⟨.willTopicUpd, .ref (.willTopicUpd
        ⟨retain, .ref ⟨topicId, .ref value, .is qos, type⟩⟩)⟩
  | noWillTopicUpd (retain : Int) :
      Complete ⟨.willTopicUpd, .ref (.willTopicUpd ⟨retain, .null⟩)⟩
  | willMsgUpd (text : CString) : Complete ⟨.willMsgUpd, .ref (.willMsgUpd ⟨.ref text⟩)⟩
  | willTopicResp (p : SnWillTopicResp) : Complete ⟨.willTopicResp, .ref (.willTopicResp p)⟩
  | willMsgResp (p : SnWillMsgResp) : Complete ⟨.willMsgResp, .ref (.willMsgResp p)⟩

/-- `sn_encode` fills the buffer of `length` bytes it allocates, and nothing else. -/
def FillsBuffer (m : SnMessage) (length : Int) : Prop :=
  ∃ out : List UInt8, (out.length : Int) = length ∧ snEncode m length = .ok (out.map some)

/-- The text is absent, or not longer than `most` bytes. -/
def AtMost (most : Nat) (p : Ptr CString) : Prop := p.Optional (·.bytes.length ≤ most)

/-- The length formula of the message counts what is written: it knows of the return code, and
of a long header if the text needs one. -/
def LengthAgrees (m : SnMessage) : Prop :=
  match m.messageType, m.packet with
  | .gwinfo, .ref (.gwinfo sgi) => AtMost 252 sgi.gwAddress
  | .connect, .ref (.connect sc) => AtMost 249 sc.clientId
  | .pingreq, .ref (.pingreq spr) => AtMost 253 spr.clientId
  | .willTopicResp, _ | .willMsgResp, _ => False
  | _, _ => True

/-! ### What is written -/

section Written

variable {m : SnMessage} {n : Nat} {body : List UInt8} {P : Prop}

theorem snEncode_body (h : Emits (snEncodeBody m n) body) :
    snEncode m n = emittedBlock n (lengthHeader n ++ m.messageType.toByte :: body) := by
  have hwire : Emits (do
      putLength n
      Enc.put m.messageType.toByte
      snEncodeBody m n) (lengthHeader n ++ m.messageType.toByte :: body) :=
    .seq (putLength_emits _) (.seq (.put _) h)
  unfold snEncode
  rw [if_neg (by omega), Int.toNat_natCast]
  exact hwire.block n

theorem length_framed (n : Nat) (type : UInt8) (body : List UInt8) :
    (lengthHeader n ++ type :: body).length = (if n ≤ 255 then 2 else 4) + body.length := by
  unfold lengthHeader
  split
  · rw [List.length_append, List.length_singleton, List.length_cons]
    omega
  · simp only [List.length_append, List.length_cons, length_shortBytes]
    omega

theorem fillsBuffer_body (h : Emits (snEncodeBody m n) body) :
    FillsBuffer m n ↔ (if n ≤ 255 then 2 else 4) + body.length = n := by
  unfold FillsBuffer
  rw [snEncode_body h, ← length_framed n m.messageType.toByte]
  generalize lengthHeader n ++ m.messageType.toByte :: body = wire
  constructor
  · rintro ⟨out, hout, hblock⟩
    unfold emittedBlock at hblock
    split at hblock
    · obtain ⟨rfl, -⟩ := Block.part_eq_map (Except.ok.inj hblock)
      omega
    · cases hblock
  · rintro rfl
    exact ⟨wire, rfl, emittedBlock_full wire⟩

/-- The buffer of a message whose length and body are known. -/
theorem fillsBuffer_of {length : Int} (h : snGetLength m = .ok length) (hle : length ≤ 65535)
    (hlength : snGetLength m = .ok (n : Int))
    (hbody : n ≤ 65535 → Emits (snEncodeBody m n) body) :
    FillsBuffer m length ↔ (if n ≤ 255 then 2 else 4) + body.length = n := by
  rw [hlength] at h
  cases h
  exact fillsBuffer_body (hbody (by omega))

/-- A message without a text. -/
theorem fillsBuffer_fixed {length : Int} (h : snGetLength m = .ok length) (hle : length ≤ 65535)
    (hlength : snGetLength m = .ok (n : Int)) (hbody : Emits (snEncodeBody m n) body)
    (hn : body.length + 2 = n) (hshort : n ≤ 255) : FillsBuffer m length := by
  refine (fillsBuffer_of h hle hlength fun _ => hbody).2 ?_
  rw [if_pos hshort]
  omega

/-- A text of `n` bytes behind `k` bytes, with a long header when it needs one. -/
theorem fillsBuffer_text {length : Int} (h : snGetLength m = .ok length) (hle : length ≤ 65535)
    (base most n : Nat) {k : Nat}
    (hlength : snGetLength m = .ok (textLength base most n : Nat))
    (hbody : n < 65536 → Emits (snEncodeBody m (textLength base most n : Nat)) body)
    (hsize : body.length = k + n) (hbase : base = k + 2) (hmost : base + most = 255) :
    FillsBuffer m length := by
  unfold textLength at hlength hbody
  refine (fillsBuffer_of h hle hlength fun hle => hbody (by omega)).2 ?_
  rw [hsize]
  split <;> split <;> omega

/-- A text of `n` bytes behind `k` bytes, whose length counts a short header. -/
theorem fillsBuffer_short {length : Int} (h : snGetLength m = .ok length) (hle : length ≤ 65535)
    (base most n : Nat) {k : Nat} (hlength : snGetLength m = .ok ((base + n : Nat) : Int))
    (hbody : n < 65536 → Emits (snEncodeBody m ((base + n : Nat) : Int)) body)
    (hsize : body.length = k + n) (hbase : base = k + 2) (hmost : base + most = 255) :
    FillsBuffer m length ↔ n ≤ most := by
  refine (fillsBuffer_of h hle hlength fun hle => hbody (by omega)).trans ?_
  rw [hsize]
  split <;> omega

end Written

/-- The buffer has the right size exactly when the message's length formula agrees with what is
written. -/
theorem fillsBuffer_iff {m : SnMessage} (hm : Complete m) {length : Int}
    (hlength : snGetLength m = .ok length) (hle : length ≤ 65535) :
    FillsBuffer m length ↔ LengthAgrees m := by
  cases hm with
  | advertise p =>
    exact iff_of_true (fillsBuffer_fixed hlength hle (n := 5) rfl
      (.seq (.put _) (addShort_emits _)) rfl (by omega)) trivial
  | searchgw p | connack p =>
    exact iff_of_true (fillsBuffer_fixed hlength hle (n := 3) rfl (.put _) rfl (by omega)) trivial
  | gwinfo gwId gwAddress =>
    cases gwAddress with
    | none =>
      exact iff_of_true (fillsBuffer_fixed hlength hle (n := 3) rfl
      (.seq (.put _) .nil) rfl (by omega)) trivial
    | some s =>
      refine fillsBuffer_short hlength hle 3 252 s.bytes.length rfl
        (fun hn => .seq (.put gwId) (putText_emits hn)) ?_ rfl rfl
      rw [List.length_append, List.length_singleton]
  | connect willPresent cleanSession protocolId duration clientId =>
    refine fillsBuffer_short hlength hle 6 249 clientId.bytes.length rfl
      (fun hn => .seq (.put _) (.seq (.put _) (.seq (addShort_emits _) (putText_emits hn))))
      ?_ rfl rfl
    simp only [List.length_append, List.length_singleton, length_shortBytes, ← Nat.add_assoc]
  | willTopicReq packet | willMsgReq packet | pingresp packet =>
    exact iff_of_true (fillsBuffer_fixed hlength hle (n := 2) rfl .nil rfl (by omega)) trivial
  | willTopic retain topicId value qos type | willTopicUpd retain topicId value qos type =>
    refine iff_of_true (fillsBuffer_text hlength hle 3 252 value.bytes.length rfl
      (putWillTopic_emits topicId value qos type retain) ?_ rfl rfl) trivial
    rw [List.length_cons, Nat.add_comm]
  | noWillTopic retain | noWillTopicUpd retain =>
    exact iff_of_true (fillsBuffer_fixed hlength hle (n := 2) rfl .nil rfl (by omega)) trivial
  | willMsg text | willMsgUpd text =>
    exact iff_of_true (fillsBuffer_text hlength hle 2 253 text.bytes.length rfl putText_emits
      (Nat.zero_add _).symm rfl rfl) trivial
  | register topicId msgId topicName =>
    refine iff_of_true (fillsBuffer_text hlength hle 6 249 topicName.bytes.length rfl
      (fun hn => .seq (addShort_emits _) (.seq (addShort_emits _) (putText_emits hn)))
      ?_ rfl rfl) trivial
    simp only [List.length_append, length_shortBytes, ← Nat.add_assoc]
  | regack p | puback p =>
    exact iff_of_true (fillsBuffer_fixed hlength hle (n := 7) rfl
      (.seq (addShort_emits _) (.seq (addShort_emits _) (.put _))) rfl (by omega)) trivial
  | publish messageId topic two qos data dup retain =>
    refine iff_of_true (fillsBuffer_text hlength hle 7 248 data.bytes.length rfl
      (publish_emits messageId topic qos data dup retain (by omega)) ?_ rfl rfl) trivial
    simp only [List.length_cons, List.length_append, length_shortBytes, two]
    omega
  | pubrec p | pubrel p | pubcomp p | unsuback p =>
    exact iff_of_true (fillsBuffer_fixed hlength hle (n := 4) rfl
      (addShort_emits _) rfl (by omega)) trivial
  | subscribe messageId topic qos dup =>
    refine iff_of_true (fillsBuffer_text hlength hle 5 250 topic.bytes.length
      (snGetLength_topic topic _) (subscribe_emits messageId topic qos dup) ?_ rfl rfl) trivial
    simp only [List.length_cons, List.length_append, length_shortBytes]
    omega
  | suback p =>
    exact iff_of_true (fillsBuffer_fixed hlength hle (n := 8) rfl
      (.seq (.put _) (.seq (addShort_emits _) (.seq (addShort_emits _) (.put _)))) rfl (by omega)) trivial
  | unsubscribe messageId topic qos =>
    refine iff_of_true (fillsBuffer_text hlength hle 5 250 topic.bytes.length
      (snGetLength_topic topic _) (unsubscribe_emits messageId topic qos) ?_ rfl rfl) trivial
    simp only [List.length_cons, List.length_append, length_shortBytes]
    omega
  | pingreq clientId =>
    cases clientId with
    | none =>
      exact iff_of_true (fillsBuffer_fixed hlength hle (n := 2) rfl .nil rfl (by omega)) trivial
    | some s =>
      refine fillsBuffer_short hlength hle 2 253 s.bytes.length rfl
        (fun hn => .of_eq (.when fun _ => .lift_ok rfl (putText_emits hn)) (?_ : _ = s.bytes))
        (Nat.zero_add _).symm rfl rfl
      split
      · rfl
      · next hshort => exact (List.eq_nil_of_length_eq_zero (by omega)).symm
  | disconnect p =>
    have hsize : snGetLength ⟨.disconnect, .ref (.disconnect p)⟩ =
      .ok (if p.duration > 0 then 2 + 2 else 2) := rfl
    by_cases hd : p.duration > 0
    · rw [if_pos hd] at hsize
      exact iff_of_true (fillsBuffer_fixed hlength hle (n := 4) hsize
        (.lift_ok rfl (addShort_emits _)) rfl (by omega)) trivial
    · rw [if_neg hd] at hsize
      exact iff_of_true (fillsBuffer_fixed hlength hle (n := 2) hsize .nil rfl (by omega)) trivial
  | willTopicResp p | willMsgResp p =>
    refine iff_of_false (fun h => ?_) id
    have hsizes := (fillsBuffer_of hlength hle (n := 2) rfl fun _ => .put _).1 h
    simp at hsizes

theorem pingreq_fillsBuffer : FillsBuffer ⟨.pingreq, .ref (.pingreq ⟨.ref (.literal "c")⟩)⟩ 3 :=
  (fillsBuffer_iff (.pingreq (some (.literal "c"))) rfl (by decide)).2
    (show (CString.literal "c").bytes.length ≤ 253 by decide)

/-- The return code of a WILL_TOPIC_RESP has no place in the two bytes of its length. -/
theorem willTopicResp_not_fillsBuffer :
    snGetLength ⟨.willTopicResp, .ref (.willTopicResp ⟨0⟩)⟩ = .ok 2 ∧
      snEncode ⟨.willTopicResp, .ref (.willTopicResp ⟨0⟩)⟩ 2 = .error .writeOut ∧
      ¬ ∀ m, Complete m → ∀ length, snGetLength m = .ok length → length ≤ 65535 →
        FillsBuffer m length := by
  have herror : snEncode ⟨.willTopicResp, .ref (.willTopicResp ⟨0⟩)⟩ 2 = .error .writeOut := by
    decide
  refine ⟨rfl, herror, fun h => ?_⟩
  obtain ⟨out, -, hout⟩ := h _ (.willTopicResp ⟨0⟩) 2 rfl (by decide)
  rw [herror] at hout
  cases hout

end IotClient.MqttSn
