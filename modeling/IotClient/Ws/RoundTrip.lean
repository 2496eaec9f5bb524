import IotClient.Json.Text
import IotClient.Mqtt.Broker
import IotClient.Ws.Parser

/-!
# Messages from a broker as JSON

`BrokerMessage` is a message of a type a broker sends, `message` the struct that stands for
it. `Carries m b` says that a message has the type and the fields of `b`. What `wsEncode`
writes of such a message, `wsDecode` reads back (`wsDecode_wsEncode`), for every JSON library
that reads back the objects it writes; `Json.dumps` and `Json.loads` are one.
-/

namespace IotClient.Ws

open Mem Json Mqtt

/-- A PUBLISH whose topic is UTF-8, with a payload. The packet id may be anything. -/
structure Publication where
  topic : CString
  content : CString
  qos : Fin 3
  dup : Bool
  retain : Bool
  packetId : UInt16
  topic_utf8 : utf8 topic.bytes = true
  content_ne : content.bytes ≠ []
  dup_qos : dup = true → (qos : Nat) ≠ 0

inductive BrokerMessage where
  | connack (sessionPresent : Bool) (code : Fin 6)
  | publish (p : Publication)
  | puback (packetId : UInt16)
  | pubrec (packetId : UInt16)
  | pubrel (packetId : UInt16)
  | pubcomp (packetId : UInt16)
  | suback (packetId : UInt16) (codes : List SubackCode) (codes_ne : codes ≠ [])
  | unsuback (packetId : UInt16)
  | pingresp

namespace BrokerMessage

def type : BrokerMessage → MessageType
  | connack .. => .connack
  | publish _ => .publish
  | puback _ => .puback
  | pubrec _ => .pubrec
  | pubrel _ => .pubrel
  | pubcomp _ => .pubcomp
  | suback .. => .suback
  | unsuback _ => .unsuback
  | pingresp => .pingresp

/-- What `message->packet` points at; a PINGRESP has none. -/
def packet : BrokerMessage → Ptr Packet
  | connack sessionPresent code => .ref (.connack ⟨sessionPresent.toNat, code⟩)
  | publish p => .ref (.publish {
      topic := ⟨.ref p.topic, .is p.qos⟩
      content := .ref p.content
      retain := p.retain.toNat
      dup := p.dup.toNat
      packetId := .is p.packetId })
  | puback packetId => .ref (.puback ⟨packetId⟩)
  | pubrec packetId => .ref (.pubrec ⟨packetId⟩)
  | pubrel packetId => .ref (.pubrel ⟨packetId⟩)
  | pubcomp packetId => .ref (.pubcomp ⟨packetId⟩)
  | suback packetId codes _ =>
    .ref (.suback ⟨packetId, codes.length, .ref (codes.map (·.toByte.toNat))⟩)
  | unsuback packetId => .ref (.unsuback ⟨packetId⟩)
  | pingresp => .null

def message (b : BrokerMessage) : Message := ⟨.is b.type, b.packet⟩

/-- The message has the type and the fields of `b`; the packet id of a QoS 0 PUBLISH may be
anything, and so may the packet of a PINGRESP. -/
def Carries (b : BrokerMessage) (m : Message) : Prop :=
  m.messageType = .is b.type ∧
    match b with
    | publish q => ∃ r : Publish, m.packet = .ref (.publish r) ∧
        r.topic = ⟨.ref q.topic, .is q.qos⟩ ∧ r.content = .ref q.content ∧
        r.retain = q.retain.toNat ∧ r.dup = q.dup.toNat ∧
        ((q.qos : Nat) ≠ 0 → r.packetId = .is q.packetId)
    | pingresp => True
    | b => m.packet = b.packet

end BrokerMessage

/-! ### What one member gives back -/

section Member

theorem flag_jsonBool (b : Bool) : flag (jsonBool b.toNat) = .ok b.toNat := by
  cases b <;> rfl

theorem enumValue_natCast {n : Nat} (h : n < 2 ^ 32) : enumValue n = n := by
  rw [enumValue]; omega

theorem intValue_natCast {n : Nat} (h : n < 2 ^ 31) : intValue n = n := by
  rw [intValue, Int.bmod_def]; omega

theorem jsonStringn_base64 (data : List UInt8) :
    jsonStringn (base64Encode data) = some (.str (base64Encode data)) :=
  if_pos (utf8_ascii fun x hx => (base64Encode_ascii x hx).2)

/-- The content comes back from its base64 string. -/
theorem decodeContent_base64 {content : CString} (hne : content.bytes ≠ []) :
    decodeContent (stringValue (some (.str (base64Encode content.bytes)))) = .ok (.ref content) := by
  have hnul : 0 ∉ base64Encode content.bytes := fun h => absurd (base64Encode_ascii 0 h).1 (by decide)
  rw [stringValue, CString.ofBytes_of_nulFree hnul, decodeContent, Ptr.deref_ref, ok_bind,
    base64Decode_encode hne, ok_bind]
  simp

theorem valid_jsonInteger (n : Nat) (h : n < 2 ^ 63) : ∀ w, jsonInteger n = some w → w.Valid := by
  rintro w ⟨⟩
  exact .int (by omega) (by omega)

theorem valid_jsonBool (b : Int) : ∀ w, jsonBool b = some w → w.Valid := by
  rintro w ⟨⟩
  exact .bool _

end Member

/-! ### The messages -/

/-- An object from which `wsDecode` makes a message that carries `b`. -/
structure Holds (b : BrokerMessage) (root : Members) : Prop where
  valid : (Value.obj root).Valid
  type : objectGet (some (.obj root)) "packet" = jsonInteger b.type.toByte.toNat
  back : ∃ m, decodeType (some (.obj root)) b.type = .ok (some m) ∧ b.Carries m

theorem packetOf_valid (t : MessageType) : (Value.obj (packetOf t)).Valid :=
  valid_setNew valid_empty (by decide) (valid_jsonInteger _ (by cases t <;> decide))

theorem packetOf_type (t : MessageType) :
    objectGet (some (.obj (packetOf t))) "packet" = jsonInteger t.toByte.toNat :=
  objectGet_self rfl

theorem encodeId_valid (t : MessageType) (packetId : UInt16) :
    (Value.obj (encodeId t packetId)).Valid := by
  have hid := packetId.toNat_lt
  exact valid_setNew (packetOf_valid t) (by decide) (valid_jsonInteger _ (by omega))

theorem encodeId_type (t : MessageType) (packetId : UInt16) :
    objectGet (some (.obj (encodeId t packetId))) "packet" = jsonInteger t.toByte.toNat := by
  unfold encodeId
  rw [objectGet_ne (by decide), packetOf_type]

/-- The packet id comes back from its member. -/
theorem packetIdOf_eq {j : Option Value} {packetId : UInt16}
    (h : objectGet j "packetID" = jsonInteger packetId.toNat) : packetIdOf j = packetId := by
  unfold packetIdOf
  rw [h]
  show UInt16.ofInt (packetId.toNat : Int) = packetId
  rw [short_ofInt_natCast, UInt16.ofNat_toNat]

theorem decodeId_encodeId (t : MessageType) (packet : UInt16 → Packet) (packetId : UInt16) :
    decodeId t packet (some (.obj (encodeId t packetId))) =
      .ok (some ⟨.is t, .ref (packet packetId)⟩) := by
  have hid : packetIdOf (some (.obj (encodeId t packetId))) = packetId :=
    packetIdOf_eq (objectGet_self rfl)
  unfold decodeId
  rw [hid]
  rfl

theorem connack_holds (sessionPresent : Bool) (code : Fin 6) :
    Holds (.connack sessionPresent code) (encodeConnack ⟨sessionPresent.toNat, code⟩) where
  valid := by
    refine valid_setNew (valid_setNew (packetOf_valid _) (by decide) ?_) (by decide)
      (valid_jsonBool _)
    exact valid_jsonInteger code (by omega)
  type := by
    unfold encodeConnack
    rw [objectGet_ne (by decide), objectGet_ne (by decide), packetOf_type]
    rfl
  back := by
    refine ⟨⟨.is .connack, .ref (.connack ⟨sessionPresent.toNat, code⟩)⟩, ?_, rfl, rfl⟩
    show decodeConnack _ = _
    unfold decodeConnack encodeConnack
    rw [objectGet_self rfl, flag_jsonBool, ok_bind,
      objectGet_ne (by decide), objectGet_self rfl]
    revert sessionPresent code
    decide

/-! ### PUBLISH -/

section Publish

variable (q : Publication)

/-- The object of the topic. -/
def topicOf : Members :=
  setNew (setNew [] "name" (some (.str q.topic.bytes))) "qos" (jsonInteger (q.qos : Nat))

/-- The object of a PUBLISH up to the packet id, which is left out when it is 0. -/
def publishHead : Members :=
  if q.packetId ≠ 0 then setNew (packetOf .publish) "packetID" (jsonInteger q.packetId.toNat)
  else packetOf .publish

def publishOf : Members :=
  let root := setNew (publishHead q) "topic" (some (.obj (topicOf q)))
  let root := setNew root "content" (some (.str (base64Encode q.content.bytes)))
  let root := setNew root "retain" (jsonBool q.retain.toNat)
  setNew root "dup" (jsonBool q.dup.toNat)

theorem encodeMessage_publish (p : Publish) :
    encodeMessage ⟨.is .publish, .ref (.publish p)⟩ = encodePublish p := rfl

theorem encodePublish_eq :
    encodeMessage (BrokerMessage.publish q).message = .ok (publishOf q) := by
  have htopic : topicValue ⟨.ref q.topic, .is q.qos⟩ = .ok (.obj (topicOf q)) := by
    unfold topicValue
    rw [jsonString, jsonStringn, if_pos q.topic_utf8]
    rfl
  have hcontent : contentValue (.ref q.content) =
      .ok (some (.str (base64Encode q.content.bytes))) := by
    unfold contentValue
    rw [Ptr.deref_ref, ok_bind, jsonStringn_base64]
    rfl
  refine (encodeMessage_publish _).trans ?_
  unfold encodePublish
  rw [Cell.get_is, ok_bind, htopic, ok_bind, hcontent]
  rfl

theorem topicOf_valid : (Value.obj (topicOf q)).Valid := by
  refine valid_setNew (valid_setNew valid_empty (by decide) ?_) (by decide)
    (valid_jsonInteger q.qos (by omega))
  rintro w ⟨⟩
  exact .str ⟨q.topic_utf8, q.topic.nulFree⟩

theorem publishHead_valid : (Value.obj (publishHead q)).Valid := by
  have hid := q.packetId.toNat_lt
  unfold publishHead
  split
  · exact valid_setNew (packetOf_valid _) (by decide) (valid_jsonInteger _ (by omega))
  · exact packetOf_valid _

theorem publishOf_valid : (Value.obj (publishOf q)).Valid := by
  refine valid_setNew (valid_setNew (valid_setNew (valid_setNew (publishHead_valid q) (by decide) ?_)
    (by decide) ?_) (by decide) (valid_jsonBool _)) (by decide) (valid_jsonBool _)
  · rintro w ⟨⟩
    exact topicOf_valid q
  · rintro w ⟨⟩
    exact .str (isText_ascii base64Encode_ascii)

/-- The members of the head are seen through those set after it. -/
theorem objectGet_publishOf {k : String} (h : key k ∉ ["topic", "content", "retain", "dup"].map key) :
    objectGet (some (.obj (publishOf q))) k = objectGet (some (.obj (publishHead q))) k := by
  simp only [List.map_cons, List.map_nil, List.mem_cons, List.not_mem_nil, or_false, not_or] at h
  obtain ⟨htopic, hcontent, hretain, hdup⟩ := h
  unfold publishOf
  rw [objectGet_ne hdup, objectGet_ne hretain, objectGet_ne hcontent,
    objectGet_ne htopic]

theorem publishOf_type :
    objectGet (some (.obj (publishOf q))) "packet" = jsonInteger MessageType.publish.toByte.toNat := by
  rw [objectGet_publishOf q (by decide), publishHead]
  split
  · rw [objectGet_ne (by decide), packetOf_type]
  · exact packetOf_type _

/-- The packet id comes back also when it was left out. -/
theorem publishOf_packetId :
    UInt16.ofInt (intValue (integerValue (objectGet (some (.obj (publishOf q))) "packetID"))) =
      q.packetId := by
  have hid := q.packetId.toNat_lt
  rw [objectGet_publishOf q (by decide), publishHead]
  split
  · rw [objectGet_self rfl]
    show UInt16.ofInt (intValue (q.packetId.toNat : Int)) = _
    rw [intValue_natCast (by omega), short_ofInt_natCast, UInt16.ofNat_toNat]
  case isFalse h =>
    have h0 : q.packetId = 0 := by simpa using h
    rw [h0]
    decide

theorem publish_holds : Holds (.publish q) (publishOf q) where
  valid := publishOf_valid q
  type := publishOf_type q
  back := by
    have hqos2 : ¬ (q.qos : Nat) > 2 := by omega
    have hdq : ¬ ((q.dup.toNat : Int) ≠ 0 ∧ (q.qos : Nat) = 0) := by
      rintro ⟨hd, hq⟩
      have hdup : q.dup = true := by
        cases h : q.dup
        · rw [h] at hd; exact absurd rfl hd
        · rfl
      exact q.dup_qos hdup hq
    have hcontent : objectGet (some (.obj (publishOf q))) "content" =
        some (.str (base64Encode q.content.bytes)) := by
      unfold publishOf
      rw [objectGet_ne (by decide), objectGet_ne (by decide), objectGet_self rfl]
    have hretain : objectGet (some (.obj (publishOf q))) "retain" = jsonBool q.retain.toNat := by
      unfold publishOf
      rw [objectGet_ne (by decide), objectGet_self rfl]
    have hdup : objectGet (some (.obj (publishOf q))) "dup" = jsonBool q.dup.toNat := by
      unfold publishOf
      rw [objectGet_self rfl]
    have htopic : objectGet (some (.obj (publishOf q))) "topic" = some (.obj (topicOf q)) := by
      unfold publishOf
      rw [objectGet_ne (by decide), objectGet_ne (by decide), objectGet_ne (by decide),
        objectGet_self rfl]
    have hname : stringValue (objectGet (some (.obj (topicOf q))) "name") = .ref q.topic := by
      unfold topicOf
      rw [objectGet_ne (by decide), objectGet_self rfl, stringValue,
        CString.ofBytes_bytes]
    have hqos : enumValue (integerValue (objectGet (some (.obj (topicOf q))) "qos")) = q.qos := by
      unfold topicOf
      rw [objectGet_self rfl]
      exact enumValue_natCast (by omega)
    refine ⟨⟨.is .publish, .ref (.publish {
      topic := ⟨.ref q.topic, .is q.qos⟩
      content := .ref q.content
      retain := q.retain.toNat
      dup := q.dup.toNat
      packetId := if (q.qos : Nat) ≠ 0 then .is q.packetId else .indet })⟩, ?_, rfl, _, rfl, rfl,
      rfl, rfl, rfl, fun hq => if_pos hq⟩
    show decodePublish _ = _
    unfold decodePublish
    rw [hcontent, decodeContent_base64 q.content_ne, ok_bind, hretain,
      flag_jsonBool, ok_bind, hdup, flag_jsonBool, ok_bind]
    simp only [htopic, hname, hqos, publishOf_packetId, if_neg hqos2, if_neg hdq, pure_eq_ok]

end Publish

/-! ### SUBACK -/

section Suback

variable (packetId : UInt16) (codes : List SubackCode)

def codesOf : Value := .arr (codes.map fun c => .int c.toByte.toNat)

def subackOf : Members := setNew (encodeId .suback packetId) "returnCodes" (some (codesOf codes))

theorem encodeSuback_eq (hne : codes ≠ []) :
    encodeMessage (BrokerMessage.suback packetId codes hne).message =
      .ok (subackOf packetId codes) := by
  have helems : (Ptr.ref (codes.map (·.toByte.toNat))).elems codes.length =
      .ok (codes.map (·.toByte.toNat)) := by
    have hlen : codes.length = (codes.map (·.toByte.toNat)).length := (List.length_map _).symm
    rw [hlen]
    exact Ptr.elems_ref _
  show encodeSuback _ = _
  unfold encodeSuback
  rw [helems, ok_bind, List.map_map]
  rfl

theorem decodeCodes_codesOf :
    decodeCodes (codes.map fun c => .int c.toByte.toNat) = some (codes.map (·.toByte.toNat)) := by
  induction codes with
  | nil => rfl
  | cons c cs ih =>
    have hint : intValue (integerValue (some (.int c.toByte.toNat))) = c.toByte.toNat :=
      intValue_natCast (by cases c <;> decide)
    have hc : ¬ ((c.toByte.toNat : Int) ≠ 128 ∧
        ((c.toByte.toNat : Int) < 0 ∨ (c.toByte.toNat : Int) > 2)) := by cases c <;> decide
    rw [List.map_cons, decodeCodes, hint, if_neg hc, ih]
    rfl

theorem suback_holds (hne : codes ≠ []) :
    Holds (.suback packetId codes hne) (subackOf packetId codes) where
  valid := by
    refine valid_setNew (encodeId_valid _ _) (by decide) ?_
    rintro w ⟨⟩
    refine .arr fun x hx => ?_
    obtain ⟨c, -, rfl⟩ := List.mem_map.mp hx
    exact valid_jsonInteger c.toByte.toNat (by cases c <;> decide) _ rfl
  type := by
    unfold subackOf
    rw [objectGet_ne (by decide), encodeId_type]
    rfl
  back := by
    refine ⟨(BrokerMessage.suback packetId codes hne).message, ?_, rfl, rfl⟩
    have hid : packetIdOf (some (.obj (subackOf packetId codes))) = packetId := by
      refine packetIdOf_eq ?_
      unfold subackOf
      rw [objectGet_ne (by decide)]
      exact objectGet_self rfl
    have hcodes : arrayElems (objectGet (some (.obj (subackOf packetId codes))) "returnCodes") =
        codes.map fun c => .int c.toByte.toNat := by
      unfold subackOf
      rw [objectGet_self rfl]
      rfl
    show decodeSuback _ = _
    unfold decodeSuback
    rw [hcodes, decodeCodes_codesOf, hid]
    cases codes with
    | nil => exact absurd rfl hne
    | cons c cs => simp [BrokerMessage.message, BrokerMessage.packet, BrokerMessage.type]

end Suback

/-! ### All messages -/

theorem id_holds {b : BrokerMessage} (packet : UInt16 → Packet) {packetId : UInt16}
    (hb : b.packet = .ref (packet packetId))
    (hback : ∀ j, decodeType j b.type = decodeId b.type packet j)
    (hc : b.Carries b.message) : Holds b (encodeId b.type packetId) where
  valid := encodeId_valid _ _
  type := encodeId_type _ _
  back := by
    refine ⟨b.message, ?_, hc⟩
    rw [hback, decodeId_encodeId, BrokerMessage.message, hb]

theorem encodeMessage_holds (b : BrokerMessage) :
    ∃ root, encodeMessage b.message = .ok root ∧ Holds b root := by
  cases b with
  | connack sessionPresent code => exact ⟨_, rfl, connack_holds sessionPresent code⟩
  | publish q => exact ⟨_, encodePublish_eq q, publish_holds q⟩
  | suback packetId codes hne =>
    exact ⟨_, encodeSuback_eq packetId codes hne, suback_holds packetId codes hne⟩
  | puback packetId => exact ⟨_, rfl, id_holds (fun id => .puback ⟨id⟩) rfl (fun _ => rfl) ⟨rfl, rfl⟩⟩
  | pubrec packetId => exact ⟨_, rfl, id_holds (fun id => .pubrec ⟨id⟩) rfl (fun _ => rfl) ⟨rfl, rfl⟩⟩
  | pubrel packetId => exact ⟨_, rfl, id_holds (fun id => .pubrel ⟨id⟩) rfl (fun _ => rfl) ⟨rfl, rfl⟩⟩
  | pubcomp packetId =>
    exact ⟨_, rfl, id_holds (fun id => .pubcomp ⟨id⟩) rfl (fun _ => rfl) ⟨rfl, rfl⟩⟩
  | unsuback packetId =>
    exact ⟨_, rfl, id_holds (fun id => .unsuback ⟨id⟩) rfl (fun _ => rfl) ⟨rfl, rfl⟩⟩
  | pingresp => exact ⟨_, rfl, packetOf_valid _, packetOf_type _, _, rfl, rfl, trivial⟩

/-- The branch of `ws_decode` for an object of a type. -/
theorem wsDecode_type {lib : Jansson} {text : List UInt8} {type : MessageType} {root : Members}
    (hloads : lib.loads text = some (.obj root))
    (hpacket : objectGet (some (.obj root)) "packet" = jsonInteger type.toByte.toNat) :
    wsDecode lib text = decodeType (some (.obj root)) type := by
  have hvalue : enumValue (type.toByte.toNat : Int) = type.toByte.toNat :=
    enumValue_natCast (by cases type <;> decide)
  have htype : MessageType.ofValue (enumValue (integerValue (objectGet (some (.obj root)) "packet"))) =
      some type := by
    rw [hpacket]
    exact (congrArg _ hvalue).trans (MessageType.ofByte_toByte type)
  unfold wsDecode
  rw [hloads]
  simp only [htype]

theorem wsDecode_eq {lib : Jansson} {text : List UInt8} {b : BrokerMessage} {root : Members}
    (hloads : lib.loads text = some (.obj root)) (h : Holds b root) :
    wsDecode lib text = decodeType (some (.obj root)) b.type := wsDecode_type hloads h.type

/-- What `wsEncode` writes of a broker's message, `wsDecode` reads back. -/
theorem wsDecode_wsEncode (lib : Jansson) (hlib : lib.Inverts) (b : BrokerMessage) :
    ∃ text m, wsEncode lib b.message = .ok (some text) ∧ wsDecode lib text = .ok (some m) ∧
      b.Carries m := by
  obtain ⟨root, hroot, h⟩ := encodeMessage_holds b
  obtain ⟨text, hdumps, hloads⟩ := hlib root h.valid
  obtain ⟨m, hback, hcarries⟩ := h.back
  refine ⟨text, m, ?_, ?_, hcarries⟩
  · unfold wsEncode
    rw [hroot, ok_bind, hdumps]
    rfl
  · rw [wsDecode_eq hloads h, hback]

/-- Compact JSON text, written and read. -/
def compact : Jansson := ⟨fun v => some (dumps v), loads⟩

theorem compact_inverts : compact.Inverts := fun _ h => ⟨_, rfl, loads_dumps h⟩

/-- A retained QoS 2 PUBLISH of `hi!` on the topic `t/1`. -/
def publicationHi : Publication where
  topic := .ofBytes [0x74, 0x2f, 0x31]
  content := .ofBytes [0x68, 0x69, 0x21]
  qos := .last 2
  dup := false
  retain := true
  packetId := 7
  topic_utf8 := by decide
  content_ne := by decide
  dup_qos := by decide

theorem wsDecode_wsEncode_publicationHi :
    ∃ text m, wsEncode compact (BrokerMessage.publish publicationHi).message = .ok (some text) ∧
      wsDecode compact text = .ok (some m) ∧ (BrokerMessage.publish publicationHi).Carries m :=
  wsDecode_wsEncode compact compact_inverts (.publish publicationHi)

end IotClient.Ws
