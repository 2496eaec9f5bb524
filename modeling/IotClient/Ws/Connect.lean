import IotClient.Ws.RoundTrip

/-!
# A CONNECT as JSON

`ws_encode` puts the topic of a will into the object of the will, and `null` in its place where
there is no will. `ws_decode` looks for the topic in the message, and for the content of a will in
any case. So no CONNECT comes back: without a will the decoder reads through `NULL`
(`wsDecode_noWill`), with one the topic is lost (`connect_never_back`).
-/

namespace IotClient.Ws

open Mem Json Mqtt

/-- A pointer to UTF-8. -/
def IsUtf8Text (p : Ptr CString) : Prop := ∃ s, p = .ref s ∧ utf8 s.bytes = true

/-- A will with a topic in UTF-8, one of the three QoS and a content. -/
structure WillValid (w : Will) : Prop where
  topicName : IsUtf8Text w.topic.topicName
  qos : ∃ qos, w.topic.qos = .is qos ∧ qos ≤ 2
  content : ∃ s, w.content = .ref s ∧ s.bytes ≠ []

/-- A CONNECT whose strings are UTF-8; where there is no will, its field may be anything. -/
structure ConnectValid (c : Connect) : Prop where
  clientId : IsUtf8Text c.clientId
  username : IsUtf8Text c.username
  password : IsUtf8Text c.password
  will : c.willFlag ≠ 0 → WillValid c.will

/-- The fields that a CONNECT has on the other side. -/
structure SameConnect (c r : Connect) : Prop where
  clientId : r.clientId = c.clientId
  username : r.username = c.username
  password : r.password = c.password
  keepalive : r.keepalive = c.keepalive
  cleanSession : r.cleanSession = c.cleanSession
  willFlag : r.willFlag = c.willFlag
  will : c.willFlag ≠ 0 → r.will = c.will

def ConnectBack (lib : Jansson) (c : Connect) : Prop :=
  ∃ text r, wsEncode lib ⟨.is .connect, .ref (.connect c)⟩ = .ok (some text) ∧
    wsDecode lib text = .ok (some ⟨.is .connect, .ref (.connect r)⟩) ∧ SameConnect c r

variable {c : Connect} {lib : Jansson}

/-! ### The object -/

/-- The members before those of the will. -/
def connectHead (c : Connect) (username password clientId : CString) : Members :=
  let root := packetOf .connect
  let root := setNew root "protocolLevel" (jsonInteger 4)
  let root := setNew root "protocolName" (jsonStringn (key "MQTT"))
  let root := setNew root "username" (some (.str username.bytes))
  let root := setNew root "password" (some (.str password.bytes))
  let root := setNew root "clientID" (some (.str clientId.bytes))
  let root := setNew root "cleanSession" (jsonBool c.cleanSession)
  let root := setNew root "keepalive" (jsonInteger c.keepalive.toNat)
  let root := setNew root "usernameFlag" (jsonBool 1)
  setNew root "passwordFlag" (jsonBool 1)

/-- The object of a CONNECT with a value for the will. -/
def connectOf (c : Connect) (username password clientId : CString) (will : Value) : Members :=
  setNew (setNew (connectHead c username password clientId) "willFlag" (jsonBool c.willFlag)) "will"
    (some will)

theorem jsonString_utf8 {s : CString} (h : utf8 s.bytes = true) :
    jsonString (.ref s) = .ok (some (.str s.bytes)) := by
  rw [jsonString, jsonStringn, if_pos h]

theorem valid_str {s : CString} (h : utf8 s.bytes = true) :
    ∀ w, some (Value.str s.bytes) = some w → w.Valid := by
  rintro w ⟨⟩
  exact .str ⟨h, s.nulFree⟩

theorem connectHead_valid {username password clientId : CString} (hu : utf8 username.bytes = true)
    (hp : utf8 password.bytes = true) (hc : utf8 clientId.bytes = true) :
    (Value.obj (connectHead c username password clientId)).Valid := by
  have hkeepalive := c.keepalive.toNat_lt
  have hlevel := valid_setNew (packetOf_valid .connect) (k := "protocolLevel") (by decide)
    (valid_jsonInteger 4 (by decide))
  have hname := valid_setNew hlevel (k := "protocolName") (by decide)
    (valid_str (s := CString.literal "MQTT") (by decide))
  have husername := valid_setNew hname (k := "username") (by decide) (valid_str hu)
  have hpassword := valid_setNew husername (k := "password") (by decide) (valid_str hp)
  have hclientId := valid_setNew hpassword (k := "clientID") (by decide) (valid_str hc)
  have hclean := valid_setNew hclientId (k := "cleanSession") (by decide)
    (valid_jsonBool c.cleanSession)
  have halive := valid_setNew hclean (k := "keepalive") (by decide)
    (valid_jsonInteger c.keepalive.toNat (by omega))
  have huFlag := valid_setNew halive (k := "usernameFlag") (by decide) (valid_jsonBool 1)
  have hpFlag := valid_setNew huFlag (k := "passwordFlag") (by decide) (valid_jsonBool 1)
  exact hpFlag

theorem connectOf_valid {username password clientId : CString} {will : Value}
    (hu : utf8 username.bytes = true) (hp : utf8 password.bytes = true)
    (hc : utf8 clientId.bytes = true) (hwill : will.Valid) :
    (Value.obj (connectOf c username password clientId will)).Valid := by
  refine valid_setNew (valid_setNew (connectHead_valid hu hp hc) (by decide) (valid_jsonBool _))
    (by decide) ?_
  rintro w ⟨⟩
  exact hwill

theorem willValue_valid {w : Will} (h : WillValid w) : ∃ will, willValue w = .ok will ∧ will.Valid := by
  obtain ⟨topicName, htopic, hutf8⟩ := h.topicName
  obtain ⟨qos, hqos, hle⟩ := h.qos
  obtain ⟨content, hcontent, -⟩ := h.content
  have hname := valid_setNew valid_empty (k := "name") (by decide) (valid_str hutf8)
  have htopicValid := valid_setNew hname (k := "qos") (by decide) (valid_jsonInteger qos (by omega))
  have htopicSome : ∀ v, some (Value.obj (setNew (setNew [] "name" (some (.str topicName.bytes))) "qos"
      (jsonInteger qos))) = some v → v.Valid := by
    rintro v ⟨⟩
    exact htopicValid
  have hbase : ∀ v, some (Value.str (base64Encode content.bytes)) = some v → v.Valid := by
    rintro v ⟨⟩
    exact .str (isText_ascii base64Encode_ascii)
  have hwill := valid_setNew (valid_setNew (valid_setNew valid_empty (k := "topic") (by decide)
    htopicSome) (k := "content") (by decide) hbase) (k := "retain") (by decide)
    (valid_jsonBool w.retain)
  refine ⟨_, ?_, hwill⟩
  unfold willValue topicValue contentValue
  rw [htopic, hqos, hcontent, jsonString_utf8 hutf8, Ptr.deref_ref, ok_bind, ok_bind,
    jsonStringn_base64]
  rfl

/-- Every CONNECT is encoded, with `null` for a will that is absent. -/
theorem encodeConnect_eq (h : ConnectValid c) : ∃ username password clientId will,
    encodeConnect c = .ok (connectOf c username password clientId will) ∧
      (Value.obj (connectOf c username password clientId will)).Valid ∧
      (c.willFlag = 0 → will = .null) := by
  obtain ⟨clientId, hclientId, hc⟩ := h.clientId
  obtain ⟨username, husername, hu⟩ := h.username
  obtain ⟨password, hpassword, hp⟩ := h.password
  have hhead : encodeConnect c = (do
      if c.willFlag = 0 then
        pure (setNew (setNew (connectHead c username password clientId) "willFlag" (jsonBool 0)) "will"
          (some .null))
      else do
        let will ← willValue c.will
        pure (setNew (setNew (connectHead c username password clientId) "willFlag" (jsonBool 1)) "will"
          (some will))) := by
    unfold encodeConnect
    rw [husername, hpassword, hclientId, jsonString_utf8 hu, jsonString_utf8 hp, jsonString_utf8 hc]
    rfl
  rw [hhead]
  by_cases hflag : c.willFlag = 0
  · refine ⟨username, password, clientId, .null, ?_, connectOf_valid hu hp hc .null, fun _ => rfl⟩
    rw [if_pos hflag, connectOf, hflag]
    rfl
  · obtain ⟨will, hwill, hvalid⟩ := willValue_valid (h.will hflag)
    refine ⟨username, password, clientId, will, ?_, connectOf_valid hu hp hc hvalid,
      fun h0 => absurd h0 hflag⟩
    have htrue : jsonBool c.willFlag = jsonBool 1 := by
      unfold jsonBool
      rw [decide_eq_true hflag]
      rfl
    rw [if_neg hflag, hwill, connectOf, htrue]
    rfl

/-! ### There, but not back -/

section Back

variable {username password clientId : CString} {will : Value}

theorem connectOf_packet : objectGet (some (.obj (connectOf c username password clientId will)))
    "packet" = jsonInteger MessageType.connect.toByte.toNat := by
  unfold connectOf connectHead
  simp only
  rw [objectGet_ne (by decide), objectGet_ne (by decide), objectGet_ne (by decide),
    objectGet_ne (by decide), objectGet_ne (by decide), objectGet_ne (by decide),
    objectGet_ne (by decide), objectGet_ne (by decide), objectGet_ne (by decide),
    objectGet_ne (by decide), objectGet_ne (by decide), packetOf_type]

/-- The message has no topic of its own. -/
theorem connectOf_topic : objectGet (some (.obj (connectOf c username password clientId will)))
    "topic" = none := by
  unfold connectOf connectHead
  simp only
  rw [objectGet_ne (by decide), objectGet_ne (by decide), objectGet_ne (by decide),
    objectGet_ne (by decide), objectGet_ne (by decide), objectGet_ne (by decide),
    objectGet_ne (by decide), objectGet_ne (by decide), objectGet_ne (by decide),
    objectGet_ne (by decide), objectGet_ne (by decide), packetOf, objectGet_ne (by decide)]
  rfl

theorem connectOf_will : objectGet (some (.obj (connectOf c username password clientId will)))
    "will" = some will := objectGet_self rfl

theorem decodeConnect_topic {j : Option Value} {message : Message} (hj : objectGet j "topic" = none)
    (h : decodeConnect j = .ok (some message)) :
    ∃ r, message = ⟨.is .connect, .ref (.connect r)⟩ ∧ r.will.topic.topicName = .null := by
  obtain ⟨cleanSession, -, h⟩ := bind_eq_ok.1 h
  obtain ⟨willFlag, -, h⟩ := bind_eq_ok.1 h
  obtain ⟨content, -, h⟩ := bind_eq_ok.1 h
  obtain ⟨retain, -, h⟩ := bind_eq_ok.1 h
  cases h
  refine ⟨_, rfl, ?_⟩
  rw [hj]
  rfl

theorem decodeConnect_null {j : Option Value} (hj : objectGet j "will" = some .null) :
    ¬ Returns (decodeConnect j) := by
  rintro ⟨message, h⟩
  obtain ⟨cleanSession, -, h⟩ := bind_eq_ok.1 h
  obtain ⟨willFlag, -, h⟩ := bind_eq_ok.1 h
  obtain ⟨content, hcontent, -⟩ := bind_eq_ok.1 h
  rw [hj] at hcontent
  cases hcontent

end Back

/-- What `ws_decode` reads of an encoded CONNECT: an object without a topic, and with `null` for an
absent will. -/
theorem wsDecode_connect (hlib : lib.Inverts) (h : ConnectValid c) :
    ∃ text j, wsEncode lib ⟨.is .connect, .ref (.connect c)⟩ = .ok (some text) ∧
      wsDecode lib text = decodeConnect j ∧ objectGet j "topic" = none ∧
      (c.willFlag = 0 → objectGet j "will" = some .null) := by
  obtain ⟨username, password, clientId, will, hencode, hvalid, hnull⟩ := encodeConnect_eq h
  obtain ⟨text, hdumps, hloads⟩ := hlib _ hvalid
  have hdecode : wsDecode lib text =
      decodeType (some (.obj (connectOf c username password clientId will))) .connect :=
    wsDecode_type hloads connectOf_packet
  refine ⟨text, some (.obj (connectOf c username password clientId will)), ?_, hdecode,
    connectOf_topic, fun h0 => ?_⟩
  · have hmessage : encodeMessage ⟨.is .connect, .ref (.connect c)⟩ = encodeConnect c := rfl
    unfold wsEncode
    rw [hmessage, hencode, ok_bind, hdumps]
    rfl
  · rw [connectOf_will, hnull h0]

/-- Without a will, `ws_decode` reads through the `NULL` that it gets for the content. -/
theorem wsDecode_noWill (hlib : lib.Inverts) (h : ConnectValid c) (h0 : c.willFlag = 0) :
    ∃ text, wsEncode lib ⟨.is .connect, .ref (.connect c)⟩ = .ok (some text) ∧
      ¬ Returns (wsDecode lib text) := by
  obtain ⟨text, j, htext, hdecode, -, hnull⟩ := wsDecode_connect hlib h
  refine ⟨text, htext, ?_⟩
  rw [hdecode]
  exact decodeConnect_null (hnull h0)

/-- No CONNECT comes back. -/
theorem connect_never_back (hlib : lib.Inverts) (h : ConnectValid c) : ¬ ConnectBack lib c := by
  rintro ⟨text, r, htext, hdecode, hsame⟩
  by_cases h0 : c.willFlag = 0
  · obtain ⟨text', htext', hnot⟩ := wsDecode_noWill hlib h h0
    rw [htext'] at htext
    cases htext
    exact hnot ⟨_, hdecode⟩
  · obtain ⟨text', j, htext', hj, htopic, -⟩ := wsDecode_connect hlib h
    rw [htext'] at htext
    cases htext
    rw [hj] at hdecode
    obtain ⟨r', hr', hnull⟩ := decodeConnect_topic htopic hdecode
    cases hr'
    obtain ⟨s, hs, -⟩ := (h.will h0).topicName
    rw [hsame.will h0, hs] at hnull
    cases hnull

/-- A CONNECT of the client `c`, without a will. -/
def plainConnect : Connect where
  username := .ref (.ofBytes [0x75])
  password := .ref (.ofBytes [0x70])
  clientId := .ref (.ofBytes [0x63])
  cleanSession := 1
  willFlag := 0
  keepalive := 60
  protocolLevel := 4
  will := ⟨⟨.null, .is 0⟩, .null, 0⟩

theorem connectValid_plainConnect : ConnectValid plainConnect where
  clientId := ⟨_, rfl, by decide⟩
  username := ⟨_, rfl, by decide⟩
  password := ⟨_, rfl, by decide⟩
  will := fun h => absurd rfl h

theorem connect_never_back_plainConnect :
    compact.Inverts ∧ ConnectValid plainConnect ∧ ¬ ConnectBack compact plainConnect :=
  ⟨compact_inverts, connectValid_plainConnect,
    connect_never_back compact_inverts connectValid_plainConnect⟩

/-- The same with a retained will of QoS 1. -/
def willConnect : Connect :=
  { plainConnect with
    willFlag := 1
    will := ⟨⟨.ref (.ofBytes [0x74]), .is 1⟩, .ref (.ofBytes [0x62, 0x79, 0x65]), 1⟩ }

theorem connectValid_willConnect : ConnectValid willConnect where
  clientId := ⟨_, rfl, by decide⟩
  username := ⟨_, rfl, by decide⟩
  password := ⟨_, rfl, by decide⟩
  will := fun _ => ⟨⟨_, rfl, by decide⟩, ⟨1, rfl, by decide⟩, ⟨_, rfl, by decide⟩⟩

theorem willConnect_not_back :
    compact.Inverts ∧ ConnectValid willConnect ∧ ¬ ConnectBack compact willConnect := by
  refine ⟨compact_inverts, connectValid_willConnect, ?_⟩
  rintro ⟨text, r, htext, hdecode, hsame⟩
  obtain ⟨text', j, htext', hj, htopic, -⟩ :=
    wsDecode_connect compact_inverts connectValid_willConnect
  rw [htext'] at htext
  cases htext
  rw [hj] at hdecode
  obtain ⟨r', hr', hnull⟩ := decodeConnect_topic htopic hdecode
  cases hr'
  rw [hsame.will (by decide)] at hnull
  cases hnull

end IotClient.Ws
