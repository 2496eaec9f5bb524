import IotClient.Mqtt.Packets
import IotClient.Ws.Base64
import IotClient.Ws.Jansson

/-!
# `ws/ws_parser.c`

`wsEncode` and `wsDecode`. Each case of the C `switch` is a definition of its own: the members
it sets, or the message it builds. `none` is the `NULL` the code returns.

A string of a decoded message points into the JSON value, of which `ws_decode` frees the top
struct only. `decodeConnect` looks for the topic of a will next to the will, not in it.
-/

namespace IotClient.Ws

open Mem Json Mqtt

/-! ### Encoding -/

/-- The object with the `packet` member. -/
def packetOf (type : MessageType) : Members := setNew [] "packet" (jsonInteger type.toByte.toNat)

/-- A string in base64. -/
def contentValue (p : Ptr CString) : Run (Option Value) := do
  let content ← p.deref
  pure (jsonStringn (base64Encode content.bytes))

def topicValue (t : Topic) : Run Value := do
  let topic := setNew [] "name" (← jsonString t.topicName)
  pure (.obj (setNew topic "qos" (jsonInteger (← t.qos.get))))

def willValue (w : Will) : Run Value := do
  let will := setNew [] "topic" (some (← topicValue w.topic))
  let will := setNew will "content" (← contentValue w.content)
  pure (.obj (setNew will "retain" (jsonBool w.retain)))

def encodeConnect (c : Connect) : Run Members := do
  let root := packetOf .connect
  let root := setNew root "protocolLevel" (jsonInteger 4)
  let root := setNew root "protocolName" (jsonStringn (key "MQTT"))
  let root := setNew root "username" (← jsonString c.username)
  let root := setNew root "password" (← jsonString c.password)
  let root := setNew root "clientID" (← jsonString c.clientId)
  let root := setNew root "cleanSession" (jsonBool c.cleanSession)
  let root := setNew root "keepalive" (jsonInteger c.keepalive.toNat)
  let root := setNew root "usernameFlag" (jsonBool 1)
  let root := setNew root "passwordFlag" (jsonBool 1)
  if c.willFlag = 0 then
    pure (setNew (setNew root "willFlag" (jsonBool 0)) "will" (some .null))
  else do
    let will ← willValue c.will
    pure (setNew (setNew root "willFlag" (jsonBool 1)) "will" (some will))

def encodeConnack (ca : Connack) : Members :=
  let root := packetOf .connack
  let root := setNew root "returnCode" (jsonInteger ca.returnCode)
  setNew root "sessionPresent" (jsonBool ca.sessionPresent)

def encodePublish (p : Publish) : Run Members := do
  let packetId ← p.packetId.get
  let root := packetOf .publish
  let root := if packetId ≠ 0 then setNew root "packetID" (jsonInteger packetId.toNat) else root
  let root := setNew root "topic" (some (← topicValue p.topic))
  let root := setNew root "content" (← contentValue p.content)
  let root := setNew root "retain" (jsonBool p.retain)
  pure (setNew root "dup" (jsonBool p.dup))

/-- An object of a type and a packet id. -/
def encodeId (type : MessageType) (packetId : UInt16) : Members :=
  setNew (packetOf type) "packetID" (jsonInteger packetId.toNat)

def filterValue (t : Topic) : Run Value := do
  let topicName ← t.topicName.deref
  let topic := setNew [] "name" (jsonStringn topicName.bytes)
  pure (.obj (setNew topic "qos" (jsonInteger (← t.qos.get))))

def encodeSubscribe (s : Subscribe) : Run Members := do
  let topics ← (← s.topics.elems s.topicsNumber).mapM filterValue
  pure (setNew (encodeId .subscribe s.packetId) "topics" (some (.arr topics)))

def encodeSuback (sa : Suback) : Run Members := do
  let codes ← sa.codes.elems sa.codesNumber
  let values := codes.map fun code : Nat => Value.int code
  pure (setNew (encodeId .suback sa.packetId) "returnCodes" (some (.arr values)))

/-- A topic whose name is not UTF-8 is left out. -/
def encodeUnsubscribe (us : Unsubscribe) : Run Members := do
  let topics ← us.topics.elems (← us.topicsNumber.get)
  let names ← topics.mapM fun t => jsonString t.topicName
  pure (setNew (encodeId .unsubscribe us.packetId) "topics" (some (.arr names.reduceOption)))

/-- The members of `root` after the `switch` of `ws_encode`. -/
def encodeMessage (message : Message) : Run Members := do
  match ← message.messageType.get with
  | .connect => encodeConnect (← (← message.packet.deref).asConnect)
  | .connack => pure (encodeConnack (← (← message.packet.deref).asConnack))
  | .publish => encodePublish (← (← message.packet.deref).asPublish)
  | .puback => pure (encodeId .puback (← (← message.packet.deref).asPuback).packetId)
  | .pubrec => pure (encodeId .pubrec (← (← message.packet.deref).asPubrec).packetId)
  | .pubrel => pure (encodeId .pubrel (← (← message.packet.deref).asPubrel).packetId)
  | .pubcomp => pure (encodeId .pubcomp (← (← message.packet.deref).asPubcomp).packetId)
  | .subscribe => encodeSubscribe (← (← message.packet.deref).asSubscribe)
  | .suback => encodeSuback (← (← message.packet.deref).asSuback)
  | .unsubscribe => encodeUnsubscribe (← (← message.packet.deref).asUnsubscribe)
  | .unsuback => pure (encodeId .unsuback (← (← message.packet.deref).asUnsuback).packetId)
  | .disconnect => pure (packetOf .disconnect)
  | .pingreq => pure (packetOf .pingreq)
  | .pingresp => pure (packetOf .pingresp)

def wsEncode (lib : Jansson) (message : Message) : Run (Option (List UInt8)) := do
  pure (lib.dumps (.obj (← encodeMessage message)))

/-! ### Decoding -/

/-- A base64 string decoded and copied as a C string; where `base64_decode` returns `NULL`, the
length it should have stored is read. -/
def decodeContent (content64 : Ptr CString) : Run (Ptr CString) := do
  match ← base64Decode (← content64.deref).bytes with
  | some content => pure (.ref (CString.ofBytes content))
  | none => .error .indet

def decodeConnect (j : Option Value) : Run (Option Message) := do
  let cleanSession ← flag (objectGet j "cleanSession")
  let willFlag ← flag (objectGet j "willFlag")
  let will := objectGet j "will"
  let content ← decodeContent (stringValue (objectGet will "content"))
  let retain ← flag (objectGet will "retain")
  let topic := objectGet j "topic"
  pure (some ⟨.is .connect, .ref (.connect {
    username := stringValue (objectGet j "username")
    password := stringValue (objectGet j "password")
    clientId := stringValue (objectGet j "clientID")
    cleanSession := cleanSession
    willFlag := willFlag
    keepalive := UInt16.ofInt (integerValue (objectGet j "keepalive"))
    protocolLevel := UInt16.ofInt (integerValue (objectGet j "protocolLevel"))
    will := {
      topic := ⟨stringValue (objectGet topic "name"),
        .is (enumValue (integerValue (objectGet topic "qos")))⟩
      content := content
      retain := retain } })⟩)

def decodeConnack (j : Option Value) : Run (Option Message) := do
  let sessionPresent ← flag (objectGet j "sessionPresent")
  let returnCode := UInt8.ofInt (integerValue (objectGet j "returnCode"))
  if returnCode > 5 then pure none
  else pure (some ⟨.is .connack, .ref (.connack ⟨sessionPresent, returnCode.toNat⟩)⟩)

def decodePublish (j : Option Value) : Run (Option Message) := do
  let content ← decodeContent (stringValue (objectGet j "content"))
  let retain ← flag (objectGet j "retain")
  let dup ← flag (objectGet j "dup")
  let topic := objectGet j "topic"
  let topicName := stringValue (objectGet topic "name")
  let qos := enumValue (integerValue (objectGet topic "qos"))
  let packetId := intValue (integerValue (objectGet j "packetID"))
  if qos > 2 then pure none
  else if dup ≠ 0 ∧ qos = 0 then pure none
  else
    -- stored into 16 bits, so the test of its range never fails
    let packetId := if qos ≠ 0 then .is (UInt16.ofInt packetId) else .indet
    pure (some ⟨.is .publish, .ref (.publish {
      topic := ⟨topicName, .is qos⟩
      content := content
      retain := retain
      dup := dup
      packetId := packetId })⟩)

/-- `packet_id` -/
def packetIdOf (j : Option Value) : UInt16 := UInt16.ofInt (integerValue (objectGet j "packetID"))

def decodeId (type : MessageType) (packet : UInt16 → Packet) (j : Option Value) :
    Run (Option Message) :=
  pure (some ⟨.is type, .ref (packet (packetIdOf j))⟩)

/-- A topic is stored through `s->topics`, which was never assigned. -/
def decodeSubscribe (j : Option Value) : Run (Option Message) :=
  match arrayElems (objectGet j "topics") with
  | [] => pure (some ⟨.is .subscribe, .ref (.subscribe ⟨.indet, 0, packetIdOf j⟩)⟩)
  | _ :: _ => .error .indet

/-- The codes of a SUBACK, or `none` when one is not a code. -/
def decodeCodes : List Value → Option (List Nat)
  | [] => some []
  | x :: xs =>
    let code := intValue (integerValue (some x))
    if code ≠ 128 ∧ (code < 0 ∨ code > 2) then none
    else (decodeCodes xs).map (code.toNat :: ·)

def decodeSuback (j : Option Value) : Run (Option Message) :=
  match decodeCodes (arrayElems (objectGet j "returnCodes")) with
  | none | some [] => pure none
  | some codes =>
    pure (some ⟨.is .suback, .ref (.suback ⟨packetIdOf j, codes.length, .ref codes⟩)⟩)

/-- As in `decodeSubscribe`; the number of topics is not stored. -/
def decodeUnsubscribe (j : Option Value) : Run (Option Message) :=
  match arrayElems (objectGet j "topics") with
  | [] => pure (some ⟨.is .unsubscribe, .ref (.unsubscribe ⟨.indet, .indet, packetIdOf j⟩)⟩)
  | _ :: _ => .error .indet

/-- The `switch` of `ws_decode`. -/
def decodeType (j : Option Value) : MessageType → Run (Option Message)
  | .connect => decodeConnect j
  | .connack => decodeConnack j
  | .publish => decodePublish j
  | .puback => decodeId .puback (fun packetId => .puback ⟨packetId⟩) j
  | .pubrec => decodeId .pubrec (fun packetId => .pubrec ⟨packetId⟩) j
  | .pubrel => decodeId .pubrel (fun packetId => .pubrel ⟨packetId⟩) j
  | .pubcomp => decodeId .pubcomp (fun packetId => .pubcomp ⟨packetId⟩) j
  | .subscribe => decodeSubscribe j
  | .suback => decodeSuback j
  | .unsubscribe => decodeUnsubscribe j
  | .unsuback => decodeId .unsuback (fun packetId => .unsuback ⟨packetId⟩) j
  | .pingreq => pure (some ⟨.is .pingreq, .indet⟩)
  | .pingresp => pure (some ⟨.is .pingresp, .indet⟩)
  | .disconnect => pure (some ⟨.is .disconnect, .indet⟩)

def wsDecode (lib : Jansson) (data : List UInt8) : Run (Option Message) :=
  match lib.loads data with
  | none => pure none
  | some j =>
    match MessageType.ofValue (enumValue (integerValue (objectGet (some j) "packet"))) with
    | none => pure (some ⟨.indet, .indet⟩)
    | some type => decodeType (some j) type

end IotClient.Ws
