import IotClient.Helpers
import IotClient.Mqtt.Packets

/-!
# `mqtt/parser.c`

`getLength`, `encode` and `decode`. Each case of the C `switch` is a definition of its own.

`decode` copies a string of a CONNECT, SUBSCRIBE or UNSUBSCRIBE into an array on the stack
that has no room for the terminator it stores; here these arrays end at their declared length.
The packets of these types are variables of `decode`, which end with the call: the pointer to
them that it returns has no value any more. A rejected packet gives a message whose `packet` was
never assigned (`rejected`).
-/

namespace IotClient.Mqtt

open Mem

/-- `"MQTT"` -/
def PROTOCOL_NAME : List UInt8 := [0x4d, 0x51, 0x54, 0x54]

def DEFAULT_PROTOCOL_LEVEL : UInt8 := 4

/-! ### Lengths -/

def getLength (message : Message) : Run Nat := do
  match ← message.messageType.get with
  | .connect =>
    let c ← (← message.packet.deref).asConnect
    let length := 10 + (← strlen c.clientId) + 2
    let length ←
      if c.willFlag ≠ 0 then do
        pure (length + ((← strlen c.will.content) + (← strlen c.will.topic.topicName) + 4))
      else pure length
    let u ← strlen c.username
    let length := length + if u ≠ 0 then u + 2 else 0
    let p ← strlen c.password
    pure (length + if p ≠ 0 then p + 2 else 0)
  | .connack | .puback | .pubrec | .pubrel | .pubcomp | .unsuback => pure 2
  | .publish =>
    let p ← (← message.packet.deref).asPublish
    let length := if (← p.packetId.get) ≠ 0 then 2 else 0
    let length := length + (← strlen p.topic.topicName) + 2
    pure (length + (← strlen p.content))
  | .subscribe =>
    let s ← (← message.packet.deref).asSubscribe
    (← s.topics.elems s.topicsNumber).foldlM
      (fun length t => do pure (length + ((← strlen t.topicName) + 3))) 2
  | .suback =>
    let sa ← (← message.packet.deref).asSuback
    pure (2 + sa.codesNumber)
  | .unsubscribe =>
    let us ← (← message.packet.deref).asUnsubscribe
    (← us.topics.elems (← us.topicsNumber.get)).foldlM
      (fun length t => do pure (length + ((← strlen t.topicName) + 2))) 2
  | .pingreq | .pingresp | .disconnect => pure 0

/-! ### Encoding -/

/-- `memcpy(&buf[i], p, strlen(p)); i += strlen(p)` -/
def putContent (p : Ptr CString) : Enc Unit := do
  let s ← Enc.lift p.deref
  Enc.copy s.bytes

/-- A string with its length, nothing when the length (kept in 16 bits) is 0. -/
def putString (p : Ptr CString) : Enc Unit := do
  let s ← Enc.lift p.deref
  let stringLength := UInt16.ofNat s.strlen
  Enc.when (stringLength ≠ 0) do
    addShort stringLength
    Enc.copy (s.bytes.take stringLength.toNat)

/-- The flags byte of a CONNECT. -/
def connectFlags (c : Connect) : Run UInt8 := do
  let contentFlags : UInt8 := if c.cleanSession ≠ 0 then 0x02 else 0
  let contentFlags ←
    if c.willFlag ≠ 0 then do
      let qos := UInt8.ofNat (← c.will.topic.qos.get)
      let contentFlags := contentFlags + 0x04 + (qos <<< (3 : UInt8))
      pure (if c.will.retain ≠ 0 then contentFlags + 0x20 else contentFlags)
    else pure contentFlags
  let contentFlags :=
    if (← strlen c.username) ≠ 0 then contentFlags + 0x40 else contentFlags
  pure (if (← strlen c.password) ≠ 0 then contentFlags + 0x80 else contentFlags)

def encodeConnect (c : Connect) (length : Nat) : Enc Unit := do
  Enc.put (MessageType.connect.toByte <<< 4)
  putPacketLength length
  Enc.put 0
  Enc.put (UInt8.ofNat PROTOCOL_NAME.length)
  Enc.copy PROTOCOL_NAME
  Enc.put DEFAULT_PROTOCOL_LEVEL
  let contentFlags ← Enc.lift (connectFlags c)
  Enc.put contentFlags
  addShort c.keepalive
  let clientId ← Enc.lift c.clientId.deref
  let clientIdLength := UInt16.ofNat clientId.strlen
  addShort clientIdLength
  Enc.copy (clientId.bytes.take clientIdLength.toNat)
  Enc.when (c.willFlag ≠ 0) do
    putString c.will.topic.topicName
    putString c.will.content
  putString c.username
  putString c.password

def encodeConnack (ca : Connack) : Enc Unit := do
  Enc.put (MessageType.connack.toByte <<< 4)
  -- `get_length` of a CONNACK
  Enc.put 2
  Enc.put (UInt8.ofInt ca.sessionPresent)
  Enc.put (UInt8.ofNat ca.returnCode)

/-- The first byte of a PUBLISH. -/
def publishHeader (dup retain : Int) (qos : Nat) : UInt8 :=
  let firstByte := MessageType.publish.toByte <<< 4
  let firstByte := if dup ≠ 0 then firstByte + 0x08 else firstByte
  let firstByte := firstByte + (UInt8.ofNat qos <<< (1 : UInt8))
  if retain ≠ 0 then firstByte + 0x01 else firstByte

def encodePublish (p : Publish) (length : Nat) : Enc Unit := do
  let qos ← Enc.lift p.topic.qos.get
  Enc.poke (publishHeader p.dup p.retain qos)
  putPacketLength length
  putString p.topic.topicName
  let packetId ← Enc.lift p.packetId.get
  Enc.when (packetId ≠ 0) (addShort packetId)
  putContent p.content

/-- A packet of a first byte, its length and a packet id. -/
def encodeId (header : UInt8) (packetId : UInt16) (length : Nat) : Enc Unit := do
  Enc.put header
  Enc.put (UInt8.ofNat length)
  addShort packetId

/-- The topics of a SUBSCRIBE; the QoS byte does not advance the cursor. -/
def encodeFilters : List Topic → Enc Unit
  | [] => pure ()
  | t :: ts => do
    putString t.topicName
    let qos ← Enc.lift t.qos.get
    Enc.poke (UInt8.ofNat qos)
    encodeFilters ts

def encodeSubscribe (s : Subscribe) (length : Nat) : Enc Unit := do
  Enc.put (MessageType.subscribe.toByte <<< 4 ||| 0x2)
  putPacketLength length
  addShort s.packetId
  let ts ← Enc.lift (s.topics.elems s.topicsNumber)
  encodeFilters ts

/-- A SUBACK, which gets no length byte. -/
def encodeSuback (sa : Suback) : Enc Unit := do
  Enc.put (MessageType.suback.toByte <<< 4)
  addShort sa.packetId
  let codes ← Enc.lift (sa.codes.elems sa.codesNumber)
  Enc.copy (codes.map UInt8.ofNat)

def encodeNames : List Topic → Enc Unit
  | [] => pure ()
  | t :: ts => do
    putString t.topicName
    encodeNames ts

def encodeUnsubscribe (us : Unsubscribe) (length : Nat) : Enc Unit := do
  Enc.put (MessageType.unsubscribe.toByte <<< 4 ||| 0x2)
  putPacketLength length
  addShort us.packetId
  let ts ← Enc.lift (do us.topics.elems (← us.topicsNumber.get))
  encodeNames ts

def encodeUnsuback (usa : Unsuback) (length : Nat) : Enc Unit := do
  Enc.put (MessageType.unsuback.toByte <<< 4)
  putPacketLength length
  addShort usa.packetId

def encodeEmpty (type : MessageType) : Enc Unit := do
  Enc.put (type.toByte <<< 4 ||| 0x2)
  Enc.poke 0

/-- The `switch` of `encode`. -/
def encodeMessage (message : Message) (length : Nat) : Enc Unit := do
  match ← Enc.lift message.messageType.get with
  | .connect =>
    let c ← Enc.lift (do (← message.packet.deref).asConnect)
    encodeConnect c length
  | .connack =>
    let ca ← Enc.lift (do (← message.packet.deref).asConnack)
    encodeConnack ca
  | .publish =>
    let p ← Enc.lift (do (← message.packet.deref).asPublish)
    encodePublish p length
  | .puback =>
    let pa ← Enc.lift (do (← message.packet.deref).asPuback)
    encodeId (MessageType.puback.toByte <<< 4) pa.packetId length
  | .pubrec =>
    let pr ← Enc.lift (do (← message.packet.deref).asPubrec)
    encodeId (MessageType.pubrec.toByte <<< 4) pr.packetId length
  | .pubrel =>
    let pl ← Enc.lift (do (← message.packet.deref).asPubrel)
    encodeId (MessageType.pubrel.toByte <<< 4 ||| 0x2) pl.packetId length
  | .pubcomp =>
    let pc ← Enc.lift (do (← message.packet.deref).asPubcomp)
    encodeId (MessageType.pubcomp.toByte <<< 4) pc.packetId length
  | .subscribe =>
    let s ← Enc.lift (do (← message.packet.deref).asSubscribe)
    encodeSubscribe s length
  | .suback =>
    let sa ← Enc.lift (do (← message.packet.deref).asSuback)
    encodeSuback sa
  | .unsubscribe =>
    let us ← Enc.lift (do (← message.packet.deref).asUnsubscribe)
    encodeUnsubscribe us length
  | .unsuback =>
    let usa ← Enc.lift (do (← message.packet.deref).asUnsuback)
    encodeUnsuback usa length
  | .disconnect => encodeEmpty .disconnect
  | .pingreq => encodeEmpty .pingreq
  | .pingresp => encodeEmpty .pingresp

/-- The block of `length + 2` bytes that `encode` returns. -/
def encode (message : Message) (length : Nat) : Run Block :=
  Enc.blockOf (length + 2) (encodeMessage message length)

/-! ### Decoding -/

/-- The message returned when the packet is rejected. -/
def rejected (type : MessageType) : Message := ⟨.is type, .indet⟩

/-- The end of a string with its length at `i`, of at least `least` bytes, or `none` when it does
not fit into the `length` bytes of the packet. It is copied to the stack. -/
def getField (buf : List UInt8) (length : Int) (least i : Nat) : Run (Option Nat) :=
  if length - i < 2 then pure none
  else do
    let n := (← getShort buf i).toNat
    let i := i + 2
    if length - i < n ∨ n < least then pure none
    else do
      let _ ← copyOut buf i n
      pure (some (i + n))

/-- `getField` under a flag. -/
def getFieldIf (flag : Bool) (buf : List UInt8) (length : Int) (least i : Nat) :
    Run (Option Nat) :=
  if flag then getField buf length least i else pure (some i)

/-- The fields of a CONNECT that follow the client id, from `i` on. -/
def decodeConnectTail (buf : List UInt8) (length : Int) (contentFlags : UInt8) (i : Nat) :
    Run Message := do
  let willFlag := contentFlags >>> 2 &&& 1 ≠ 0
  let some i ← getFieldIf willFlag buf length 1 i | pure (rejected .connect)
  let some i ← getFieldIf willFlag buf length 0 i | pure (rejected .connect)
  -- bit 7 is read as the user name flag, bit 6 as the password flag
  let some i ← getFieldIf (contentFlags >>> 7 &&& 1 ≠ 0) buf length 0 i
    | pure (rejected .connect)
  let some i ← getFieldIf (contentFlags >>> 6 &&& 1 ≠ 0) buf length 0 i
    | pure (rejected .connect)
  if length - i > 0 then pure (rejected .connect)
  -- `&c`
  else pure ⟨.is .connect, .indet⟩

def decodeConnect (buf : List UInt8) : Run Message := do
  let d ← decodeRemainingLength buf
  let i := (1 + d.bytesUsed).toNat
  let protocolNameSize := (← getShort buf i).toNat
  let i := i + 2
  let protocolName ← copyOut buf i protocolNameSize
  if (CString.ofBytes protocolName).bytes ≠ PROTOCOL_NAME then pure (rejected .connect)
  else do
    let i := i + protocolNameSize
    -- the protocol level
    let _ ← rd buf i
    let contentFlags ← rd buf (i + 1)
    let i := i + 2
    let retain := (contentFlags >>> 5 &&& 1).toNat
    let willQos := ((contentFlags &&& 0x1f) >>> 3 &&& 3).toNat
    let willFlag := (contentFlags >>> 2 &&& 1).toNat
    if willQos > 2 then pure (rejected .connect)
    else if willQos ≠ 0 ∧ willFlag = 0 then pure (rejected .connect)
    else if retain = 1 ∧ willFlag = 0 then pure (rejected .connect)
    else if contentFlags &&& 1 = 1 then pure (rejected .connect)
    else do
      -- the keepalive
      let _ ← getShort buf i
      let i := i + 2
      let clientIdLength := (← getShort buf i).toNat
      let i := i + 2
      let _ ← copyOut buf i clientIdLength
      decodeConnectTail buf d.length contentFlags (i + clientIdLength)

def decodeConnack (buf : List UInt8) : Run Message := do
  let sessionPresent ← rd buf 2
  if sessionPresent ≠ 0 ∧ sessionPresent ≠ 1 then pure (rejected .connack)
  else do
    let returnCode ← rd buf 3
    if returnCode > 5 then pure (rejected .connack)
    else pure ⟨.is .connack, .ref (.connack ⟨sessionPresent.toNat, returnCode.toNat⟩)⟩

def decodePublish (buf : List UInt8) (fixedHeader : UInt8) : Run Message := do
  let d ← decodeRemainingLength buf
  let i := (1 + d.bytesUsed).toNat
  let dup := (fixedHeader >>> 3 &&& 1).toNat
  let qos := ((fixedHeader &&& 0x07) >>> 1).toNat
  if qos > 2 then pure (rejected .publish)
  else if dup ≠ 0 ∧ qos = 0 then pure (rejected .publish)
  else do
    let topicLength := (← getShort buf i).toNat
    let i := i + 2
    let topicName ← copyOut buf i topicLength
    let i := i + topicLength
    let (packetId, i) ←
      if qos ≠ 0 then do pure (Cell.is (← getShort buf i), i + 2) else pure (Cell.indet, i)
    let dataLength := d.length - i
    -- without payload bytes `content` stays as `malloc` left it
    let content ←
      if dataLength > 0 then do
        pure (Ptr.ref (CString.ofBytes (← copyOut buf i dataLength)))
      else pure Ptr.indet
    pure ⟨.is .publish, .ref (.publish {
      topic := ⟨.ref (CString.ofBytes topicName), .is qos⟩
      content := content
      retain := (fixedHeader &&& 1).toNat
      dup := dup
      packetId := packetId })⟩

/-- The first round of the loop over the topics stores through `s.topics`, which was never
assigned, unless it returns; the test of `topics_index` after the loop only ever sees 0. -/
def decodeSubscribe (buf : List UInt8) : Run Message := do
  let d ← decodeRemainingLength buf
  let i := (1 + d.bytesUsed).toNat
  let _ ← getShort buf i
  let i := i + 2
  let topicsSize := d.length - i
  if i < topicsSize then do
    let topicFilterLength := (← getShort buf i).toNat
    let i := i + 2
    let _ ← copyOut buf i topicFilterLength
    let qos ← rd buf (i + topicFilterLength)
    if qos > 2 then pure (rejected .subscribe) else .error .indet
  -- `&s`
  else pure ⟨.is .subscribe, .indet⟩

/-- As in `decodeSubscribe`, a topic that passes `utf8_check` is stored through an unassigned
pointer. -/
def decodeUnsubscribe (buf : List UInt8) : Run Message := do
  let d ← decodeRemainingLength buf
  let i := (1 + d.bytesUsed).toNat
  let _ ← getShort buf i
  let i := i + 2
  let topicsSize := d.length - i
  if i < topicsSize then do
    let topicLength := (← getShort buf i).toNat
    let topic ← copyOut buf (i + 2) topicLength
    if (← utf8Check (topic ++ [0])).isSome then pure (rejected .unsubscribe) else .error .indet
  else pure (rejected .unsubscribe)

/-- The codes of a SUBACK, or `none` when one is not a code. -/
def decodeCodes (buf : List UInt8) (i : Nat) : Nat → Run (Option (List Nat))
  | 0 => pure (some [])
  | n + 1 => do
    let code ← rd buf i
    if code ≠ 128 ∧ code > 2 then pure none
    else do
      let codes ← decodeCodes buf (i + 1) n
      pure (codes.map (code.toNat :: ·))

def decodeSuback (buf : List UInt8) : Run Message := do
  let d ← decodeRemainingLength buf
  let i := (1 + d.bytesUsed).toNat
  let packetId ← getShort buf i
  let i := i + 2
  let codesSize := (d.length - i).toNat
  match ← decodeCodes buf i codesSize with
  | none => pure (rejected .suback)
  | some codes =>
    if codes.length = 0 then pure (rejected .suback)
    else pure ⟨.is .suback, .ref (.suback ⟨packetId, codes.length, .ref codes⟩)⟩

/-- A packet id behind the two bytes of the fixed header. -/
def decodeId (type : MessageType) (packet : UInt16 → Packet) (buf : List UInt8) : Run Message := do
  let packetId ← getShort buf 2
  pure ⟨.is type, .ref (packet packetId)⟩

/-- The `switch` of `decode`. -/
def decodeType (buf : List UInt8) (fixedHeader : UInt8) : MessageType → Run Message
  | .connect => decodeConnect buf
  | .connack => decodeConnack buf
  | .publish => decodePublish buf (fixedHeader &&& 0xf)
  | .puback => decodeId .puback (fun packetId => .puback ⟨packetId⟩) buf
  | .pubrec => decodeId .pubrec (fun packetId => .pubrec ⟨packetId⟩) buf
  | .pubrel => decodeId .pubrel (fun packetId => .pubrel ⟨packetId⟩) buf
  | .pubcomp => decodeId .pubcomp (fun packetId => .pubcomp ⟨packetId⟩) buf
  | .subscribe => decodeSubscribe buf
  | .suback => decodeSuback buf
  | .unsubscribe => decodeUnsubscribe buf
  | .unsuback => decodeId .unsuback (fun packetId => .unsuback ⟨packetId⟩) buf
  | .pingreq => pure ⟨.is .pingreq, .indet⟩
  | .pingresp => pure ⟨.is .pingresp, .indet⟩
  | .disconnect => pure ⟨.is .disconnect, .indet⟩

def decode (buf : List UInt8) : Run Message := do
  let fixedHeader ← rd buf 0
  match MessageType.ofByte (fixedHeader >>> 4 &&& 0xf) with
  | none => pure ⟨.indet, .indet⟩
  | some type => decodeType buf fixedHeader type

end IotClient.Mqtt
