import IotClient.Helpers
import IotClient.MqttSn.Packets

/-!
# `mqttsn/sn_parser.c`

`snGetLength`, `snEncode` and `snDecode`. `validate_create_flags` only prints what it finds
wrong, so `decodeFlag` is a function of the byte alone. In `snEncode` the last write of a case
sometimes leaves the cursor behind; the cursor is then only printed, and is advanced here.

The packet pointer is cast by `message_type` (`cast`).
-/

namespace IotClient.MqttSn

open Mem

def THREE_OCTET_LENGTH_SUFFIX : UInt8 := 0x01

/-- `*(T *) message->packet` -/
def cast {α : Type} (packet : Ptr SnPacket) (sel : SnPacket → Option α) : Run α := do
  match sel (← packet.deref) with
  | some a => pure a
  | none => .error .badCast

/-! ### Flags -/

structure ValidFlags where
  dup : Int
  qos : Nat
  retain : Int
  will : Int
  cleanSession : Int
  topicType : SnTopicType
  deriving DecidableEq, Repr

/-- The test `(flagsByte & i) == i`. -/
def hasFlag (flagsByte i : UInt8) : Bool := flagsByte &&& i == i

def decodeFlag (flagsByte : UInt8) : ValidFlags where
  dup := if hasFlag flagsByte 128 then 1 else 0
  qos :=
    if hasFlag flagsByte 96 then 3
    else if hasFlag flagsByte 64 then 2
    else if hasFlag flagsByte 32 then 1
    else 0
  retain := if hasFlag flagsByte 16 then 1 else 0
  will := if hasFlag flagsByte 8 then 1 else 0
  cleanSession := if hasFlag flagsByte 4 then 1 else 0
  topicType :=
    if hasFlag flagsByte 2 then .short
    else if hasFlag flagsByte 1 then .id
    else .named

def encodeFlags (dup : Int) (qos : Option Nat) (retain will cleanSession : Int)
    (topicType : Option SnTopicType) : UInt8 :=
  let flagsByte : UInt8 := if dup ≠ 0 then 128 else 0
  let flagsByte := flagsByte + (qos.map fun q => UInt8.ofNat q <<< 5).getD 0
  let flagsByte := if retain ≠ 0 then flagsByte + 16 else flagsByte
  let flagsByte := if will ≠ 0 then flagsByte + 8 else flagsByte
  let flagsByte := if cleanSession ≠ 0 then flagsByte + 4 else flagsByte
  flagsByte + (topicType.map (·.toByte)).getD 0

/-! ### Lengths -/

/-- A text of `n` bytes behind `base` bytes; above `most` bytes the header grows by two. -/
def textLength (base most n : Nat) : Nat := base + n + if n > most then 2 else 0

/-- `if (p != NULL) length += strlen(p);` -/
def optionalLength (p : Ptr CString) : Run Nat := do
  if ← p.nonNull then strlen p else pure 0

/-- The topic of a SUBSCRIBE or UNSUBSCRIBE: a two-byte id, or a text. -/
def topicLength (topic : Ptr SnTopic) : Run Nat := do
  let topic ← topic.deref
  if (← topic.topicType.get) ≠ .id then pure (textLength 5 250 (← strlen topic.value))
  else pure (5 + 2)

/-- The topic of a WILL_TOPIC or WILL_TOPIC_UPD, which may be `NULL`. -/
def willTopicLength (topic : Ptr SnTopic) : Run Nat := do
  if ← topic.nonNull then pure (textLength 3 252 (← strlen (← topic.deref).value))
  else pure 2

def snGetLength (snMessage : SnMessage) : Run Int := do
  match snMessage.messageType with
  | .advertise => pure 5
  | .searchgw => pure 3
  | .gwinfo =>
    let gwInfo ← cast snMessage.packet fun | .gwinfo sgi => some sgi | _ => none
    pure (3 + (← optionalLength gwInfo.gwAddress : Nat))
  | .connect =>
    let conn ← cast snMessage.packet fun | .connect sc => some sc | _ => none
    pure (6 + (← strlen conn.clientId : Nat))
  | .connack => pure 3
  | .willTopicReq => pure 2
  | .willTopic =>
    let willTop ← cast snMessage.packet fun | .willTopic swt => some swt | _ => none
    pure (← willTopicLength willTop.topic : Nat)
  | .willMsgReq => pure 2
  | .willMsg =>
    let willMsg ← cast snMessage.packet fun | .willMsg swm => some swm | _ => none
    pure (textLength 2 253 (← strlen willMsg.message) : Nat)
  | .register =>
    let reg ← cast snMessage.packet fun | .register sr => some sr | _ => none
    if ← reg.topicName.nonNull then pure (textLength 6 249 (← strlen reg.topicName) : Nat)
    else pure (-1)
  | .regack => pure 7
  | .publish =>
    let pub ← cast snMessage.packet fun | .publish sp => some sp | _ => none
    pure (textLength 7 248 (← strlen pub.data) : Nat)
  | .puback => pure 7
  | .pubrec | .pubrel | .pubcomp => pure 4
  | .subscribe =>
    let sub ← cast snMessage.packet fun | .subscribe ss => some ss | _ => none
    pure (← topicLength sub.topic : Nat)
  | .suback => pure 8
  | .unsubscribe =>
    let unsub ← cast snMessage.packet fun | .unsubscribe sus => some sus | _ => none
    pure (← topicLength unsub.topic : Nat)
  | .unsuback => pure 4
  | .pingreq =>
    let pingreq ← cast snMessage.packet fun | .pingreq spr => some spr | _ => none
    pure (2 + (← optionalLength pingreq.clientId : Nat))
  | .pingresp => pure 2
  | .disconnect =>
    let dis ← cast snMessage.packet fun | .disconnect sd => some sd | _ => none
    pure (if dis.duration > 0 then 2 + 2 else 2)
  | .willTopicUpd =>
    let topUpd ← cast snMessage.packet fun | .willTopicUpd swtu => some swtu | _ => none
    pure (← willTopicLength topUpd.topic : Nat)
  | .willMsgUpd =>
    let msgUpd ← cast snMessage.packet fun | .willMsgUpd swmu => some swmu | _ => none
    pure (textLength 2 253 (← strlen msgUpd.message) : Nat)
  | .willTopicResp => pure 2
  | .willMsgResp => pure 2
  | .encapsulated =>
    let en ← cast snMessage.packet fun | .encapsulated se => some se | _ => none
    pure (3 + (← optionalLength en.wirelessNodeId : Nat) + (← optionalLength en.message : Nat))
  | .unknown _ => pure 0

/-! ### Encoding -/

/-- `memcpy` of a text whose length is kept in 16 bits. -/
def putText (p : Ptr CString) : Enc Unit := do
  let s ← Enc.lift p.deref
  let stringLength := UInt16.ofNat s.strlen
  Enc.when (stringLength ≠ 0) (Enc.copy (s.bytes.take stringLength.toNat))

/-- The topic of a WILL_TOPIC or WILL_TOPIC_UPD with its flags, nothing when it is `NULL`. -/
def putWillTopic (topic : Ptr SnTopic) (retain : Int) : Enc Unit := do
  let present ← Enc.lift topic.nonNull
  Enc.when (present = true) do
    let topic ← Enc.lift topic.deref
    let qos ← Enc.lift topic.qos.get
    Enc.put (encodeFlags 0 (some qos) retain 0 0 none)
    putText topic.value

/-- The id of a topic of type `ID`, the text of any other. -/
def putTopic (topic : SnTopic) (topicType : SnTopicType) : Enc Unit := do
  if topicType = .id then addShort (← Enc.lift topic.id.get) else putText topic.value

/-- The `switch` of `sn_encode`. -/
def snEncodeBody (message : SnMessage) (length : Int) : Enc Unit := do
  match message.messageType with
  | .advertise =>
    let adv ← Enc.lift (cast message.packet fun | .advertise adv => some adv | _ => none)
    Enc.put adv.gwId
    addShort adv.duration
  | .searchgw =>
    let ssg ← Enc.lift (cast message.packet fun | .searchgw ssg => some ssg | _ => none)
    Enc.put (UInt8.ofNat ssg.radius)
  | .gwinfo =>
    let sgi ← Enc.lift (cast message.packet fun | .gwinfo sgi => some sgi | _ => none)
    Enc.put sgi.gwId
    let present ← Enc.lift sgi.gwAddress.nonNull
    Enc.when (present = true) (putText sgi.gwAddress)
  | .connect =>
    let sc ← Enc.lift (cast message.packet fun | .connect sc => some sc | _ => none)
    Enc.put (encodeFlags 0 none 0 sc.willPresent sc.cleanSession none)
    Enc.put sc.protocolId
    addShort sc.duration
    putText sc.clientId
  | .connack =>
    let sca ← Enc.lift (cast message.packet fun | .connack sca => some sca | _ => none)
    Enc.put (UInt8.ofNat sca.returnCode)
  | .willTopicResp =>
    let swtrs ← Enc.lift (cast message.packet fun | .willTopicResp swtrs => some swtrs | _ => none)
    Enc.put (UInt8.ofNat swtrs.returnCode)
  | .willMsgResp =>
    let swmrs ← Enc.lift (cast message.packet fun | .willMsgResp swmrs => some swmrs | _ => none)
    Enc.put (UInt8.ofNat swmrs.returnCode)
  | .willTopic =>
    let swt ← Enc.lift (cast message.packet fun | .willTopic swt => some swt | _ => none)
    putWillTopic swt.topic swt.retain
  | .willMsg =>
    let swm ← Enc.lift (cast message.packet fun | .willMsg swm => some swm | _ => none)
    putText swm.message
  | .register =>
    let sr ← Enc.lift (cast message.packet fun | .register sr => some sr | _ => none)
    addShort sr.topicId
    addShort sr.msgId
    putText sr.topicName
  | .regack =>
    let sra ← Enc.lift (cast message.packet fun | .regack sra => some sra | _ => none)
    addShort sra.topicId
    addShort sra.messageId
    Enc.put (UInt8.ofNat sra.code)
  | .publish =>
    let sp ← Enc.lift (cast message.packet fun | .publish sp => some sp | _ => none)
    let qos ← Enc.lift sp.topic.qos.get
    let topicType ← Enc.lift sp.topic.topicType.get
    Enc.put (encodeFlags sp.dup (some qos) sp.retain 0 0 (some topicType))
    putTopic sp.topic topicType
    addShort sp.messageId
    putText sp.data
  | .puback =>
    let spa ← Enc.lift (cast message.packet fun | .puback spa => some spa | _ => none)
    addShort spa.topicId
    addShort spa.messageId
    Enc.put (UInt8.ofNat spa.code)
  | .pubrec =>
    let spc ← Enc.lift (cast message.packet fun | .pubrec spc => some spc | _ => none)
    addShort spc.messageId
  | .pubrel =>
    let spr ← Enc.lift (cast message.packet fun | .pubrel spr => some spr | _ => none)
    addShort spr.messageId
  | .pubcomp =>
    let spcp ← Enc.lift (cast message.packet fun | .pubcomp spcp => some spcp | _ => none)
    addShort spcp.messageId
  | .unsuback =>
    let susa ← Enc.lift (cast message.packet fun | .unsuback susa => some susa | _ => none)
    addShort susa.messageId
  | .subscribe =>
    let ss ← Enc.lift (cast message.packet fun | .subscribe ss => some ss | _ => none)
    let topic ← Enc.lift ss.topic.deref
    let qos ← Enc.lift topic.qos.get
    let topicType ← Enc.lift topic.topicType.get
    Enc.put (encodeFlags ss.dup (some qos) 0 0 0 (some topicType))
    addShort ss.messageId
    putTopic topic topicType
  | .suback =>
    let ssa ← Enc.lift (cast message.packet fun | .suback ssa => some ssa | _ => none)
    Enc.put (encodeFlags 0 (some ssa.allowedQos) 0 0 0 none)
    addShort ssa.topicId
    addShort ssa.messageId
    Enc.put (UInt8.ofNat ssa.code)
  | .unsubscribe =>
    let sus ← Enc.lift (cast message.packet fun | .unsubscribe sus => some sus | _ => none)
    let topic ← Enc.lift sus.topic.deref
    let topicType ← Enc.lift topic.topicType.get
    Enc.put (encodeFlags 0 none 0 0 0 (some topicType))
    addShort sus.messageId
    putTopic topic topicType
  | .pingreq =>
    Enc.when (length > 2) do
      let spr ← Enc.lift (cast message.packet fun | .pingreq spr => some spr | _ => none)
      putText spr.clientId
  | .disconnect =>
    Enc.when (length > 2) do
      let sd ← Enc.lift (cast message.packet fun | .disconnect sd => some sd | _ => none)
      addShort sd.duration
  | .willTopicUpd =>
    let swtu ← Enc.lift (cast message.packet fun | .willTopicUpd swtu => some swtu | _ => none)
    putWillTopic swtu.topic swtu.retain
  | .willMsgUpd =>
    let swmu ← Enc.lift (cast message.packet fun | .willMsgUpd swmu => some swmu | _ => none)
    putText swmu.message
  | .willTopicReq | .willMsgReq | .pingresp => pure ()
  | .encapsulated =>
    let se ← Enc.lift (cast message.packet fun | .encapsulated se => some se | _ => none)
    Enc.put (UInt8.ofNat se.radius)
    putText se.wirelessNodeId
  | .unknown _ => pure ()

/-- The length of a message, in one byte or behind `THREE_OCTET_LENGTH_SUFFIX` in two. -/
def putLength (length : Int) : Enc Unit :=
  if length ≤ 255 then Enc.put (UInt8.ofInt length)
  else do
    Enc.put THREE_OCTET_LENGTH_SUFFIX
    addShort (UInt16.ofInt length)

def snEncode (message : SnMessage) (length : Int) : Run Block :=
  if length < 0 then .error .negativeSize
  else Enc.blockOf length.toNat do
    putLength length
    Enc.put message.messageType.toByte
    snEncodeBody message length

/-! ### Decoding -/

/-- `get_string(&buf[i], bytes_left)` -/
def getString (buf : List UInt8) (i : Nat) (bytesLeft : Int) : Run (Ptr CString) := do
  pure (.ref (CString.ofBytes (← copyOut buf i bytesLeft)))

/-- A return code alone in the body. -/
def decodeCode (packet : Nat → SnPacket) (buf : List UInt8) (i : Nat) : Run (Ptr SnPacket) := do
  pure (.ref (packet (← rd buf i).toNat))

/-- A message id alone in the body. -/
def decodeMessageId (packet : UInt16 → SnPacket) (buf : List UInt8) (i : Nat) :
    Run (Ptr SnPacket) := do
  pure (.ref (packet (← getShort buf i)))

/-- A topic id, a message id and a return code. -/
def decodeAck (packet : UInt16 → UInt16 → Nat → SnPacket) (buf : List UInt8) (i : Nat) :
    Run (Ptr SnPacket) := do
  let topicId ← getShort buf i
  let messageId ← getShort buf (i + 2)
  let code ← rd buf (i + 4)
  pure (.ref (packet topicId messageId code.toNat))

/-- The packet of a PUBLISH. Its topic gets no type, and no id when it is short; the text is then
an array of the block, which is gone when the function returns. -/
def decodePublish (buf : List UInt8) (i : Nat) (bytesLeft : Int) : Run (Ptr SnPacket) := do
  let flags := decodeFlag (← rd buf i)
  let i := i + 1
  let bytesLeft := bytesLeft - 1
  let topicId ← getShort buf i
  let i := i + 2
  let bytesLeft := bytesLeft - 2
  let messageId ← getShort buf i
  let i := i + 2
  let bytesLeft := bytesLeft - 2
  -- an empty payload leaves `data` unassigned, and the `printf` that follows reads it
  let data ← if bytesLeft > 0 then getString buf i bytesLeft else .error .indet
  let short := flags.topicType == .short
  pure (.ref (.publish {
    messageId := messageId
    topic := {
      id := if short then .indet else .is topicId
      value := .indet
      qos := .is flags.qos
      topicType := .indet }
    data := data
    dup := flags.dup
    retain := flags.retain }))

/-- The `switch` of `sn_decode`: the packet of a message whose body starts at `i`. -/
def snDecodeBody (buf : List UInt8) (i : Nat) (bytesLeft : Int) :
    SnMessageType → Run (Ptr SnPacket)
  | .advertise => do
    let gwId ← rd buf i
    let duration ← getShort buf (i + 1)
    pure (.ref (.advertise ⟨gwId, duration⟩))
  | .searchgw => decodeCode (fun radius => .searchgw ⟨radius⟩) buf i
  | .gwinfo => do
    let gwId ← rd buf i
    let gwAddress ← getString buf (i + 1) (bytesLeft - 1)
    pure (.ref (.gwinfo ⟨gwId, gwAddress⟩))
  | .connect => do
    let flags := decodeFlag (← rd buf i)
    let protocolId ← rd buf (i + 1)
    let duration ← getShort buf (i + 2)
    let clientId ← getString buf (i + 4) (bytesLeft - 4)
    pure (.ref (.connect ⟨flags.will, flags.cleanSession, protocolId, duration, clientId⟩))
  | .connack => decodeCode (fun code => .connack ⟨code⟩) buf i
  | .willTopicReq | .willMsgReq | .pingresp => pure .null
  | .willTopic => do
    let flags := decodeFlag (← rd buf i)
    let i := i + 1
    if bytesLeft > 0 then do
      -- the flags are read again, from the byte after them
      let flags := decodeFlag (← rd buf i)
      let value ← getString buf (i + 1) (bytesLeft - 1)
      pure (.ref (.willTopic ⟨flags.retain, .ref ⟨.indet, value, .is flags.qos, .indet⟩⟩))
    else pure (.ref (.willTopic ⟨flags.retain, .null⟩))
  | .willMsg => do
    let message ← getString buf i bytesLeft
    pure (.ref (.willMsg ⟨message⟩))
  | .register => do
    let topicId ← getShort buf i
    let msgId ← getShort buf (i + 2)
    let topicName ← getString buf (i + 4) (bytesLeft - 4)
    pure (.ref (.register ⟨topicId, msgId, topicName⟩))
  | .regack => decodeAck (fun topicId messageId code => .regack ⟨topicId, messageId, code⟩) buf i
  | .publish => decodePublish buf i bytesLeft
  | .puback => decodeAck (fun topicId messageId code => .puback ⟨topicId, messageId, code⟩) buf i
  | .pubrec => decodeMessageId (fun messageId => .pubrec ⟨messageId⟩) buf i
  | .pubrel => decodeMessageId (fun messageId => .pubrel ⟨messageId⟩) buf i
  | .pubcomp => decodeMessageId (fun messageId => .pubcomp ⟨messageId⟩) buf i
  -- the topic of both is stored through a pointer that was never assigned
  | .subscribe | .unsubscribe => do
    let _ ← rd buf i
    .error .indet
  | .suback => do
    let flags := decodeFlag (← rd buf i)
    decodeAck (fun topicId messageId code => .suback ⟨topicId, messageId, code, flags.qos⟩) buf
      (i + 1)
  | .unsuback => decodeMessageId (fun messageId => .unsuback ⟨messageId⟩) buf i
  | .pingreq =>
    if bytesLeft > 0 then do
      let clientId ← getString buf i bytesLeft
      pure (.ref (.pingreq ⟨clientId⟩))
    else pure (.ref (.pingreq ⟨.null⟩))
  | .disconnect =>
    if bytesLeft > 0 then do
      let duration ← getShort buf i
      pure (.ref (.disconnect ⟨duration⟩))
    else pure (.ref (.disconnect ⟨0⟩))
  | .willTopicUpd =>
    if bytesLeft > 0 then do
      let _ ← rd buf i
      -- `topic` has just been set to `NULL`
      .error .nullDeref
    else pure (.ref (.willTopicUpd ⟨0, .null⟩))
  | .willMsgUpd => do
    let message ← getString buf i bytesLeft
    pure (.ref (.willMsgUpd ⟨message⟩))
  | .willTopicResp => decodeCode (fun code => .willTopicResp ⟨code⟩) buf i
  | .willMsgResp => decodeCode (fun code => .willMsgResp ⟨code⟩) buf i
  | .encapsulated | .unknown _ => pure .indet

def snDecode (buf : List UInt8) : Run SnMessage := do
  let firstLengthByte ← rd buf 0
  let (length, i) : Nat × Nat ←
    if firstLengthByte = THREE_OCTET_LENGTH_SUFFIX then do pure ((← getShort buf 1).toNat, 3)
    else pure (firstLengthByte.toNat, 1)
  let bytesLeft : Int := length - i
  let type := SnMessageType.ofByte (← rd buf i)
  let packet ← snDecodeBody buf (i + 1) (bytesLeft - 1) type
  pure ⟨type, packet⟩

end IotClient.MqttSn
