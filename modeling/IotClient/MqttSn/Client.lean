import IotClient.Account
import IotClient.Machine.Requests
import IotClient.Machine.Runs
import IotClient.Mem.Junk
import IotClient.MqttSn.Parser

/-!
# The MQTT-SN client (`mqttsn/mqtt_sn_client.c`, `mqttsn/mqtt_sn_timers.c`)

A `Client` is the static state of the two files. The messages handed to `sn_encode_and_fire`,
the PUBLISH kept back until its topic is registered, and the messages that `process_sn_rx`
reads are logged in `wire`, in order; what the listener is told in `notices`. Of the timer
threads it is kept whether they were started; the block `sn_encode` makes of a message is left
out. A message of the map is read as the packet the code casts it to, and is a fault when it is
another one.
-/

namespace IotClient.MqttSn

open Mem Machine

/-- The calls of the listener's function pointers. -/
inductive Notice where
  | connectionSuccessful
  | publish (content : Ptr CString) (topicName : Option CString) (qos : Nat) (retain dup : Int)
  deriving DecidableEq

structure Client where
  account : Account
  currentPacketNumber : Int
  delayInSeconds : Int
  /-- the ping timer's copy of the delay -/
  pingDelay : UInt32
  messagesMap : Table UInt16 SnMessage
  topicNameMap : Table CString UInt16
  reverseTopicNameMap : Table UInt16 CString
  wire : List (Traffic SnMessage)
  notices : List Notice
  /-- the net service was stopped -/
  stopped : Bool
  /-- `pthread_create` has set the thread id `connecter` -/
  connecter : Bool
  pinger : Bool
  messager : Bool
  /-- what the memory of the next packet holds where its `topic.id` will be -/
  memory : UInt16

/-- The static variables after `init_mqtt_sn_client`. -/
def Client.init (account : Account) : Client where
  account := account
  currentPacketNumber := 0
  delayInSeconds := 0
  pingDelay := 10
  messagesMap := .empty
  topicNameMap := .empty
  reverseTopicNameMap := .empty
  wire := []
  notices := []
  stopped := false
  connecter := false
  pinger := false
  messager := false
  memory := 0

/-- The arguments of `send_sn_message`. -/
structure Publication where
  content : CString
  topicName : CString
  qos : Nat
  retain : Int
  dup : Int
  deriving DecidableEq

/-! ### The messages of the `send` functions -/

def connectMessage (account : Account) : SnMessage := ⟨.connect, .ref (.connect {
  willPresent := if account.will ≠ none ∧ account.willTopic ≠ none then 1 else 0
  cleanSession := account.cleanSession
  protocolId := 1
  duration := UInt16.ofInt account.keepAlive
  clientId := .ofOption account.clientId })⟩

def subscribeMessage (topic : SnTopic) (messageId : UInt16) : SnMessage :=
  ⟨.subscribe, .ref (.subscribe ⟨messageId, .ref topic, 0⟩)⟩

def unsubscribeMessage (topic : SnTopic) (messageId : UInt16) : SnMessage :=
  ⟨.unsubscribe, .ref (.unsubscribe ⟨messageId, .ref topic⟩)⟩

def registerMessage (topicName : CString) (msgId : UInt16) : SnMessage :=
  ⟨.register, .ref (.register ⟨0, msgId, .ref topicName⟩)⟩

def publishMessage (snPublish : SnPublish) : SnMessage := ⟨.publish, .ref (.publish snPublish)⟩

def Publication.packet (p : Publication) (topicId messageId : UInt16) : SnPublish where
  messageId := messageId
  topic := ⟨.is topicId, .ref p.topicName, .is p.qos, .is .id⟩
  data := .ref p.content
  dup := p.dup
  retain := p.retain

def willTopicMessage (account : Account) : SnMessage := ⟨.willTopic, .ref (.willTopic {
  retain := account.isRetain
  topic := .ref ⟨.indet, .ofOption account.willTopic, .is account.qos, .indet⟩ })⟩

def willMsgMessage (account : Account) : SnMessage :=
  ⟨.willMsg, .ref (.willMsg ⟨.ofOption account.will⟩)⟩

def pubrelMessage (messageId : UInt16) : SnMessage := ⟨.pubrel, .ref (.pubrel ⟨messageId⟩)⟩

def pubackMessage (messageId topicId : UInt16) : SnMessage :=
  ⟨.puback, .ref (.puback ⟨topicId, messageId, 0⟩)⟩

def pubrecMessage (messageId : UInt16) : SnMessage := ⟨.pubrec, .ref (.pubrec ⟨messageId⟩)⟩

def pubcompMessage (messageId : UInt16) : SnMessage := ⟨.pubcomp, .ref (.pubcomp ⟨messageId⟩)⟩

def regackMessage (messageId topicId : UInt16) : SnMessage :=
  ⟨.regack, .ref (.regack ⟨topicId, messageId, 0⟩)⟩

def pingreqMessage (account : Account) : SnMessage :=
  ⟨.pingreq, .ref (.pingreq ⟨.ofOption account.clientId⟩)⟩

def disconnectMessage (account : Account) : SnMessage :=
  ⟨.disconnect, .ref (.disconnect ⟨UInt16.ofInt account.keepAlive⟩)⟩

def castPublish (message : SnMessage) : Run SnPublish :=
  cast message.packet fun | .publish sp => some sp | _ => none

def castSubscribe (message : SnMessage) : Run SnSubscribe :=
  cast message.packet fun | .subscribe s => some s | _ => none

def castUnsubscribe (message : SnMessage) : Run SnUnsubscribe :=
  cast message.packet fun | .unsubscribe us => some us | _ => none

def castRegack (message : SnMessage) : Run SnRegAck :=
  cast message.packet fun | .regack sra => some sra | _ => none

def castPubcomp (message : SnMessage) : Run SnPubcomp :=
  cast message.packet fun | .pubcomp spcp => some spcp | _ => none

def castSuback (message : SnMessage) : Run SnSuback :=
  cast message.packet fun | .suback ssa => some ssa | _ => none

def castUnsuback (message : SnMessage) : Run SnUnsuback :=
  cast message.packet fun | .unsuback susa => some susa | _ => none

/-- The key `sn_add_message_in_map` puts a message under. -/
def mapKey (message : SnMessage) : Run UInt16 := do
  match message.messageType with
  | .publish => do pure (← castPublish message).messageId
  | .subscribe => do pure (← castSubscribe message).messageId
  | .unsubscribe => do pure (← castUnsubscribe message).messageId
  | _ => pure 0

namespace Client

variable (c : Client)

def snEncodeAndFire (message : SnMessage) : Client := { c with wire := c.wire ++ [.sent message] }

/-! ### The maps -/

def snAddMessageInMap (message : SnMessage) : Run Client := do
  let packetId ← mapKey message
  pure { c with messagesMap := c.messagesMap.set packetId message }

def snRemoveMessageFromMap (packetId : UInt16) : Client :=
  { c with messagesMap := c.messagesMap.erase packetId }

def snAddTopicIdInMap (topicName : CString) (topicId : UInt16) : Client :=
  { c with topicNameMap := c.topicNameMap.set topicName topicId }

def snAddTopicNameInMap (topicId : UInt16) (topicName : CString) : Client :=
  { c with reverseTopicNameMap := c.reverseTopicNameMap.set topicId topicName }

/-- 0 stands for no topic id. -/
def snGetTopicIdFromMap (topicName : CString) : UInt16 := (c.topicNameMap topicName).getD 0

/-- Stores a topic in both maps; its name is read for the first. -/
def addTopic (topicName : Ptr CString) (topicId : UInt16) : Run Client := do
  let topicName ← topicName.deref
  pure ((c.snAddTopicIdInMap topicName topicId).snAddTopicNameInMap topicId topicName)

/-! ### The timers -/

/-- `map_init` of `messages_map`, and `connect_task`. -/
def snStartConnectTimer : Client := { c with messagesMap := .empty, connecter := true }

/-- `map_init` of the maps, and `sn_ping_task`. -/
def startMqttSnPingTimer (delay : UInt32) : Client :=
  { c with
    messagesMap := .empty
    topicNameMap := .empty
    reverseTopicNameMap := .empty
    pingDelay := delay
    pinger := true }

def snStopConnectTimer : Run Client := do
  pthreadCancel c.connecter
  pure c

/-- `map_deinit` of the maps, and the end of the ping timer. -/
def snStopPingTimer : Run Client := do
  pthreadCancel c.pinger
  pure { c with messagesMap := .empty, topicNameMap := .empty, reverseTopicNameMap := .empty }

/-- Nothing calls `sn_start_message_timer`. -/
def snStopMessageTimer : Run Client := do
  pthreadCancel c.messager
  pure c

def snStopAllTimers : Run Client := do
  let c ← c.snStopPingTimer
  c.snStopMessageTimer

/-! ### The calls -/

/-- The id `++current_packet_number` gives a packet. -/
def nextId : UInt16 := UInt16.ofInt (c.currentPacketNumber + 1)

def countPacket : Client := { c with currentPacketNumber := c.currentPacketNumber + 1 }

def sendSnConnect (account : Account) : Run Client :=
  let c := { c with delayInSeconds := account.keepAlive, account := account }
  let message := connectMessage account
  ((c.snEncodeAndFire message).snStartConnectTimer).snAddMessageInMap message

/-- The topic of a SUBSCRIBE or UNSUBSCRIBE: by id when it is known. -/
def requestTopic (topicName : CString) (qos : Cell Nat) : SnTopic :=
  let topicId := c.snGetTopicIdFromMap topicName
  if topicId = 0 then ⟨.indet, .ref topicName, qos, .is .named⟩
  else ⟨.is topicId, .indet, qos, .is .id⟩

def sendSnSubscribe (topicName : CString) (qos : Nat) : Run Client := do
  let message := subscribeMessage (c.requestTopic topicName (.is qos)) c.nextId
  let c ← c.countPacket.snAddMessageInMap message
  pure (c.snEncodeAndFire message)

def sendSnUnsubscribe (topicName : CString) : Run Client := do
  let message := unsubscribeMessage (c.requestTopic topicName .indet) c.nextId
  let c ← c.countPacket.snAddMessageInMap message
  pure (c.snEncodeAndFire message)

def sendSnRegister (topicName : CString) : Run Client := do
  let message := registerMessage topicName c.nextId
  let c ← c.countPacket.snAddMessageInMap message
  pure (c.snEncodeAndFire message)

def sendSnPublish (snPublish : SnPublish) : Run Client := do
  let message := publishMessage { snPublish with messageId := c.nextId }
  let c := c.countPacket.snEncodeAndFire message
  if (← snPublish.topic.qos.get) = 0 then pure c else c.snAddMessageInMap message

/-- Keeps the PUBLISH in the map until the REGACK. -/
def keepBack (message : SnMessage) : Run Client :=
  { c with wire := c.wire ++ [Traffic.queued message] }.snAddMessageInMap message

def sendSnMessage (p : Publication) : Run Client := do
  let topicId := c.snGetTopicIdFromMap p.topicName
  let snPublish := p.packet topicId c.nextId
  let c := c.countPacket
  if topicId = 0 then do
    let c ← c.keepBack (publishMessage snPublish)
    c.sendSnRegister p.topicName
  else c.sendSnPublish snPublish

def sendWillTopic : Client := c.snEncodeAndFire (willTopicMessage c.account)

def sendWillMessage : Client := c.snEncodeAndFire (willMsgMessage c.account)

def snSendPing : Client := c.snEncodeAndFire (pingreqMessage c.account)

def sendSnDisconnect : Run Client := do
  let c ← c.snStopAllTimers
  pure { c.snEncodeAndFire (disconnectMessage c.account) with stopped := true }

/-! ### Received messages -/

/-- `malloc` has other memory to give. -/
def withMemory (memory : UInt16) : Client := { c with memory := memory }

def notify (notice : Notice) : Client := { c with notices := c.notices ++ [notice] }

def processConnack (message : SnMessage) : Run Client := do
  let c ← c.snStopConnectTimer
  let c := c.snRemoveMessageFromMap 0
  let snCa ← cast message.packet fun | .connack sca => some sca | _ => none
  if snCa.returnCode = 0 then
    pure ((c.notify .connectionSuccessful).startMqttSnPingTimer (UInt32.ofInt c.delayInSeconds))
  else pure c

def processRegister (message : SnMessage) : Run Client := do
  let snRegister ← cast message.packet fun | .register sr => some sr | _ => none
  let c ← c.addTopic snRegister.topicName snRegister.topicId
  pure (c.snEncodeAndFire (regackMessage snRegister.msgId snRegister.topicId))

/-- The queued PUBLISH is looked up under the id before that of the REGISTER. -/
def processRegack (message : SnMessage) : Run Client := do
  let snRegAck ← castRegack message
  match c.messagesMap (snRegAck.messageId - 1) with
  | none => pure c
  | some queued => do
    let c ←
      if snRegAck.code = 0 then do
        let snPublish ← castPublish queued
        let c ← c.addTopic snPublish.topic.value snRegAck.topicId
        c.sendSnPublish
          { snPublish with topic := { snPublish.topic with id := .is snRegAck.topicId } }
      else pure c
    pure ((c.snRemoveMessageFromMap (snRegAck.messageId - 1)).snRemoveMessageFromMap
      snRegAck.messageId)

/-- The topic id of a short topic was never assigned. -/
def processPublish (message : SnMessage) : Run Client := do
  let snP ← castPublish message
  let topicId := snP.topic.id.under c.memory
  let qos ← snP.topic.qos.get
  let c := c.notify (.publish snP.data (c.reverseTopicNameMap topicId) qos snP.retain snP.dup)
  if qos = 1 then pure (c.snEncodeAndFire (pubackMessage snP.messageId topicId))
  else if qos = 2 then pure (c.snEncodeAndFire (pubrecMessage snP.messageId))
  else pure c

def processPuback (message : SnMessage) : Run Client := do
  let snPubAck ← cast message.packet fun | .puback spa => some spa | _ => none
  if c.messagesMap snPubAck.messageId = none then pure c
  else pure (c.snRemoveMessageFromMap snPubAck.messageId)

/-- The test for `NULL` is about another pointer. -/
def processPubcomp (message : SnMessage) : Run Client := do
  let snPubComp ← castPubcomp message
  match c.messagesMap snPubComp.messageId with
  | none => .error .nullDeref
  | some message => do
    let snP ← castPublish message
    pure (c.snRemoveMessageFromMap snP.messageId)

def processPubrec (message : SnMessage) : Run Client := do
  let snPubrec ← cast message.packet fun | .pubrec spc => some spc | _ => none
  pure (c.snEncodeAndFire (pubrelMessage snPubrec.messageId))

def processPubrel (message : SnMessage) : Run Client := do
  let snPubrel ← cast message.packet fun | .pubrel spr => some spr | _ => none
  pure (c.snEncodeAndFire (pubcompMessage snPubrel.messageId))

/-- The name of the topic is read whether the SUBSCRIBE has one or not. -/
def processSuback (message : SnMessage) : Run Client := do
  let sa ← castSuback message
  match c.messagesMap sa.messageId with
  | none => pure c
  | some message =>
    if sa.code = 0 then do
      let s ← castSubscribe message
      let c ← c.addTopic (← s.topic.deref).value sa.topicId
      pure (c.snRemoveMessageFromMap sa.messageId)
    else pure c

/-- The topic is only printed; the test for `NULL` is about another pointer. -/
def processUnsuback (message : SnMessage) : Run Client := do
  let snUnsuback ← castUnsuback message
  match c.messagesMap snUnsuback.messageId with
  | none => .error .nullDeref
  | some snM => do
    let snUn ← castUnsubscribe snM
    let topic ← snUn.topic.deref
    if (← topic.topicType.get) = .named then do
      let _ ← topic.value.deref
    else do
      let _ ← topic.id.get
    pure (c.snRemoveMessageFromMap snUn.messageId)

/-- `process_sn_rx` on the message it decoded. -/
def processSnRx (message : SnMessage) : Run Client := do
  let c := { c with wire := c.wire ++ [.received message] }
  match message.messageType with
  | .connack => c.processConnack message
  | .willTopicReq => pure c.sendWillTopic
  | .willMsgReq => pure c.sendWillMessage
  | .register => c.processRegister message
  | .regack => c.processRegack message
  | .publish => c.processPublish message
  | .puback => c.processPuback message
  | .pubcomp => c.processPubcomp message
  | .pubrec => c.processPubrec message
  | .pubrel => c.processPubrel message
  | .suback => c.processSuback message
  | .unsuback => c.processUnsuback message
  | .disconnect => c.snStopAllTimers
  | .advertise | .searchgw | .gwinfo | .connect | .willTopic | .willMsg | .subscribe
  | .unsubscribe | .pingreq | .pingresp | .willTopicUpd | .willTopicResp | .willMsgUpd
  | .willMsgResp | .encapsulated | .unknown _ => pure c

end Client

/-- A packet of the gateway within a session. -/
inductive GatewayPacket where
  | register (topicId msgId : UInt16) (topicName : CString)
  | regack (p : SnRegAck)
  | puback (p : SnPuback)
  | pubrec (p : SnPubrec)
  | pubcomp (p : SnPubcomp)
  | suback (p : SnSuback)
  | unsuback (p : SnUnsuback)

def GatewayPacket.message : GatewayPacket → SnMessage
  | register topicId msgId topicName =>
    ⟨.register, .ref (.register ⟨topicId, msgId, .ref topicName⟩)⟩
  | regack p => ⟨.regack, .ref (.regack p)⟩
  | puback p => ⟨.puback, .ref (.puback p)⟩
  | pubrec p => ⟨.pubrec, .ref (.pubrec p)⟩
  | pubcomp p => ⟨.pubcomp, .ref (.pubcomp p)⟩
  | suback p => ⟨.suback, .ref (.suback p)⟩
  | unsuback p => ⟨.unsuback, .ref (.unsuback p)⟩

/-- The calls of the application and the packets of the gateway within a session. -/
inductive Event where
  | sendSubscribe (topicName : CString) (qos : Nat)
  | sendUnsubscribe (topicName : CString)
  | sendMessage (p : Publication)
  | receive (p : GatewayPacket)

def step (c : Client) : Event → Run Client
  | .sendSubscribe topicName qos => c.sendSnSubscribe topicName qos
  | .sendUnsubscribe topicName => c.sendSnUnsubscribe topicName
  | .sendMessage p => c.sendSnMessage p
  | .receive p => c.processSnRx p.message

end IotClient.MqttSn
