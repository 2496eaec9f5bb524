import IotClient.Account
import IotClient.Machine.Requests
import IotClient.Machine.Runs
import IotClient.Mqtt.Broker

/-!
# The MQTT client (`mqtt/mqtt_client.c`, `mqtt/mqtt_timers.c`)

A `Client` is the static state of the two files. What is handed to `encode_and_fire` and what
`process_rx` reads is logged in `wire`, in order; what the listener is told in `notices`. The
timer threads, which send what `m` holds again, are left out, but not that they were started, as
`pthread_cancel` needs it. What `encode_and_fire` makes of a message is `encodeFired`. Calls and
received packets are the events of `step`.
-/

namespace IotClient.Mqtt

open Mem Machine

/-- The calls of the listener's function pointers. -/
inductive Notice where
  | connectionSuccessful
  | connectionUnsuccessful (cause : Nat)
  deriving DecidableEq, Repr

structure Client where
  currentPacketNumber : Int
  delayInSeconds : UInt32
  /-- the ping timer's copy of the delay -/
  pingDelay : UInt32
  m : Table UInt16 Message
  wire : List (Traffic Message)
  notices : List Notice
  /-- `lws_close_tcp_connection` was called, which ends the process -/
  closed : Bool
  /-- `pthread_create` has set the thread id `connecter` -/
  connecter : Bool
  pinger : Bool
  messager : Bool

/-- The static variables when the program starts. -/
def Client.init : Client := ⟨0, 10, 10, .empty, [], [], false, false, false, false⟩

/-! ### The messages of the `send` functions -/

def connectMessage (account : Account) : Message := ⟨.is .connect, .ref (.connect {
  username := .ofOption account.username
  password := .ofOption account.password
  clientId := .ofOption account.clientId
  cleanSession := account.cleanSession
  willFlag := if account.will ≠ none ∧ account.willTopic ≠ none then 1 else 0
  keepalive := UInt16.ofInt account.keepAlive
  protocolLevel := 4
  will := {
    topic := ⟨.ofOption account.willTopic, .is account.qos⟩
    content := .ofOption account.will
    retain := account.isRetain } })⟩

def subscribeMessage (topicName : CString) (qos : Nat) (packetId : UInt16) : Message :=
  ⟨.is .subscribe, .ref (.subscribe ⟨.ref [⟨.ref topicName, .is qos⟩], 1, packetId⟩)⟩

def unsubscribeMessage (topicName : CString) (packetId : UInt16) : Message :=
  ⟨.is .unsubscribe, .ref (.unsubscribe ⟨.is 1, .ref [⟨.ref topicName, .indet⟩], packetId⟩)⟩

def publishMessage (content topicName : CString) (qos : Nat) (retain dup : Int)
    (packetId : UInt16) : Message :=
  ⟨.is .publish, .ref (.publish ⟨⟨.ref topicName, .is qos⟩, .ref content, retain, dup,
    .is packetId⟩)⟩

/-- The key `add_message_in_map` puts a message under. -/
def mapKey (message : Message) : Run UInt16 := do
  match ← message.messageType.get with
  | .publish => do (← (← message.packet.deref).asPublish).packetId.get
  | .subscribe => do pure (← (← message.packet.deref).asSubscribe).packetId
  | .unsubscribe => do pure (← (← message.packet.deref).asUnsubscribe).packetId
  | _ => pure 0

namespace Client

variable (c : Client)

/-- `encode_and_fire`, without what it makes of the message. -/
def encodeAndFire (message : Message) : Client := { c with wire := c.wire ++ [.sent message] }

def addMessageInMap (message : Message) : Run Client := do
  let packetId ← mapKey message
  pure { c with m := c.m.set packetId message }

def removeMessageFromMap (packetId : UInt16) : Client := { c with m := c.m.erase packetId }

/-- `map_init` of the map, whatever it holds. -/
def startConnectTimer : Client := { c with m := .empty, connecter := true }

def startMqttPingTimer (delay : UInt32) : Client := { c with pingDelay := delay, pinger := true }

def stopConnectTimer : Run Client := do
  pthreadCancel c.connecter
  pure c

/-- `map_deinit` of the map, and the end of the ping timer. -/
def stopPingTimer : Run Client := do
  pthreadCancel c.pinger
  pure { c with m := .empty }

/-- Nothing calls `start_message_timer`. -/
def stopMessageTimer : Run Client := do
  pthreadCancel c.messager
  pure c

def stopAllTimers : Run Client := do
  let c ← c.stopPingTimer
  c.stopMessageTimer

/-- The id `++current_packet_number` gives a packet. -/
def nextId : UInt16 := UInt16.ofInt (c.currentPacketNumber + 1)

def countPacket : Client := { c with currentPacketNumber := c.currentPacketNumber + 1 }

def sendConnect (account : Account) : Run Client :=
  let c := { c with delayInSeconds := UInt32.ofInt account.keepAlive }
  let message := connectMessage account
  ((c.encodeAndFire message).startConnectTimer).addMessageInMap message

def sendSubscribe (topicName : CString) (qos : Nat) : Run Client := do
  let message := subscribeMessage topicName qos c.nextId
  let c ← c.countPacket.addMessageInMap message
  pure (c.encodeAndFire message)

def sendUnsubscribe (topicName : CString) : Run Client := do
  let message := unsubscribeMessage topicName c.nextId
  let c ← c.countPacket.addMessageInMap message
  pure (c.encodeAndFire message)

def sendPublish (content topicName : CString) (qos : Nat) (retain dup : Int) : Run Client :=
  if qos ≠ 0 then
    let message := publishMessage content topicName qos retain dup c.nextId
    (c.countPacket.encodeAndFire message).addMessageInMap message
  else
    let message := publishMessage content topicName qos retain dup 0
    (c.encodeAndFire message).addMessageInMap message

def sendDisconnect : Run Client := do
  let c ← c.stopAllTimers
  pure { c.encodeAndFire ⟨.is .disconnect, .indet⟩ with closed := true }

def sendPing : Client := c.encodeAndFire ⟨.is .pingreq, .indet⟩

def notify (notice : Notice) : Client := { c with notices := c.notices ++ [notice] }

def processConnack (message : Message) : Run Client := do
  let c ← c.stopConnectTimer
  let c := c.removeMessageFromMap 0
  let ca ← (← message.packet.deref).asConnack
  if ca.returnCode = 0 then
    pure ((c.notify .connectionSuccessful).startMqttPingTimer c.delayInSeconds)
  else
    pure (c.notify (.connectionUnsuccessful ca.returnCode))

/-- `process_rx` on the message it decoded. -/
def processRx (message : Message) : Run Client := do
  let c := { c with wire := c.wire ++ [.received message] }
  match ← message.messageType.get with
  | .connack => c.processConnack message
  -- the acknowledgements have empty branches
  | .publish | .puback | .pubrec | .pubrel | .pubcomp | .suback | .unsuback | .pingresp => pure c
  | .connect | .subscribe | .unsubscribe | .pingreq | .disconnect => c.sendDisconnect

end Client

/-- The calls an application makes. -/
inductive Call where
  | sendConnect (account : Account)
  | sendSubscribe (topicName : CString) (qos : Nat)
  | sendUnsubscribe (topicName : CString)
  | sendPublish (content topicName : CString) (qos : Fin 3) (retain dup : Int)

inductive Event where
  | call (f : Call)
  | receive (p : BrokerPacket)

/-- The call gives its packet a new id. -/
def Call.Allocates : Call → Prop
  | sendConnect _ => False
  | sendSubscribe .. | sendUnsubscribe _ => True
  | sendPublish _ _ qos _ _ => (qos : Nat) ≠ 0

/-- The message a call sends, with the id it allocates. -/
def Call.message (packetId : UInt16) : Call → Message
  | sendConnect account => connectMessage account
  | sendSubscribe topicName qos => subscribeMessage topicName qos packetId
  | sendUnsubscribe topicName => unsubscribeMessage topicName packetId
  | sendPublish content topicName qos retain dup =>
    publishMessage content topicName qos retain dup (if (qos : Nat) ≠ 0 then packetId else 0)

def Call.run (c : Client) : Call → Run Client
  | sendConnect account => c.sendConnect account
  | sendSubscribe topicName qos => c.sendSubscribe topicName qos
  | sendUnsubscribe topicName => c.sendUnsubscribe topicName
  | sendPublish content topicName qos retain dup => c.sendPublish content topicName qos retain dup

def step (c : Client) : Event → Run Client
  | .call f => f.run c
  | .receive p => c.processRx p.message

end IotClient.Mqtt
