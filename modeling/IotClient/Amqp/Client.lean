import IotClient.Account
import IotClient.Amqp.Parser
import IotClient.Machine.Requests
import IotClient.Machine.Runs

/-!
# The AMQP client (`amqp/amqp_client.c`, `amqp/amqp_timers.c`)

A `Client` is the static state of the two files. The headers handed to `amqp_encode_and_fire`,
the transfers put into `m_handler` to be sent after the ATTACH, and the headers that
`process_amqp_rx` reads are logged in `wire`, in order. Handles are `long`s in the packets and
16 bits wide in the maps. The timer threads are left out, and so is the block
`amqp_encode` makes of a header.
-/

namespace IotClient.Amqp

open Mem Machine

structure Client where
  account : Account
  channel : Cell Int
  /-- an `int` that each call raises by one, so that no run is long enough to wrap it; only an
  ATTACH of the peer with a handle from `2^31 - 1` on would, which here counts as it is -/
  nextHandle : Int
  /-- an `int` that each transfer raises by one -/
  packetIdCounter : Int
  /-- the transfers that wait for the ATTACH of their link -/
  mHandler : Table UInt16 AmqpHeader
  /-- the unsettled transfers -/
  mDeliveryId : Table UInt16 AmqpHeader
  topicNameMap : Table CString UInt16
  topicNameMapOutgoing : Table CString UInt16
  reverseTopicNameMap : Table UInt16 CString
  wire : List (Traffic AmqpHeader)
  pingDelay : UInt32
  /-- how often the listener was told that the connection succeeded -/
  connected : Nat
  /-- `lws_close_tcp_connection` was called -/
  closed : Bool

/-- The static variables when the program starts. -/
def Client.init (account : Account) : Client where
  account := account
  channel := .is 0
  nextHandle := 1
  packetIdCounter := 1
  mHandler := .empty
  mDeliveryId := .empty
  topicNameMap := .empty
  topicNameMapOutgoing := .empty
  reverseTopicNameMap := .empty
  wire := []
  pingDelay := 10
  connected := 0
  closed := false

/-- The key of a `long` handle or delivery id, which the maps take as an `unsigned short`. -/
def mapKey (n : Int) : UInt16 := UInt16.ofInt n

/-! ### The headers of the `send` functions -/

/-- A header of the session. -/
def frameHeader (channel : Cell Int) (code : HeaderCode) (packet : Ptr Packet) : AmqpHeader :=
  ⟨.is code.toByte, .is 2, .is 0, channel, packet⟩

/-- A protocol header; its other fields are as `malloc` left them. -/
def protoHeader (protocolId : Int) : AmqpHeader where
  code := .is HeaderCode.proto.toByte
  doff := .indet
  type := .indet
  channel := .indet
  packet := .ref (.proto ⟨.ref (.literal "AMQP"), .is protocolId, .is 1, .is 0, .is 0⟩)

def openPacket (account : Account) : AmqpOpen where
  containerId := .ofOption account.clientId
  hostname := .null
  maxFrameSize := .null
  channelMax := .null
  idleTimeout := .ref (account.keepAlive * 1000)
  outgoingLocales := .null
  incomingLocales := .null
  offeredCapabilities := .null
  desiredCapabilities := .null
  properties := .null

def beginPacket : AmqpBegin where
  remoteChannel := .null
  nextOutgoingId := .ref 0
  incomingWindow := .ref 2147483647
  outgoingWindow := .ref 0
  handleMax := .null
  offeredCapabilities := .null
  desiredCapabilities := .null
  properties := .null

/-- The ATTACH of a subscription; 2 is the mode `MIXED`. -/
def receiverAttach (topicName : CString) (handler : Int) : AmqpAttach where
  name := .ref topicName
  handle := .ref handler
  role := .ref .receiver
  sndSettleMode := .ref 2
  rcvSettleMode := .null
  source := .null
  target := .ref {
    address := .ref topicName
    durable := .ref 0
    expiryPeriod := .null
    timeout := .ref 0
    dynamic := .ref 0
    dynamicNodeProperties := .null
    capabilities := .null }
  unsettled := .null
  incompleteUnsettled := .null
  initialDeliveryCount := .null
  maxMessageSize := .null
  offeredCapabilities := .null
  desiredCapabilities := .null
  properties := .null

/-- The ATTACH that opens a link for transfers; 0 is the mode `FIRST`. -/
def senderAttach (topicName : CString) (handler : Int) : AmqpAttach where
  name := .ref topicName
  handle := .ref handler
  role := .ref .sender
  sndSettleMode := .null
  rcvSettleMode := .ref 0
  source := .ref {
    address := .ref topicName
    durable := .ref 0
    expiryPeriod := .null
    timeout := .ref 0
    dynamic := .ref 0
    dynamicNodeProperties := .null
    distributionMode := .null
    filter := .null
    defaultOutcome := .null
    outcomes := .null
    capabilities := .null }
  target := .null
  unsettled := .null
  incompleteUnsettled := .null
  initialDeliveryCount := .ref 0
  maxMessageSize := .null
  offeredCapabilities := .null
  desiredCapabilities := .null
  properties := .null

def transferPacket (content : CString) (qos deliveryId handle : Int) : AmqpTransfer where
  handle := .ref handle
  deliveryId := .ref deliveryId
  deliveryTag := .null
  deliveryTagLength := .indet
  messageFormat := .ref ⟨.is 0⟩
  settled := .ref (if qos = 0 then 1 else 0)
  more := .ref 0
  rcvSettleMode := .null
  state := .null
  resume := .null
  aborted := .null
  batchable := .null
  sections := .ref [⟨SectionCode.data.toByte, .ref ⟨.ref content.bytes, .is content.strlen⟩⟩]
  sectionNumber := .ref (.is 1)

def transferHeader (channel : Cell Int) (content : CString) (qos deliveryId handle : Int) :
    AmqpHeader :=
  frameHeader channel .transfer (.ref (.transfer (transferPacket content qos deliveryId handle)))

def castAttach (header : AmqpHeader) : Run AmqpAttach :=
  castPacket header fun | .attach p => some p | _ => none

def castTransfer (header : AmqpHeader) : Run AmqpTransfer :=
  castPacket header fun | .transfer p => some p | _ => none

def castDisposition (header : AmqpHeader) : Run AmqpDisposition :=
  castPacket header fun | .disposition p => some p | _ => none

def castDetach (header : AmqpHeader) : Run AmqpDetach :=
  castPacket header fun | .detach p => some p | _ => none

/-- `settled` is set; a transfer that leaves it out is unsettled. -/
def isSettled (transfer : AmqpTransfer) : Run Bool := do
  if ← transfer.settled.nonNull then pure (decide ((← transfer.settled.deref) ≠ 0)) else pure false

/-- 0x24 is the state `AMQP_ACCEPTED`. -/
def dispositionPacket (deliveryId : Int) : AmqpDisposition where
  role := .ref .receiver
  first := .ref deliveryId
  last := .ref deliveryId
  settled := .ref 1
  state := .ref ⟨.is 0x24⟩
  batchable := .null

namespace Client

variable (c : Client)

def amqpEncodeAndFire (header : AmqpHeader) : Client :=
  { c with wire := c.wire ++ [.sent header] }

/-- Fires a header of the session with the code and the packet. -/
def fire (code : HeaderCode) (packet : Ptr Packet) : Client :=
  c.amqpEncodeAndFire (frameHeader c.channel code packet)

/-! ### The maps -/

/-- A transfer kept back until its link is attached. -/
def amqpAddMessageInMapByHandler (handler : Int) (message : AmqpHeader) : Client :=
  { c with
    mHandler := c.mHandler.set (mapKey handler) message
    wire := c.wire ++ [.queued message] }

def amqpAddMessageInMapByDeliveryId (deliveryId : Int) (message : AmqpHeader) : Client :=
  { c with mDeliveryId := c.mDeliveryId.set (mapKey deliveryId) message }

def amqpRemoveMessageFromMapHandler (handler : UInt16) : Client :=
  { c with mHandler := c.mHandler.erase handler }

def amqpRemoveMessageFromMapDeliveryId (deliveryId : Int) : Client :=
  { c with mDeliveryId := c.mDeliveryId.erase (mapKey deliveryId) }

def amqpRemoveTopicNameFromMap (topicName : CString) : Client :=
  { c with topicNameMap := c.topicNameMap.erase topicName }

def amqpRemoveHandleFromMap (handler : Int) : Client :=
  { c with reverseTopicNameMap := c.reverseTopicNameMap.erase (mapKey handler) }

def amqpAddHandlerInMap (topicName : CString) (handler : Int) : Client :=
  { c with topicNameMap := c.topicNameMap.set topicName (mapKey handler) }

def amqpAddHandlerInMapOutgoing (topicName : CString) (handler : Int) : Client :=
  { c with topicNameMapOutgoing := c.topicNameMapOutgoing.set topicName (mapKey handler) }

def amqpAddTopicNameInMap (handler : Int) (topicName : CString) : Client :=
  { c with reverseTopicNameMap := c.reverseTopicNameMap.set (mapKey handler) topicName }

/-- 0 stands for no handle. -/
def amqpGetHandlerFromMap (topicName : CString) : UInt16 := (c.topicNameMap topicName).getD 0

def amqpGetHandlerFromMapOutgoing (topicName : CString) : UInt16 :=
  (c.topicNameMapOutgoing topicName).getD 0

/-- `map_init` of the maps. -/
def startAmqpPingTimer (delay : UInt32) : Client :=
  { c with
    mHandler := .empty
    mDeliveryId := .empty
    topicNameMap := .empty
    topicNameMapOutgoing := .empty
    reverseTopicNameMap := .empty
    pingDelay := delay }

/-! ### The calls -/

def sendAmqpProtoHeader (protocolId : Int) : Client :=
  c.amqpEncodeAndFire (protoHeader protocolId)

def sendAmqpOpen : Client := c.fire .open (.ref (.open (openPacket c.account)))

def sendAmqpBegin : Client := c.fire .begin (.ref (.begin beginPacket))

def sendAmqpEnd : Client := c.fire .amqpEnd .null

def sendAmqpClose : Client := c.fire .close .null

def sendAmqpPing : Client := c.fire .ping .null

/-- SASL PLAIN with the account's name and password. -/
def sendAmqpSaslInit (inHeader : AmqpHeader) : Run Client := do
  let saslMechanisms ← castPacket inHeader fun | .mechanisms p => some p | _ => none
  -- what the decoder stored is taken for a symbol
  let mechanism ← match saslMechanisms.mechanisms with
    | .indet => pure .indet
    | .null => pure .null
    | .ref (.symbol value) => pure (.ref value)
    | .ref _ => .error .badCast
  let username ← (Ptr.ofOption c.account.username).deref
  let password ← (Ptr.ofOption c.account.password).deref
  let challenge := username.bytes ++ 0 :: (username.bytes ++ 0 :: password.bytes)
  pure (c.amqpEncodeAndFire {
    code := .is HeaderCode.init.toByte
    doff := inHeader.doff
    type := inHeader.type
    channel := inHeader.channel
    packet := .ref (.init ⟨mechanism, .ref challenge, .is challenge.length, .null⟩) })

/-- The parameter `qos` is not used. -/
def sendAmqpAttachWithHandler (topicName : CString) (_qos handler : Int) : Client :=
  c.fire .attach (.ref (.attach (receiverAttach topicName handler)))

def sendAmqpAttach (topicName : CString) (qos : Int) : Client :=
  { c with nextHandle := c.nextHandle + 1 }.sendAmqpAttachWithHandler topicName qos c.nextHandle

def sendAmqpDetach (topicName : CString) : Client :=
  let handle := c.amqpGetHandlerFromMap topicName
  if handle = 0 then c
  else c.fire .detach (.ref (.detach ⟨.ref handle.toNat, .ref 1, .null⟩))

def sendAmqpDisposition (deliveryId : Int) : Client :=
  c.fire .disposition (.ref (.disposition (dispositionPacket deliveryId)))

/-- Opens a link for the topic and keeps the transfer until the peer attaches. -/
def queueTransfer (content topicName : CString) (qos deliveryId : Int) : Client :=
  let currentHandler := c.nextHandle
  let c := { c with nextHandle := c.nextHandle + 1 }
  let c := c.amqpAddHandlerInMapOutgoing topicName currentHandler
  let c := c.amqpAddTopicNameInMap currentHandler topicName
  let c := c.amqpAddMessageInMapByHandler currentHandler
    (transferHeader c.channel content qos deliveryId currentHandler)
  c.fire .attach (.ref (.attach (senderAttach topicName currentHandler)))

/-- The parameters `retain` and `dup` are not used. -/
def sendAmqpTransfer (content topicName : CString) (qos _retain _dup : Int) : Client :=
  let deliveryId := c.packetIdCounter
  let c := { c with packetIdCounter := c.packetIdCounter + 1 }
  let handle := c.amqpGetHandlerFromMapOutgoing topicName
  if handle ≠ 0 then
    c.amqpEncodeAndFire (transferHeader c.channel content qos deliveryId handle.toNat)
  else c.queueTransfer content topicName qos deliveryId

/-! ### Received headers -/

/-- The peer takes transfers on the topic: the one that waits is sent. -/
def processReceiverAttach (name : CString) : Run Client :=
  let realHandle := c.amqpGetHandlerFromMapOutgoing name
  if realHandle ≠ 0 then
    match c.mHandler realHandle with
    | some currentMessage => do
      let c := c.amqpEncodeAndFire currentMessage
      let c := c.amqpRemoveMessageFromMapHandler realHandle
      let transfer ← castTransfer currentMessage
      if ← isSettled transfer then pure c
      else pure (c.amqpAddMessageInMapByDeliveryId (← transfer.deliveryId.deref) currentMessage)
    | none => pure c
  else pure c

/-- The peer sends transfers on the topic: a first handle for it is recorded. -/
def processSenderAttach (name : CString) (handle : Int) : Client :=
  let c :=
    if c.amqpGetHandlerFromMap name = 0 then
      (c.amqpAddHandlerInMap name handle).amqpAddTopicNameInMap handle name
    else c
  if handle ≥ c.nextHandle then { c with nextHandle := handle + 1 } else c

/-- An ATTACH without a role is skipped. -/
def processAttach (header : AmqpHeader) : Run Client := do
  let attach ← castAttach header
  if ← attach.role.nonNull then
    match ← attach.role.deref with
    | .receiver => do c.processReceiverAttach (← attach.name.deref)
    | .sender => do pure (c.processSenderAttach (← attach.name.deref) (← attach.handle.deref))
  else pure c

/-- The contents are copied and not handed on. -/
def processTransfer (header : AmqpHeader) : Run Client := do
  let transfer ← castTransfer header
  let c ←
    if ← isSettled transfer then pure c
    else do pure (c.sendAmqpDisposition (← transfer.deliveryId.deref))
  match ← transfer.sections.deref with
  | [] => .error .readOut
  | entry :: _ => do
    let amqpData ← entry.sectionData.deref
    let _ ← copyOut (← amqpData.data.deref) 0 (← amqpData.dataLength.get)
    pure c

/-- Only the delivery id `first` is looked at. -/
def processDisposition (header : AmqpHeader) : Run Client := do
  let disposition ← castDisposition header
  let first ← disposition.first.deref
  if c.mDeliveryId (mapKey first) = none then pure c
  else pure (c.amqpRemoveMessageFromMapDeliveryId first)

def processDetach (header : AmqpHeader) : Run Client := do
  let detach ← castDetach header
  let handle ← detach.handle.deref
  match c.reverseTopicNameMap (mapKey handle) with
  | some topicName =>
    pure ((c.amqpRemoveTopicNameFromMap topicName).amqpRemoveHandleFromMap handle)
  | none => pure c

/-- `process_amqp_rx` on the header it decoded. -/
def processAmqpRx (header : AmqpHeader) : Run Client := do
  let c := { c with wire := c.wire ++ [.received header] }
  match HeaderCode.ofByte (← header.code.get) with
  | some .proto => do
    let proto ← castPacket header fun | .proto p => some p | _ => none
    if (← proto.protocolId.get) = 0 then pure { c with channel := header.channel }.sendAmqpOpen
    else pure c
  | some .open =>
    pure (c.startAmqpPingTimer (UInt32.ofInt c.account.keepAlive)).sendAmqpBegin
  | some .begin => pure { c with connected := c.connected + 1 }
  | some .attach => c.processAttach header
  | some .transfer => c.processTransfer header
  | some .disposition => c.processDisposition header
  | some .detach => c.processDetach header
  | some .amqpEnd => pure c.sendAmqpClose
  | some .close => pure { c with closed := true }
  | some .mechanisms => c.sendAmqpSaslInit header
  | some .outcome => do
    let outcome ← castPacket header fun | .outcome p => some p | _ => none
    if (← outcome.outcomeCode.get) = 0 then pure (c.sendAmqpProtoHeader 0) else pure c
  | some .flow | some .init | some .challenge | some .response | some .ping | none => pure c

end Client

/-! ### Events -/

/-- A received ATTACH with a name, a handle and a role. -/
structure AttachFrame where
  header : AmqpHeader
  attach : AmqpAttach
  name : CString
  handle : Int
  role : RoleCode
  code_eq : header.code = .is HeaderCode.attach.toByte
  packet_eq : header.packet = .ref (.attach attach)
  name_eq : attach.name = .ref name
  handle_eq : attach.handle = .ref handle
  role_eq : attach.role = .ref role

/-- An ATTACH with only a name, a handle and a role set. -/
def AttachFrame.make (name : CString) (handle : Int) (role : RoleCode) : AttachFrame where
  header := frameHeader (.is 0) .attach
    (.ref (.attach { receiverAttach name handle with role := .ref role }))
  attach := { receiverAttach name handle with role := .ref role }
  name := name
  handle := handle
  role := role
  code_eq := rfl
  packet_eq := rfl
  name_eq := rfl
  handle_eq := rfl
  role_eq := rfl

/-- A received DETACH with a handle. -/
structure DetachFrame where
  header : AmqpHeader
  detach : AmqpDetach
  handle : Int
  code_eq : header.code = .is HeaderCode.detach.toByte
  packet_eq : header.packet = .ref (.detach detach)
  handle_eq : detach.handle = .ref handle

/-- A DETACH with only a handle set. -/
def DetachFrame.make (handle : Int) : DetachFrame where
  header := frameHeader (.is 0) .detach (.ref (.detach ⟨.ref handle, .ref 1, .null⟩))
  detach := ⟨.ref handle, .ref 1, .null⟩
  handle := handle
  code_eq := rfl
  packet_eq := rfl
  handle_eq := rfl

/-- A received DISPOSITION with its first delivery id. -/
structure DispositionFrame where
  header : AmqpHeader
  disposition : AmqpDisposition
  first : Int
  code_eq : header.code = .is HeaderCode.disposition.toByte
  packet_eq : header.packet = .ref (.disposition disposition)
  first_eq : disposition.first = .ref first

/-- The calls of the application and the frames of the peer within a session. -/
inductive Event where
  | sendTransfer (content topicName : CString) (qos retain dup : Int)
  | sendAttach (topicName : CString) (qos : Int)
  | sendDetach (topicName : CString)
  | attach (f : AttachFrame)
  | detach (f : DetachFrame)
  | disposition (f : DispositionFrame)

def step (c : Client) : Event → Run Client
  | .sendTransfer content topicName qos retain dup =>
    .ok (c.sendAmqpTransfer content topicName qos retain dup)
  | .sendAttach topicName qos => .ok (c.sendAmqpAttach topicName qos)
  | .sendDetach topicName => .ok (c.sendAmqpDetach topicName)
  | .attach f => c.processAmqpRx f.header
  | .detach f => c.processAmqpRx f.header
  | .disposition f => c.processAmqpRx f.header

end IotClient.Amqp
