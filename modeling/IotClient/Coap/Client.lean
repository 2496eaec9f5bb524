import IotClient.Account
import IotClient.Coap.Parser
import IotClient.Machine.Requests
import IotClient.Machine.Runs

/-!
# The CoAP client (`coap/coap_client.c`, `coap/coap_timers.c`)

A `Client` is the static state of the two files. `wire` logs the messages that are given to
`coap_encode_and_fire` and those that `process_coap_rx` decodes, `datagrams` what is written to
the net, `published` the calls of `get_pub_pt`, and `arrivals` counts the datagrams that dyad has
handed over. The timer threads are left out.
-/

namespace IotClient.Coap

open Mem Machine

/-- The arguments of `get_pub_pt`, less the retain and dup flags, which are 0. -/
structure Published where
  content : Ptr CString
  topicName : CString
  qos : UInt8
  deriving DecidableEq

structure Client where
  account : Account
  currentPacketNumber : Nat
  m : Table UInt16 CoapMessage
  wire : List (Traffic CoapMessage)
  datagrams : List Block
  published : List Published
  arrivals : Nat

/-! ### Options -/

/-- An option whose value is an array. -/
def arrayOption (number : CoapOptionType) (value : List UInt8) : CoapOption :=
  ⟨number.value, value.length, .ref value⟩

/-- An option whose value is a string, with its terminator behind it. -/
def stringOption (number : CoapOptionType) (value : CString) : CoapOption :=
  ⟨number.value, value.strlen, .ref (value.bytes ++ [0])⟩

/-- `qos_value`; its second byte stays unset for a number that is no QoS. -/
def qosValue (qos : Int) (unset : UInt8) : List UInt8 :=
  [0, if qos = 1 then 1 else if qos = 0 then 0 else if qos = 2 then 2 else unset]

/-- `option.value[option.length - 1]` -/
def lastByte (o : CoapOption) : Run UInt8 := do
  let value ← o.value.deref
  if o.length < 1 then .error .readOut else rd value (o.length - 1).toNat

/-- The loop that looks for the topic of a publication, and the QoS it has read by then. -/
def findTopic : List CoapOption → UInt8 → Run (Option CString × UInt8)
  | [], qos => pure (none, qos)
  | o :: os, qos =>
    if o.number = CoapOptionType.uriPath.value then do
      let value ← o.value.elems o.length.toNat
      pure (some (CString.ofBytes value), qos)
    else if o.number = CoapOptionType.accept.value then do findTopic os (← lastByte o)
    else findTopic os qos

/-- The last byte of the first OBSERVE that is not empty. -/
def findObserve : List CoapOption → Run (Option UInt8)
  | [] => pure none
  | o :: os =>
    if o.number = CoapOptionType.observe.value ∧ 0 < o.length then do pure (some (← lastByte o))
    else findObserve os

/-- The loop that reads the QoS of every ACCEPT. -/
def readAccepts : List CoapOption → UInt8 → Run UInt8
  | [], qos => pure qos
  | o :: os, qos =>
    if o.number = CoapOptionType.accept.value then do readAccepts os (← lastByte o)
    else readAccepts os qos

/-- The loop that copies the topics of a request with `strcpy`. -/
def copyTopics : List CoapOption → Run Unit
  | [] => pure ()
  | o :: os => do
    if o.number = CoapOptionType.uriPath.value then
      let value ← o.value.deref
      if 0 ∈ value then copyTopics os else .error .readOut
    else copyTopics os

namespace Client

/-- The static variables after `init_coap_client`. -/
def init (account : Account) : Client where
  account := account
  currentPacketNumber := 0
  m := .empty
  wire := []
  datagrams := []
  published := []
  arrivals := 0

variable (c : Client)

def coapEncodeAndFire (message : CoapMessage) : Run Client := do
  let cursor ← coapEncode message
  pure { c with
    wire := c.wire ++ [.sent message]
    datagrams := c.datagrams ++ [cursor.buf.take cursor.i] }

def coapAddMessageInMap (message : CoapMessage) : Client :=
  { c with m := c.m.set message.messageId message }

def coapRemoveMessageFromMap (packetId : UInt16) : Client := { c with m := c.m.erase packetId }

/-- `sprintf(str, "%d", current_packet_number)` into an array of 5 bytes. -/
def tokenOf (n : Nat) : Run CString :=
  if (decimal n).strlen + 1 ≤ 5 then .ok (decimal n) else .error .writeOut

/-- The NODE_ID of every message. -/
def nodeId : Run CoapOption := do
  pure (stringOption .nodeId (← (Ptr.ofOption c.account.clientId).deref))

/-! ### Calls -/

/-- The message of a request with the id `n`. -/
def requestMessage (n : Nat) (token : CString) (code : CoapCode) (payload : CString)
    (options : List CoapOption) : CoapMessage where
  version := 1
  type := CoapType.confirmable.value
  code := code.value
  messageId := UInt16.ofNat n
  token := .ref token
  tokenLength := .indet
  options := .ref options
  optionsAmount := options.length
  payload := .ref payload

def sendRequest (code : CoapCode) (payload : CString) (options : List CoapOption) :
    Run Client := do
  let c := { c with currentPacketNumber := c.currentPacketNumber + 1 }
  let token ← tokenOf c.currentPacketNumber
  let nodeId ← c.nodeId
  let message := requestMessage c.currentPacketNumber token code payload (options ++ [nodeId])
  (c.coapAddMessageInMap message).coapEncodeAndFire message

def sendCoapSubscribe (topicName : CString) (qos : Int) (unset : UInt8) : Run Client :=
  c.sendRequest .get ∅ [arrayOption .observe [0, 0, 0, 0], stringOption .uriPath topicName,
    arrayOption .accept (qosValue qos unset)]

def sendCoapUnsubscribe (topicName : CString) : Run Client :=
  c.sendRequest .get ∅ [arrayOption .observe [0, 0, 0, 1], stringOption .uriPath topicName]

/-- The retain and dup flags of `send_coap_message` are not read. -/
def sendCoapMessage (content topicName : CString) (qos : Int) (unset : UInt8) : Run Client :=
  c.sendRequest .put content [stringOption .uriPath topicName,
    arrayOption .accept (qosValue qos unset)]

/-! ### Messages -/

/-- The acknowledgement of `inMessage`. -/
def ackMessage (inMessage : CoapMessage) (isOk : Bool) (nodeId : CoapOption) : CoapMessage where
  version := inMessage.version
  type := CoapType.acknowledgement.value
  code := if isOk then inMessage.code else CoapCode.badOption.value
  messageId := inMessage.messageId
  token := inMessage.token
  tokenLength := .indet
  options := .ref
    (if isOk then [nodeId] else [stringOption .contentFormat (.literal "text/plain"), nodeId])
  optionsAmount := if isOk then 1 else 2
  payload := .ref ∅

def sendCoapAck (inMessage : CoapMessage) (isOk : Bool) : Run Client := do
  c.coapEncodeAndFire (ackMessage inMessage isOk (← c.nodeId))

/-- The request of an acknowledgement whose OBSERVE ends in `observe` is read. -/
def readOriginal (options : List CoapOption) (observe : UInt8) (packetId : UInt16) : Run Unit :=
  match c.m packetId with
  | none => pure ()
  | some original =>
    if observe = 0 then do
      let _ ← readAccepts options 0
      pure ()
    else do
      copyTopics (← original.options.elems original.optionsAmount.toNat)

def processAck (message : CoapMessage) (options : List CoapOption) : Run Client := do
  if message.code = CoapCode.get.value then
    match ← findObserve options with
    | none => pure c
    | some observe => do
      c.readOriginal options observe message.messageId
      pure (c.coapRemoveMessageFromMap message.messageId)
  else if message.messageId ≠ 0 ∧ c.m message.messageId ≠ none then
    pure (c.coapRemoveMessageFromMap message.messageId)
  else pure c

/-- The switch on the type. -/
def processType (message : CoapMessage) (options : List CoapOption) : Run Client :=
  if message.type = CoapType.confirmable.value then c.sendCoapAck message true
  else if message.type = CoapType.nonConfirmable.value then
    pure (c.coapRemoveMessageFromMap message.messageId)
  else if message.type = CoapType.acknowledgement.value then c.processAck message options
  else if message.type = CoapType.reset.value then
    pure (c.coapRemoveMessageFromMap message.messageId)
  else pure c

/-- A POST or PUT that is no acknowledgement. -/
def Publishes (message : CoapMessage) : Prop :=
  (message.code = CoapCode.post.value ∨ message.code = CoapCode.put.value) ∧
    message.type ≠ CoapType.acknowledgement.value

instance (message : CoapMessage) : Decidable (Publishes message) :=
  inferInstanceAs (Decidable (_ ∧ _))

def getPub (message : CoapMessage) (topicName : CString) (qos : UInt8) : Client :=
  { c with published := c.published ++ [⟨message.payload, topicName, qos⟩] }

/-- A decoded message. -/
def processMessage (message : CoapMessage) : Run Client := do
  let options ← message.options.elems message.optionsAmount.toNat
  if Publishes message then
    match ← findTopic options 0 with
    | (none, _) => c.sendCoapAck message false
    | (some topicName, qos) => do
      let c ← c.sendCoapAck message true
      (c.getPub message topicName qos).processType message options
  else c.processType message options

def processCoapRx (data : List UInt8) (length : Int) : Run Client := do
  match ← coapDecode data length with
  | none => pure c
  | some message => processMessage { c with wire := c.wire ++ [.received message] } message

end Client

/-- What happens to the client. -/
inductive Event where
  | sendSubscribe (topicName : CString) (qos : Int) (unset : UInt8)
  | sendUnsubscribe (topicName : CString)
  | sendMessage (content topicName : CString) (qos : Int) (unset : UInt8)
  | receive (data : List UInt8) (length : Int)

def Client.step (c : Client) : Event → Run Client
  | .sendSubscribe topicName qos unset => c.sendCoapSubscribe topicName qos unset
  | .sendUnsubscribe topicName => c.sendCoapUnsubscribe topicName
  | .sendMessage content topicName qos unset => c.sendCoapMessage content topicName qos unset
  | .receive data length => c.processCoapRx data length

end IotClient.Coap
