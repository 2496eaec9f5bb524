import IotClient.Mem.Read

/-!
# AMQP headers (`amqp/avps/*.h`, `amqp/packets/*.h`, `amqp/terminus/*.h`)

A header that is sent and one that was received share their types, so optional fields are
pointers: `NULL` when a caller leaves them out, never assigned when the decoder does. A field
of an enumeration type is an integer where the decoder stores what it read.
-/

namespace IotClient.Amqp

open Mem

/-! ### Codes -/

inductive HeaderCode where
  | open | begin | attach | flow | transfer | disposition | detach | amqpEnd | close
  | mechanisms | init | challenge | response | outcome | ping | proto
  deriving DecidableEq, Repr

namespace HeaderCode

def toByte : HeaderCode → UInt8
  | .open => 0x10
  | .begin => 0x11
  | .attach => 0x12
  | .flow => 0x13
  | .transfer => 0x14
  | .disposition => 0x15
  | .detach => 0x16
  | .amqpEnd => 0x17
  | .close => 0x18
  | .mechanisms => 0x40
  | .init => 0x41
  | .challenge => 0x42
  | .response => 0x43
  | .outcome => 0x44
  | .ping => 0xff
  | .proto => 0xfe

/-- The enumerators. -/
def all : List HeaderCode :=
  [.open, .begin, .attach, .flow, .transfer, .disposition, .detach, .amqpEnd, .close,
    .mechanisms, .init, .challenge, .response, .outcome, .ping, .proto]

/-- The enumerator with a given value. -/
def ofByte (b : UInt8) : Option HeaderCode := all.find? (·.toByte == b)

theorem ofByte_toByte (c : HeaderCode) : ofByte c.toByte = some c := by
  cases c <;> decide

theorem toByte_of_ofByte {b : UInt8} {c : HeaderCode} (h : ofByte b = some c) : c.toByte = b := by
  have hfound := List.find?_some h
  exact beq_iff_eq.1 hfound

end HeaderCode

inductive SectionCode where
  | header | deliveryAnnotations | messageAnnotations | properties | applicationProperties
  | data | sequence | value | footer
  deriving DecidableEq, Repr

namespace SectionCode

def toByte : SectionCode → UInt8
  | header => 0x70
  | deliveryAnnotations => 0x71
  | messageAnnotations => 0x72
  | properties => 0x73
  | applicationProperties => 0x74
  | data => 0x75
  | sequence => 0x76
  | value => 0x77
  | footer => 0x78

/-- The enumerators. -/
def all : List SectionCode :=
  [header, deliveryAnnotations, messageAnnotations, properties, applicationProperties, data,
    sequence, value, footer]

/-- The enumerator with a given value. -/
def ofByte (b : UInt8) : Option SectionCode := all.find? (·.toByte == b)

end SectionCode

/-- The values of `enum StateCode`. -/
def stateCodes : List UInt8 := [0x23, 0x24, 0x25, 0x26, 0x27]

inductive RoleCode where
  | sender | receiver
  deriving DecidableEq, Repr

namespace RoleCode

def toInt : RoleCode → Int
  | sender => 0
  | receiver => 1

/-- The role of a boolean. -/
def ofInt (value : Int) : RoleCode := if value = 0 then sender else receiver

@[simp] theorem ofInt_toInt (r : RoleCode) : ofInt r.toInt = r := by
  cases r <;> rfl

end RoleCode

inductive TerminusExpiryPolicy where
  | linkDetach | sessionEnd | connectionClose | never
  deriving DecidableEq, Repr

def stringTerminusExpiryPolicy : TerminusExpiryPolicy → CString
  | .linkDetach => .literal "link-detach"
  | .sessionEnd => .literal "session-end"
  | .connectionClose => .literal "connection-close"
  | .never => .literal "never"

inductive DistributionMode where
  | move | copy
  deriving DecidableEq, Repr

def stringDistributionMode : DistributionMode → CString
  | .move => .literal "move"
  | .copy => .literal "copy"

/-- The strings of `enum ErrorCode`, by its values. -/
def errorCodes : List String :=
  ["amqp:internal-error", "amqp:not-found", "amqp:unauthorized-access", "amqp:decode-error",
    "amqp:resource-limit-exceeded", "amqp:not-allowed", "amqp:invalid-field",
    "amqp:not-implemented", "amqp:resource-locked", "amqp:precondition-failed",
    "amqp:resource-deleted", "amqp:illegal-state", "amqp:frame-size-too-small",
    "amqp:connection-forced", "amqp:framing-error", "amqp:redirected", "amqp:window-violation",
    "amqp:errant-link", "amqp:handle-in-use", "amqp:unattached-handle", "amqp:detach-forced",
    "amqp:transfer-limit-exceeded", "amqp:message-size-exceeded", "amqp:redirect", "amqp:stolen"]

def stringErrorCode (p : Int) : Run CString :=
  if p < 0 then .error .readOut
  else match errorCodes[p.toNat]? with
    | some s => .ok (.literal s)
    | none => .error .readOut

/-! ### Values of the packets -/

structure AmqpSymbol where
  value : Ptr CString
  deriving DecidableEq

/-- An entry of a map; no function looks into one. -/
structure AmqpSymbolVoidEntry where
  deriving DecidableEq

/-- What `unwrap` returns a pointer to. -/
inductive Unwrapped where
  | int (value : Int)
  | bytes (value : List UInt8)
  | string (value : CString)
  | symbol (value : AmqpSymbol)
  | decimal (value : List UInt8)
  | array (values : List (Ptr Unwrapped))

/-- A pointer to an enumerator, where the decoder stores one to characters. -/
inductive EnumOrChars (α : Type) where
  | enumerator (a : α)
  | chars (s : CString)
  deriving DecidableEq

def EnumOrChars.get {α : Type} : EnumOrChars α → Run α
  | enumerator a => .ok a
  | chars _ => .error .badCast

structure AmqpState where
  code : Cell UInt8
  deriving DecidableEq

structure AmqpOutcome where
  code : Cell UInt8
  deriving DecidableEq

structure AmqpMessageFormat where
  messageFormat : Cell Int
  deriving DecidableEq

structure AmqpError where
  condition : Ptr Int
  description : Ptr CString
  info : Ptr AmqpSymbolVoidEntry
  deriving DecidableEq

structure AmqpSource where
  address : Ptr CString
  durable : Ptr Int
  expiryPeriod : Ptr (EnumOrChars TerminusExpiryPolicy)
  timeout : Ptr Int
  dynamic : Ptr Int
  dynamicNodeProperties : Ptr AmqpSymbolVoidEntry
  distributionMode : Ptr (EnumOrChars DistributionMode)
  filter : Ptr AmqpSymbolVoidEntry
  defaultOutcome : Ptr AmqpOutcome
  outcomes : Ptr (List (Ptr Unwrapped))
  capabilities : Ptr (List (Ptr Unwrapped))

structure AmqpTarget where
  address : Ptr CString
  durable : Ptr Int
  expiryPeriod : Ptr (EnumOrChars TerminusExpiryPolicy)
  timeout : Ptr Int
  dynamic : Ptr Int
  dynamicNodeProperties : Ptr AmqpSymbolVoidEntry
  capabilities : Ptr (List (Ptr Unwrapped))

structure AmqpData where
  data : Ptr (List UInt8)
  dataLength : Cell Int
  deriving DecidableEq

/-- A section; only `DATA` sections have contents. -/
structure SectionEntry where
  code : UInt8
  sectionData : Ptr AmqpData
  deriving DecidableEq

/-! ### Packets -/

structure AmqpOpen where
  containerId : Ptr CString
  hostname : Ptr CString
  maxFrameSize : Ptr Int
  channelMax : Ptr Int
  idleTimeout : Ptr Int
  outgoingLocales : Ptr Unwrapped
  incomingLocales : Ptr Unwrapped
  offeredCapabilities : Ptr Unwrapped
  desiredCapabilities : Ptr Unwrapped
  properties : Ptr AmqpSymbolVoidEntry

structure AmqpBegin where
  remoteChannel : Ptr Int
  nextOutgoingId : Ptr Int
  incomingWindow : Ptr Int
  outgoingWindow : Ptr Int
  handleMax : Ptr Int
  offeredCapabilities : Ptr Unwrapped
  desiredCapabilities : Ptr Unwrapped
  properties : Ptr AmqpSymbolVoidEntry

structure AmqpAttach where
  name : Ptr CString
  handle : Ptr Int
  role : Ptr RoleCode
  sndSettleMode : Ptr Int
  rcvSettleMode : Ptr Int
  source : Ptr AmqpSource
  target : Ptr AmqpTarget
  unsettled : Ptr AmqpSymbolVoidEntry
  incompleteUnsettled : Ptr Int
  initialDeliveryCount : Ptr Int
  maxMessageSize : Ptr Int
  offeredCapabilities : Ptr (List (Ptr Unwrapped))
  desiredCapabilities : Ptr (List (Ptr Unwrapped))
  properties : Ptr AmqpSymbolVoidEntry

structure AmqpTransfer where
  handle : Ptr Int
  deliveryId : Ptr Int
  deliveryTag : Ptr (List UInt8)
  deliveryTagLength : Ptr Int
  messageFormat : Ptr AmqpMessageFormat
  settled : Ptr Int
  more : Ptr Int
  rcvSettleMode : Ptr Int
  state : Ptr AmqpState
  resume : Ptr Int
  aborted : Ptr Int
  batchable : Ptr Int
  sections : Ptr (List SectionEntry)
  sectionNumber : Ptr (Cell Int)
  deriving DecidableEq

structure AmqpDisposition where
  role : Ptr RoleCode
  first : Ptr Int
  last : Ptr Int
  settled : Ptr Int
  state : Ptr AmqpState
  batchable : Ptr Int
  deriving DecidableEq

structure AmqpDetach where
  handle : Ptr Int
  closed : Ptr Int
  error : Ptr AmqpError
  deriving DecidableEq

structure SaslInit where
  mechanism : Ptr AmqpSymbol
  initialResponse : Ptr (List UInt8)
  initialResponseLength : Cell Int
  hostName : Ptr CString
  deriving DecidableEq

structure SaslMechanisms where
  mechanisms : Ptr Unwrapped

structure SaslChallenge where
  challenge : Ptr (List UInt8)
  deriving DecidableEq

structure SaslOutcome where
  outcomeCode : Cell Int
  additionalData : Ptr (List UInt8)
  deriving DecidableEq

structure AmqpProtoHeader where
  protocol : Ptr CString
  protocolId : Cell Int
  versionMajor : Cell Int
  versionMinor : Cell Int
  versionRevision : Cell Int
  deriving DecidableEq

/-- What a header's `packet` points at; no function looks into the packets without data. -/
inductive Packet where
  | open (p : AmqpOpen)
  | begin (p : AmqpBegin)
  | attach (p : AmqpAttach)
  | flow
  | transfer (p : AmqpTransfer)
  | disposition (p : AmqpDisposition)
  | detach (p : AmqpDetach)
  | amqpEnd
  | close
  | mechanisms (p : SaslMechanisms)
  | init (p : SaslInit)
  | challenge (p : SaslChallenge)
  | response
  | outcome (p : SaslOutcome)
  | proto (p : AmqpProtoHeader)

structure AmqpHeader where
  code : Cell UInt8
  doff : Cell Int
  type : Cell Int
  channel : Cell Int
  packet : Ptr Packet

end IotClient.Amqp
