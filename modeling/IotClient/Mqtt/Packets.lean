import IotClient.Mem.Read

/-!
# MQTT packets (`mqtt/packets/*.h`)

The structs of the MQTT client. `Message.packet` is the `void *` the code casts by
`message_type`: `asConnect` and its siblings are these casts. An enumeration that the code
fills from an `int` (`QoS`, `connack_code`, `SubackCode`) is a `Nat`, a C truth value an `Int`.
The fields `is_incoming` and `time_stamp`, which no packet codec reads, are left out.
-/

namespace IotClient.Mqtt

open Mem

inductive MessageType where
  | connect | connack | publish | puback | pubrec | pubrel | pubcomp | subscribe | suback
  | unsubscribe | unsuback | pingreq | pingresp | disconnect
  deriving DecidableEq, Repr

namespace MessageType

def toByte : MessageType → UInt8
  | connect => 1
  | connack => 2
  | publish => 3
  | puback => 4
  | pubrec => 5
  | pubrel => 6
  | pubcomp => 7
  | subscribe => 8
  | suback => 9
  | unsubscribe => 10
  | unsuback => 11
  | pingreq => 12
  | pingresp => 13
  | disconnect => 14

/-- The enumerators. -/
def all : List MessageType :=
  [connect, connack, publish, puback, pubrec, pubrel, pubcomp, subscribe, suback, unsubscribe,
    unsuback, pingreq, pingresp, disconnect]

/-- The enumerator with a given value. -/
def ofValue (n : Nat) : Option MessageType := all.find? (·.toByte.toNat == n)

def ofByte (b : UInt8) : Option MessageType := ofValue b.toNat

theorem ofByte_toByte (t : MessageType) : ofByte t.toByte = some t := by
  cases t <;> decide

end MessageType

structure Topic where
  topicName : Ptr CString
  qos : Cell Nat
  deriving DecidableEq

structure Will where
  topic : Topic
  content : Ptr CString
  retain : Int
  deriving DecidableEq

structure Connect where
  username : Ptr CString
  password : Ptr CString
  clientId : Ptr CString
  cleanSession : Int
  willFlag : Int
  keepalive : UInt16
  protocolLevel : UInt16
  will : Will
  deriving DecidableEq

structure Connack where
  sessionPresent : Int
  returnCode : Nat
  deriving DecidableEq

structure Publish where
  topic : Topic
  content : Ptr CString
  retain : Int
  dup : Int
  packetId : Cell UInt16
  deriving DecidableEq

structure Puback where
  packetId : UInt16
  deriving DecidableEq

structure Pubrec where
  packetId : UInt16
  deriving DecidableEq

structure Pubrel where
  packetId : UInt16
  deriving DecidableEq

structure Pubcomp where
  packetId : UInt16
  deriving DecidableEq

structure Subscribe where
  topics : Ptr (List Topic)
  topicsNumber : Nat
  packetId : UInt16
  deriving DecidableEq

structure Suback where
  packetId : UInt16
  codesNumber : Nat
  codes : Ptr (List Nat)
  deriving DecidableEq

structure Unsubscribe where
  topicsNumber : Cell Nat
  topics : Ptr (List Topic)
  packetId : UInt16
  deriving DecidableEq

structure Unsuback where
  packetId : UInt16
  deriving DecidableEq

/-- What `message->packet` points at. -/
inductive Packet where
  | connect (c : Connect)
  | connack (ca : Connack)
  | publish (p : Publish)
  | puback (pa : Puback)
  | pubrec (pr : Pubrec)
  | pubrel (pl : Pubrel)
  | pubcomp (pc : Pubcomp)
  | subscribe (s : Subscribe)
  | suback (sa : Suback)
  | unsubscribe (us : Unsubscribe)
  | unsuback (usa : Unsuback)
  deriving DecidableEq

structure Message where
  messageType : Cell MessageType
  packet : Ptr Packet
  deriving DecidableEq

namespace Packet

def asConnect : Packet → Run Connect
  | connect c => .ok c
  | _ => .error .badCast

def asConnack : Packet → Run Connack
  | connack ca => .ok ca
  | _ => .error .badCast

def asPublish : Packet → Run Publish
  | publish p => .ok p
  | _ => .error .badCast

def asPuback : Packet → Run Puback
  | puback pa => .ok pa
  | _ => .error .badCast

def asPubrec : Packet → Run Pubrec
  | pubrec pr => .ok pr
  | _ => .error .badCast

def asPubrel : Packet → Run Pubrel
  | pubrel pl => .ok pl
  | _ => .error .badCast

def asPubcomp : Packet → Run Pubcomp
  | pubcomp pc => .ok pc
  | _ => .error .badCast

def asSubscribe : Packet → Run Subscribe
  | subscribe s => .ok s
  | _ => .error .badCast

def asSuback : Packet → Run Suback
  | suback sa => .ok sa
  | _ => .error .badCast

def asUnsubscribe : Packet → Run Unsubscribe
  | unsubscribe us => .ok us
  | _ => .error .badCast

def asUnsuback : Packet → Run Unsuback
  | unsuback usa => .ok usa
  | _ => .error .badCast

end Packet

end IotClient.Mqtt
