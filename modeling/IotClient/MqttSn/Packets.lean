import IotClient.Mem.Read

/-!
# MQTT-SN packets (`mqttsn/packets/*.h`)

As in the MQTT packets, an enumeration that is only copied between an `int` and a byte is a
`Nat`. A message type that is no enumerator is kept as the byte it came from (`unknown`).
-/

namespace IotClient.MqttSn

open Mem

inductive SnMessageType where
  | advertise | searchgw | gwinfo | connect | connack | willTopicReq | willTopic | willMsgReq
  | willMsg | register | regack | publish | puback | pubcomp | pubrec | pubrel | subscribe | suback
  | unsubscribe | unsuback | pingreq | pingresp | disconnect | willTopicUpd | willTopicResp
  | willMsgUpd | willMsgResp | encapsulated
  | unknown (b : UInt8)
  deriving DecidableEq, Repr

namespace SnMessageType

def toByte : SnMessageType → UInt8
  | advertise => 0x00
  | searchgw => 0x01
  | gwinfo => 0x02
  | connect => 0x04
  | connack => 0x05
  | willTopicReq => 0x06
  | willTopic => 0x07
  | willMsgReq => 0x08
  | willMsg => 0x09
  | register => 0x0a
  | regack => 0x0b
  | publish => 0x0c
  | puback => 0x0d
  | pubcomp => 0x0e
  | pubrec => 0x0f
  | pubrel => 0x10
  | subscribe => 0x12
  | suback => 0x13
  | unsubscribe => 0x14
  | unsuback => 0x15
  | pingreq => 0x16
  | pingresp => 0x17
  | disconnect => 0x18
  | willTopicUpd => 0x1a
  | willTopicResp => 0x1b
  | willMsgUpd => 0x1c
  | willMsgResp => 0x1d
  | encapsulated => 0xfe
  | unknown b => b

/-- The enumerators. -/
def all : List SnMessageType :=
  [advertise, searchgw, gwinfo, connect, connack, willTopicReq, willTopic, willMsgReq, willMsg,
    register, regack, publish, puback, pubcomp, pubrec, pubrel, subscribe, suback, unsubscribe,
    unsuback, pingreq, pingresp, disconnect, willTopicUpd, willTopicResp, willMsgUpd, willMsgResp,
    encapsulated]

def ofByte (b : UInt8) : SnMessageType := (all.find? (·.toByte == b)).getD (unknown b)

theorem ofByte_toByte {t : SnMessageType} (h : t ∈ all) : ofByte t.toByte = t := by
  revert t; decide

end SnMessageType

inductive SnTopicType where
  | named | id | short
  deriving DecidableEq, Repr

def SnTopicType.toByte : SnTopicType → UInt8
  | named => 0
  | id => 1
  | short => 2

structure SnTopic where
  id : Cell UInt16
  value : Ptr CString
  qos : Cell Nat
  topicType : Cell SnTopicType
  deriving DecidableEq

structure SnAdvertise where
  gwId : UInt8
  duration : UInt16
  deriving DecidableEq

structure SnSearchGw where
  radius : Nat
  deriving DecidableEq

structure SnGwInfo where
  gwId : UInt8
  gwAddress : Ptr CString
  deriving DecidableEq

structure SnConnect where
  willPresent : Int
  cleanSession : Int
  protocolId : UInt8
  duration : UInt16
  clientId : Ptr CString
  deriving DecidableEq

structure SnConnack where
  returnCode : Nat
  deriving DecidableEq

structure SnWillTopic where
  retain : Int
  topic : Ptr SnTopic
  deriving DecidableEq

structure SnWillMessage where
  message : Ptr CString
  deriving DecidableEq

structure SnRegister where
  topicId : UInt16
  msgId : UInt16
  topicName : Ptr CString
  deriving DecidableEq

structure SnRegAck where
  topicId : UInt16
  messageId : UInt16
  code : Nat
  deriving DecidableEq

/-- Without `is_incoming`, which no codec function reads. -/
structure SnPublish where
  messageId : UInt16
  topic : SnTopic
  data : Ptr CString
  dup : Int
  retain : Int
  deriving DecidableEq

structure SnPuback where
  topicId : UInt16
  messageId : UInt16
  code : Nat
  deriving DecidableEq

structure SnPubrec where
  messageId : UInt16
  deriving DecidableEq

structure SnPubrel where
  messageId : UInt16
  deriving DecidableEq

structure SnPubcomp where
  messageId : UInt16
  deriving DecidableEq

structure SnSubscribe where
  messageId : UInt16
  topic : Ptr SnTopic
  dup : Int
  deriving DecidableEq

structure SnSuback where
  topicId : UInt16
  messageId : UInt16
  code : Nat
  allowedQos : Nat
  deriving DecidableEq

structure SnUnsubscribe where
  messageId : UInt16
  topic : Ptr SnTopic
  deriving DecidableEq

structure SnUnsuback where
  messageId : UInt16
  deriving DecidableEq

structure SnPingreq where
  clientId : Ptr CString
  deriving DecidableEq

structure SnDisconnect where
  duration : UInt16
  deriving DecidableEq

structure SnWillTopicUpd where
  retain : Int
  topic : Ptr SnTopic
  deriving DecidableEq

structure SnWillMsgUpd where
  message : Ptr CString
  deriving DecidableEq

structure SnWillTopicResp where
  returnCode : Nat
  deriving DecidableEq

structure SnWillMsgResp where
  returnCode : Nat
  deriving DecidableEq

/-- The encapsulated message is only ever used as the string its packet pointer is cast to. -/
structure SnEncapsulated where
  radius : Nat
  wirelessNodeId : Ptr CString
  message : Ptr CString
  deriving DecidableEq

/-- What `packet` of a message points at. -/
inductive SnPacket where
  | advertise (adv : SnAdvertise)
  | searchgw (ssg : SnSearchGw)
  | gwinfo (sgi : SnGwInfo)
  | connect (sc : SnConnect)
  | connack (sca : SnConnack)
  | willTopic (swt : SnWillTopic)
  | willMsg (swm : SnWillMessage)
  | register (sr : SnRegister)
  | regack (sra : SnRegAck)
  | publish (sp : SnPublish)
  | puback (spa : SnPuback)
  | pubrec (spc : SnPubrec)
  | pubrel (spr : SnPubrel)
  | pubcomp (spcp : SnPubcomp)
  | subscribe (ss : SnSubscribe)
  | suback (ssa : SnSuback)
  | unsubscribe (sus : SnUnsubscribe)
  | unsuback (susa : SnUnsuback)
  | pingreq (spr : SnPingreq)
  | disconnect (sd : SnDisconnect)
  | willTopicUpd (swtu : SnWillTopicUpd)
  | willMsgUpd (swmu : SnWillMsgUpd)
  | willTopicResp (swtrs : SnWillTopicResp)
  | willMsgResp (swmrs : SnWillMsgResp)
  | encapsulated (se : SnEncapsulated)
  deriving DecidableEq

structure SnMessage where
  messageType : SnMessageType
  packet : Ptr SnPacket
  deriving DecidableEq

end IotClient.MqttSn
