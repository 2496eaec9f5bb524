import IotClient.Amqp.AmqpType
import IotClient.Mem.Block

/-!
# TLV nodes (`amqp/tlv/*.h`)

One struct serves both ways: the decoder sets the code, the value and the list or map of a
node, the wrappers its `bytes` and their number `length`. A code that was read is any byte.
-/

namespace IotClient.Amqp

open Mem

structure TlvConstructor (α : Type) where
  code : UInt8
  tlv : Ptr α

structure TlvAmqp where
  code : Cell UInt8
  constructor : Ptr (TlvConstructor TlvAmqp)
  list : Ptr (List TlvAmqp)
  map : Ptr (List (TlvAmqp × TlvAmqp))
  valueArray : Ptr (List UInt8)
  width : Ptr Int
  size : Ptr Int
  count : Ptr Int
  length : Cell Int
  bytes : Ptr Block

/-- A node as `malloc` leaves it. -/
def TlvAmqp.fresh : TlvAmqp where
  code := .indet
  constructor := .indet
  list := .indet
  map := .indet
  valueArray := .indet
  width := .indet
  size := .indet
  count := .indet
  length := .indet
  bytes := .indet

/-- A fresh node with a code. -/
def TlvAmqp.ofCode (code : UInt8) : TlvAmqp := { TlvAmqp.fresh with code := .is code }

/-- The bytes of the length field of a string, symbol or binary. -/
def variableWidth (length : Int) : Int := if length > 255 then 4 else 1

end IotClient.Amqp
