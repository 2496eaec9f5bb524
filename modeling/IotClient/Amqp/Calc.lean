import IotClient.Amqp.Tlv
import IotClient.Helpers

/-!
# `amqp/amqp_calc.c`

A list is encoded from its nodes' `bytes`. `size` is what the caller computed: the bytes of the
nodes, so the field written from it leaves out the count. `LIST_32` adds 3 to it, the bytes its
count takes more than that of a `LIST_8`, and as many bytes behind the nodes are copied.
-/

namespace IotClient.Amqp

open Mem

/-- `constructor` holds the bytes of the list's constructor. The numbers are `int`s, of a list below
`2^31` bytes. -/
structure TlvList where
  list : List TlvAmqp
  constructor : List UInt8
  width : Cell Int
  size : Cell Int
  count : Cell Int
  length : Cell Int
  bytes : Ptr Block

/-- A list as `malloc` leaves it. -/
def TlvList.fresh : TlvList where
  list := []
  constructor := []
  width := .indet
  size := .indet
  count := .indet
  length := .indet
  bytes := .indet

/-- The first `width` bytes of an `int`, reversed. -/
def widthBytes (width n : Int) : Run (List UInt8) :=
  if width < 0 then .error .negativeSize
  else if 4 < width then .error .readOut
  else .ok ((intBytes (UInt32.ofInt n)).drop (4 - width.toNat))

/-- The loop of `get_bytes`: the nodes' bytes, copied one behind the other from `pos`. -/
def copyValues : List TlvAmqp → Block → Int → Run (Block × Int)
  | [], valueBytes, pos => pure (valueBytes, pos)
  | tlv :: list, valueBytes, pos => do
    let bytes ← tlv.bytes.deref
    let length ← tlv.length.get
    let valueBytes ← valueBytes.copyIn pos.toNat bytes length
    copyValues list valueBytes (pos + length)

/-- Sets `length`, and `bytes` to what it returns. -/
def getBytes (list : TlvList) : Run TlvList := do
  let width ← list.width.get
  let size ← list.size.get
  let count ← list.count.get
  let sizeBytes ← widthBytes width size
  let countBytes ← widthBytes width count
  let valueBytes ← Block.mallocPtrs size
  let values ← (Ptr.ref list.list).elems count.toNat
  let (valueBytes, pos) ← copyValues values valueBytes 0
  let length := list.constructor.length + width + width + pos
  let bytes ← Block.mallocPtrs length
  let bytes ← bytes.copyIn 0 (list.constructor.map some) list.constructor.length
  let i := list.constructor.length
  if 0 < size then do
    let bytes ← bytes.copyIn i (sizeBytes.map some) width
    let bytes ← bytes.copyIn (i + width.toNat) (countBytes.map some) width
    let bytes ← bytes.copyIn (i + width.toNat + width.toNat) valueBytes size
    pure { list with length := .is length, bytes := .ref bytes }
  else pure { list with length := .is length, bytes := .ref bytes }

def calculateBytes (list : TlvList) (headerCode : UInt8) : Run TlvList := do
  let size ← list.size.get
  let (code, list) := if 255 < size then
      (AmqpType.list32, { list with width := .is 4, size := .is (size + 3) })
    else (AmqpType.list8, list)
  getBytes { list with
    constructor := [0, AmqpType.smallUlong.toByte, headerCode, code.toByte] }

end IotClient.Amqp
