import IotClient.Amqp.Packets
import IotClient.Amqp.Tlv
import IotClient.Helpers

/-!
# `amqp/wrappers/unwrapper.c`

An unwrap function gives the value of a node with one of the codes it accepts and `NULL` for
any other. `get_long`, `get_double` and `get_float` take the bytes they are given for a pointer
and read what that points at.
-/

namespace IotClient.Amqp

open Mem

/-- The node has one of the codes. -/
def TlvAmqp.hasCode (tlv : TlvAmqp) (codes : List AmqpType) : Run Bool := do
  let code ← tlv.code.get
  pure (codes.any (·.toByte == code))

/-- The value of a node with one of the codes. -/
def unwrapCodes {α : Type} (codes : List AmqpType) (value : TlvAmqp → Run α) (tlv : TlvAmqp) :
    Run (Ptr α) := do
  if ← tlv.hasCode codes then .ref <$> value tlv else pure .null

/-- `get_long`, `get_double` and `get_float`: a wild pointer is dereferenced. -/
def getWild (array : List UInt8) : Run Int := do
  let _ ← copyOut array 0 pointerSize
  .error .readOut

/-- `tlv->value_array[0]` -/
def TlvAmqp.firstByte (tlv : TlvAmqp) : Run UInt8 := do rd (← tlv.valueArray.deref) 0

/-- An integer of `length` 0, 1 or another one, for which `get` reads the bytes. -/
def integerValue (get : List UInt8 → Run Int) (tlv : TlvAmqp) : Run Int := do
  let length ← tlv.length.get
  if length = 0 then pure 0
  else if length = 1 then do
    let value ← tlv.firstByte
    pure value.toNat
  else do get (← tlv.valueArray.deref)

/-- The first `length` bytes, as a string. -/
def stringValue (tlv : TlvAmqp) : Run CString := do
  let length ← tlv.length.get
  let value ← copyOut (← tlv.valueArray.deref) 0 length
  pure (CString.ofBytes value)

def unwrapBinary : TlvAmqp → Run (Ptr (List UInt8)) :=
  unwrapCodes [.binary8, .binary32] (·.valueArray.deref)

def unwrapSymbol : TlvAmqp → Run (Ptr AmqpSymbol) :=
  unwrapCodes [.symbol8, .symbol32] fun tlv => do pure ⟨.ref (← stringValue tlv)⟩

def unwrapString : TlvAmqp → Run (Ptr CString) := unwrapCodes [.string8, .string32] stringValue

def unwrapUbyte : TlvAmqp → Run (Ptr Int) :=
  unwrapCodes [.ubyte] fun tlv => do pure ((← tlv.firstByte).toNat)

/-- A `BOOLEAN` is 0 or 1, or the result is `NULL`. -/
def unwrapBool (tlv : TlvAmqp) : Run (Ptr Int) := do
  let code ← tlv.code.get
  match AmqpType.ofByte code with
  | some .boolean => do
    let val ← tlv.firstByte
    if val = 0 then pure (.ref 0) else if val = 1 then pure (.ref 1) else pure .null
  | some .booleanTrue => pure (.ref 1)
  | some .booleanFalse => pure (.ref 0)
  | _ => pure .null

def unwrapByte : TlvAmqp → Run (Ptr (List UInt8)) := unwrapCodes [.byte] (·.valueArray.deref)

def unwrapChar : TlvAmqp → Run (Ptr Int) :=
  unwrapCodes [.char] fun tlv => do getInt (← tlv.valueArray.deref) 0

def unwrapDouble : TlvAmqp → Run (Ptr Int) :=
  unwrapCodes [.double] fun tlv => do getWild (← tlv.valueArray.deref)

def unwrapFloat : TlvAmqp → Run (Ptr Int) :=
  unwrapCodes [.float] fun tlv => do getWild (← tlv.valueArray.deref)

def unwrapInt : TlvAmqp → Run (Ptr Int) :=
  unwrapCodes [.int, .smallInt] (integerValue (getInt · 0))

def unwrapLong : TlvAmqp → Run (Ptr Int) :=
  unwrapCodes [.long, .smallLong] (integerValue getWild)

/-- The 16 bits that `get_short` returns, as a `short`. -/
def unwrapShort : TlvAmqp → Run (Ptr Int) :=
  unwrapCodes [.amqpShort] fun tlv => do
    pure (← getShort (← tlv.valueArray.deref) 0).toInt16.toInt

def unwrapUint : TlvAmqp → Run (Ptr Int) :=
  unwrapCodes [.uint, .smallUint, .uint0] (integerValue (getInt · 0))

def unwrapUshort : TlvAmqp → Run (Ptr Int) :=
  unwrapCodes [.ushort] fun tlv => do pure (← getShort (← tlv.valueArray.deref) 0).toNat

def unwrapUlong : TlvAmqp → Run (Ptr Int) :=
  unwrapCodes [.ulong, .smallUlong, .ulong0] (integerValue getWild)

/-- `unwrap_uuid`, `unwrap_list` and `unwrap_map` are not implemented. -/
def unwrapNothing {α : Type} (tlv : TlvAmqp) : Run (Ptr α) := do
  let _ ← tlv.code.get
  pure .null

def unwrapDecimal : TlvAmqp → Run (Ptr (List UInt8)) :=
  unwrapCodes [.decimal32, .decimal64, .decimal128] (·.valueArray.deref)

mutual

/-- The value of an element of an array, by its code. -/
def unwrap : TlvAmqp → Run (Ptr Unwrapped)
  | ⟨code, constructor, list, map, valueArray, width, size, count, length, bytes⟩ => do
    let tlv : TlvAmqp :=
      ⟨code, constructor, list, map, valueArray, width, size, count, length, bytes⟩
    match AmqpType.ofByte (← code.get) with
    | some .array8 | some .array32 => do
      let values ← unwrapElements list (← count.deref)
      pure (.ref (.array values))
    | some .binary8 | some .binary32 => (·.map .bytes) <$> unwrapBinary tlv
    | some .ubyte => (·.map .int) <$> unwrapUbyte tlv
    | some .boolean | some .booleanTrue | some .booleanFalse => (·.map .int) <$> unwrapBool tlv
    | some .byte => (·.map .bytes) <$> unwrapByte tlv
    | some .char => (·.map .int) <$> unwrapChar tlv
    | some .double => (·.map .int) <$> unwrapDouble tlv
    | some .float => (·.map .int) <$> unwrapFloat tlv
    | some .int | some .smallInt => (·.map .int) <$> unwrapInt tlv
    | some .list0 | some .list8 | some .list32 => unwrapNothing tlv
    | some .long | some .smallLong | some .timestamp => (·.map .int) <$> unwrapLong tlv
    | some .map8 | some .map32 => unwrapNothing tlv
    | some .amqpShort => (·.map .int) <$> unwrapShort tlv
    | some .string8 | some .string32 => (·.map .string) <$> unwrapString tlv
    | some .symbol8 | some .symbol32 => (·.map .symbol) <$> unwrapSymbol tlv
    | some .uint | some .smallUint | some .uint0 => (·.map .int) <$> unwrapUint tlv
    | some .ulong | some .smallUlong | some .ulong0 => (·.map .int) <$> unwrapUlong tlv
    | some .ushort => (·.map .int) <$> unwrapUshort tlv
    | some .uuid => unwrapNothing tlv
    | some .decimal32 | some .decimal64 | some .decimal128 =>
      (·.map .decimal) <$> unwrapDecimal tlv
    | some .amqpNull | some .source | some .target | some .error | none => pure .null

/-- The loop of `unwrap_array`. -/
def unwrapElements : Ptr (List TlvAmqp) → Int → Run (List (Ptr Unwrapped))
  | .ref list, count => unwrapEach list count.toNat
  | .null, count => if count ≤ 0 then pure [] else .error .nullDeref
  | .indet, count => if count ≤ 0 then pure [] else .error .indet

def unwrapEach : List TlvAmqp → Nat → Run (List (Ptr Unwrapped))
  | _, 0 => pure []
  | [], _ + 1 => .error .readOut
  | tlv :: list, count + 1 => do
    let value ← unwrap tlv
    let values ← unwrapEach list count
    pure (value :: values)

end

def unwrapArray : TlvAmqp → Run (Ptr (List (Ptr Unwrapped))) :=
  unwrapCodes [.array8, .array32] fun tlv => do unwrapElements tlv.list (← tlv.count.deref)

end IotClient.Amqp
