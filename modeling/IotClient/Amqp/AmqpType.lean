import Mathlib.Data.List.Basic

/-!
# AMQP format codes (`amqp/avps/amqp_type.h`)

`source`, `target` and `error` are no format codes; the client writes them as descriptors.
-/

namespace IotClient.Amqp

inductive AmqpType where
  | source | target | error | amqpNull | boolean | booleanTrue | booleanFalse | ubyte | ushort
  | uint | smallUint | uint0 | ulong | smallUlong | ulong0 | byte | amqpShort | int | smallInt
  | long | smallLong | float | double | decimal32 | decimal64 | decimal128 | char | timestamp
  | uuid | binary8 | binary32 | string8 | string32 | symbol8 | symbol32 | list0 | list8 | list32
  | map8 | map32 | array8 | array32
  deriving DecidableEq, Repr

namespace AmqpType

def toByte : AmqpType → UInt8
  | source => 0x28
  | target => 0x29
  | error => 0x1d
  | amqpNull => 0x40
  | boolean => 0x56
  | booleanTrue => 0x41
  | booleanFalse => 0x42
  | ubyte => 0x50
  | ushort => 0x60
  | uint => 0x70
  | smallUint => 0x52
  | uint0 => 0x43
  | ulong => 0x80
  | smallUlong => 0x53
  | ulong0 => 0x44
  | byte => 0x51
  | amqpShort => 0x61
  | int => 0x71
  | smallInt => 0x54
  | long => 0x81
  | smallLong => 0x55
  | float => 0x72
  | double => 0x82
  | decimal32 => 0x74
  | decimal64 => 0x84
  | decimal128 => 0x94
  | char => 0x73
  | timestamp => 0x83
  | uuid => 0x98
  | binary8 => 0xa0
  | binary32 => 0xb0
  | string8 => 0xa1
  | string32 => 0xb1
  | symbol8 => 0xa3
  | symbol32 => 0xb3
  | list0 => 0x45
  | list8 => 0xc0
  | list32 => 0xd0
  | map8 => 0xc1
  | map32 => 0xd1
  | array8 => 0xe0
  | array32 => 0xf0

/-- The enumerators. -/
def all : List AmqpType :=
  [source, target, error, amqpNull, boolean, booleanTrue, booleanFalse, ubyte, ushort, uint,
    smallUint, uint0, ulong, smallUlong, ulong0, byte, amqpShort, int, smallInt, long, smallLong,
    float, double, decimal32, decimal64, decimal128, char, timestamp, uuid, binary8, binary32,
    string8, string32, symbol8, symbol32, list0, list8, list32, map8, map32, array8, array32]

/-- The enumerator with a given value. -/
def ofByte (b : UInt8) : Option AmqpType := all.find? (·.toByte == b)

theorem ofByte_toByte (t : AmqpType) : ofByte t.toByte = some t := by
  cases t <;> decide

end AmqpType

end IotClient.Amqp
