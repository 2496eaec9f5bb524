import IotClient.Amqp.Tlv
import IotClient.Helpers

/-!
# `amqp/tlv_factory.c`

`getTlv`, `getConstructor` and `getElement` return a node and the position behind it. Lists
and arrays are read by counting elements (`times`), maps up to a position computed from the
size (`entriesBelow`). Fuel bounds the nesting; `getTlv` has enough for any that the buffer
can hold.
-/

namespace IotClient.Amqp

open Mem

section Loops

variable {α : Type}

/-- `n` elements read one after the other. -/
def times (f : Nat → Run (α × Nat)) : Nat → Nat → Run (List α × Nat)
  | 0, i => pure ([], i)
  | n + 1, i => do
    let (x, i) ← f i
    let (xs, i) ← times f n i
    pure (x :: xs, i)

/-- Keys and values read while the position is below `stop`, into an array of `room` entries. -/
def entriesBelow (f : Nat → Run (α × Nat)) (stop : Int) : Nat → Nat → Run (List (α × α) × Nat)
  | 0, i => if (i : Int) < stop then .error .writeOut else pure ([], i)
  | room + 1, i =>
    if (i : Int) < stop then do
      let (k, i) ← f i
      let (v, i) ← f i
      let (es, i) ← entriesBelow f stop room i
      pure ((k, v) :: es, i)
    else pure ([], i)

end Loops

/-- A value of `n` bytes; `length` is what the case stores there. -/
def getFixed (code : UInt8) (n : Nat) (length : Cell Int) (buf : List UInt8) (i : Nat) :
    Run (TlvAmqp × Nat) := do
  let value ← copyOut buf i n
  pure ({ TlvAmqp.ofCode code with valueArray := .ref value, length := length }, i + n)

/-- A value whose length takes one byte. -/
def getVariable8 (code : UInt8) (buf : List UInt8) (i : Nat) : Run (TlvAmqp × Nat) := do
  let length := (← rd buf i).toNat
  let value ← copyOut buf (i + 1) length
  pure ({ TlvAmqp.ofCode code with
    valueArray := .ref value
    length := .is length
    width := .ref (variableWidth length) }, i + 1 + length)

/-- A value whose length takes four bytes; the length is not kept. -/
def getVariable32 (code : UInt8) (buf : List UInt8) (i : Nat) : Run (TlvAmqp × Nat) := do
  let length ← getInt buf i
  let value ← copyOut buf (i + 4) length
  pure ({ TlvAmqp.ofCode code with
    valueArray := .ref value
    width := .ref (variableWidth length) }, i + 4 + length.toNat)

mutual

def getTlvFuel : Nat → List UInt8 → Nat → Run (TlvAmqp × Nat)
  | 0, _, _ => .error .fuel
  | fuel + 1, buf, i => do
    let (constructor, i) ← getConstructor fuel buf i
    let (tlv, i) ← getElement fuel constructor.code buf i
    pure ({ tlv with constructor := .ref constructor }, i)

def getConstructor : Nat → List UInt8 → Nat → Run (TlvConstructor TlvAmqp × Nat)
  | 0, _, _ => .error .fuel
  | fuel + 1, buf, i => do
    let codeByte ← rd buf i
    if codeByte = 0 then do
      let (descriptor, i) ← getTlvFuel fuel buf (i + 1)
      let code ← rd buf i
      pure (⟨code, .ref descriptor⟩, i + 1)
    else pure (⟨codeByte, .indet⟩, i + 1)

/-- The body of a value, by the code of its constructor. -/
def getElement : Nat → UInt8 → List UInt8 → Nat → Run (TlvAmqp × Nat)
  | 0, _, _, _ => .error .fuel
  | fuel + 1, code, buf, i =>
    let tlv := TlvAmqp.ofCode code
    match AmqpType.ofByte code with
    | some .booleanTrue | some .booleanFalse | some .uint0 | some .ulong0 =>
      pure ({ tlv with valueArray := .ref [0], length := .is 0 }, i)
    | some .boolean | some .ubyte | some .byte | some .smallUint | some .smallInt
    | some .smallUlong | some .smallLong => getFixed code 1 (.is 1) buf i
    | some .amqpShort | some .ushort => getFixed code 2 .indet buf i
    | some .uint | some .int | some .float | some .decimal32 | some .char =>
      getFixed code 4 (.is 1) buf i
    | some .ulong | some .long | some .decimal64 | some .double | some .timestamp =>
      getFixed code 8 .indet buf i
    | some .decimal128 | some .uuid => getFixed code 16 .indet buf i
    | some .string8 | some .symbol8 | some .binary8 => getVariable8 code buf i
    | some .string32 | some .symbol32 | some .binary32 => getVariable32 code buf i
    | some .list0 =>
      pure ({ tlv with list := .null, width := .ref 0, count := .ref 0, size := .ref 0 }, i)
    | some .list8 => do
      let size := (← rd buf i).toNat
      let count := (← rd buf (i + 1)).toNat
      let (values, i) ← times (getTlvFuel fuel buf) count (i + 2)
      pure ({ tlv with
        list := .ref values, width := .ref 1, count := .ref count, size := .ref size }, i)
    | some .list32 => do
      let size ← getInt buf i
      let count ← getInt buf (i + 4)
      let (_, i) ← times (getTlvFuel fuel buf) count.toNat (i + 8)
      -- the elements are not stored
      pure ({ tlv with width := .ref 4, count := .ref count, size := .ref size }, i)
    | some .map8 => do
      let size := (← rd buf i).toNat
      let count := (← rd buf (i + 1)).toNat
      let stop := ((i + 2 : Nat) : Int) + size - 1
      let (entries, i) ← entriesBelow (getTlvFuel fuel buf) stop count (i + 2)
      pure ({ tlv with
        map := .ref entries, width := .ref 1, count := .ref count, size := .ref size }, i)
    | some .map32 => do
      let size ← getInt buf i
      let count ← getInt buf (i + 4)
      let stop := ((i + 8 : Nat) : Int) + size - 4
      let (entries, i) ← entriesBelow (getTlvFuel fuel buf) stop count.toNat (i + 8)
      pure ({ tlv with
        map := .ref entries, width := .ref 4, count := .ref count, size := .ref size }, i)
    | some .array8 => do
      let size := (← rd buf i).toNat
      let count := (← rd buf (i + 1)).toNat
      let (constructor, i) ← getConstructor fuel buf (i + 2)
      let (values, i) ← times (getElement fuel constructor.code buf) count i
      pure ({ tlv with
        list := .ref values, width := .ref 1, count := .ref count, size := .ref size }, i)
    | some .array32 => do
      let size ← getInt buf i
      let count ← getInt buf (i + 4)
      let (constructor, i) ← getConstructor fuel buf (i + 8)
      let (values, i) ← times (getElement fuel constructor.code buf) count.toNat i
      pure ({ tlv with
        list := .ref values, width := .ref 1, count := .ref count, size := .ref size }, i)
    | some .amqpNull | some .source | some .target | some .error | none => pure (tlv, i)

end

def getTlv (buf : List UInt8) (i : Nat) : Run (TlvAmqp × Nat) :=
  getTlvFuel (2 * buf.length + 2) buf i

end IotClient.Amqp
