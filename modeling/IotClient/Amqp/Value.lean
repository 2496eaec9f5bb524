import IotClient.Amqp.AmqpType
import IotClient.Helpers

/-!
# AMQP 1.0 values and their encoding

A value has a constructor, which is a format code with or without a descriptor, and a body.
`Val.enc` writes both, with the size and count fields of AMQP 1.0: a size counts the bytes that
follow it, a count the elements, and for a map the keys and the values. The elements of an
array have no constructors of their own. `Val.Ok` says that a value has an encoding.
-/

namespace IotClient.Amqp

/-- The width of size, count and length fields. -/
inductive Width where
  | narrow | wide
  deriving DecidableEq, Repr

inductive VariableKind where
  | binary | string | symbol
  deriving DecidableEq, Repr

namespace Width

/-- The bytes of a field. -/
def bytes : Width → Nat
  | narrow => 1
  | wide => 4

/-- A number in a field of this width. -/
def field : Width → Nat → List UInt8
  | narrow, n => [UInt8.ofNat n]
  | wide, n => intBytes (UInt32.ofNat n)

def Fits : Width → Nat → Prop
  | narrow, n => n < 2 ^ 8
  | wide, n => n < 2 ^ 31

instance decidableFits : (w : Width) → (n : Nat) → Decidable (w.Fits n)
  | narrow, n => inferInstanceAs (Decidable (n < 2 ^ 8))
  | wide, n => inferInstanceAs (Decidable (n < 2 ^ 31))

theorem bytes_pos (w : Width) : 0 < w.bytes := by
  cases w <;> decide

@[simp] theorem length_field (w : Width) (n : Nat) : (w.field n).length = w.bytes := by
  cases w <;> rfl

def variableType : Width → VariableKind → AmqpType
  | narrow, .binary => .binary8
  | narrow, .string => .string8
  | narrow, .symbol => .symbol8
  | wide, .binary => .binary32
  | wide, .string => .string32
  | wide, .symbol => .symbol32

def listType : Width → AmqpType
  | narrow => .list8
  | wide => .list32

def mapType : Width → AmqpType
  | narrow => .map8
  | wide => .map32

def arrayType : Width → AmqpType
  | narrow => .array8
  | wide => .array32

end Width

/-- The bytes of the types whose values all have the same size. -/
def AmqpType.fixedWidth : AmqpType → Option Nat
  | amqpNull | booleanTrue | booleanFalse | uint0 | ulong0 | list0 => some 0
  | boolean | ubyte | byte | smallUint | smallInt | smallUlong | smallLong => some 1
  | amqpShort | ushort => some 2
  | uint | int | float | decimal32 | char => some 4
  | ulong | long | decimal64 | double | timestamp => some 8
  | decimal128 | uuid => some 16
  | _ => none

theorem AmqpType.fixedWidth_le {t : AmqpType} {n : Nat} (h : t.fixedWidth = some n) : n ≤ 16 := by
  cases t <;> simp only [fixedWidth, Option.some.injEq, reduceCtorEq] at h <;> omega

/-- A value: a described one, or one with a bare format code. -/
inductive Val where
  | fixed (type : AmqpType) (data : List UInt8)
  | sized (w : Width) (kind : VariableKind) (data : List UInt8)
  | list (w : Width) (xs : List Val)
  | map (w : Width) (es : List (Val × Val))
  | array (w : Width) (descriptor : Option Val) (type : AmqpType) (xs : List Val)
  | described (descriptor : Val) (v : Val)

namespace Val

/-- The format code of a value's constructor. -/
def type : Val → AmqpType
  | fixed type _ => type
  | sized w kind _ => w.variableType kind
  | list w _ => w.listType
  | map w _ => w.mapType
  | array w .. => w.arrayType
  | described _ v => v.type

/-- The body of a list, map or array of `count` items encoded as `items`. -/
def compound (w : Width) (count : Nat) (items : List UInt8) : List UInt8 :=
  w.field (w.bytes + items.length) ++ (w.field count ++ items)

mutual

/-- Constructor and body. -/
def parts : Val → List UInt8 × List UInt8
  | fixed type data => ([type.toByte], data)
  | sized w kind data => ([(w.variableType kind).toByte], w.field data.length ++ data)
  | list w xs => ([w.listType.toByte], compound w xs.length (encList xs))
  | map w es => ([w.mapType.toByte], compound w (2 * es.length) (encEntries es))
  | array w descriptor type xs =>
    ([w.arrayType.toByte],
      compound w xs.length (encDescriptor descriptor ++ type.toByte :: dataList xs))
  | described d v => (0 :: (d.parts.1 ++ d.parts.2 ++ v.parts.1), v.parts.2)

def encList : List Val → List UInt8
  | [] => []
  | x :: xs => x.parts.1 ++ x.parts.2 ++ encList xs

def encEntries : List (Val × Val) → List UInt8
  | [] => []
  | (k, v) :: es => k.parts.1 ++ k.parts.2 ++ (v.parts.1 ++ v.parts.2 ++ encEntries es)

def dataList : List Val → List UInt8
  | [] => []
  | x :: xs => x.parts.2 ++ dataList xs

/-- What stands before the format code of a described constructor. -/
def encDescriptor : Option Val → List UInt8
  | none => []
  | some d => 0 :: (d.parts.1 ++ d.parts.2)

end

/-- The constructor of a value. -/
def head (v : Val) : List UInt8 := v.parts.1

/-- The body of a value. -/
def data (v : Val) : List UInt8 := v.parts.2

/-- The encoding of a value. -/
def enc (v : Val) : List UInt8 := v.head ++ v.data

/-- The value has a bare format code. -/
def Plain : Val → Prop
  | described .. => False
  | _ => True

theorem head_plain {v : Val} (h : v.Plain) : v.head = [v.type.toByte] := by
  cases v with
  | described d v => exact h.elim
  | _ => rw [head, parts]; rfl

theorem encList_eq (xs : List Val) : encList xs = (xs.map enc).flatten := by
  induction xs with
  | nil => rfl
  | cons x xs ih => rw [encList, ih]; rfl

theorem dataList_eq (xs : List Val) : dataList xs = (xs.map data).flatten := by
  induction xs with
  | nil => rfl
  | cons x xs ih => rw [dataList, ih]; rfl

theorem encEntries_eq (es : List (Val × Val)) :
    encEntries es = ((es.map fun e => (e.1.enc, e.2.enc)).map fun out => out.1 ++ out.2).flatten := by
  induction es with
  | nil => rfl
  | cons e es ih =>
    obtain ⟨k, v⟩ := e
    unfold encEntries
    rw [ih]
    simp only [List.map_cons, List.flatten_cons, enc, head, data, List.append_assoc]

theorem enc_pos (v : Val) : 0 < v.enc.length := by
  cases v <;> simp [enc, head, parts]

/-- A value that AMQP 1.0 can encode: data of the size its type has, and sizes and counts that
fit their fields. -/
inductive Ok : Val → Prop where
  | fixed {type : AmqpType} {data : List UInt8} (h : type.fixedWidth = some data.length) :
    Ok (fixed type data)
  | sized {w : Width} {kind : VariableKind} {data : List UInt8} (h : w.Fits data.length) :
    Ok (sized w kind data)
  | list {w : Width} {xs : List Val} (elems : ∀ x ∈ xs, Ok x) (count : w.Fits xs.length)
    (size : w.Fits (w.bytes + (encList xs).length)) : Ok (list w xs)
  | map {w : Width} {es : List (Val × Val)} (keys : ∀ e ∈ es, Ok e.1) (values : ∀ e ∈ es, Ok e.2)
    (count : w.Fits (2 * es.length)) (size : w.Fits (w.bytes + (encEntries es).length)) :
    Ok (map w es)
  | array {w : Width} {descriptor : Option Val} {type : AmqpType} {xs : List Val}
    (desc : ∀ d ∈ descriptor, Ok d) (elems : ∀ x ∈ xs, Ok x)
    (typed : ∀ x ∈ xs, x.Plain ∧ x.type = type) (count : w.Fits xs.length)
    (size : w.Fits (w.bytes + (encDescriptor descriptor ++ type.toByte :: dataList xs).length)) :
    Ok (array w descriptor type xs)
  | described {d v : Val} (desc : Ok d) (value : Ok v) (plain : v.Plain) : Ok (described d v)

end Val

end IotClient.Amqp
