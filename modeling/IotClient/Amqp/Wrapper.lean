import IotClient.Amqp.Calc
import IotClient.Amqp.Packets

/-!
# `amqp/wrappers/wrapper.c`

A wrapper makes the node of one value, with its encoding in `bytes`. The target is
little-endian: the bytes of an integer are in network order only where the code reverses them.
`_wrap_long` copies the bytes of a pointer instead of those of the number, which are cells
whose contents nothing says.
-/

namespace IotClient.Amqp

open Mem

/-- The bytes of an `int`, as they are in memory. -/
def littleInt (n : Int) : List UInt8 := (intBytes (UInt32.ofInt n)).reverse

/-- The eight bytes of a `long`. -/
def littleLong (n : Int) : List UInt8 := littleInt n ++ littleInt (n / 2 ^ 32)

/-- `malloc(n * sizeof(bytes))` with `cells` copied to its start. -/
def allocBytes (n : Int) (cells : Block) : Run Block := do
  let bytes ← Block.mallocPtrs n
  bytes.copyIn 0 cells cells.length

/-- A node with a code and a value of `length - 1` bytes, written behind the code. -/
def wrapped (code : AmqpType) (valueArray : List UInt8) (length : Nat) (value : Block) :
    Run TlvAmqp := do
  let bytes ← allocBytes length (some code.toByte :: value)
  pure { TlvAmqp.ofCode code.toByte with
    valueArray := .ref valueArray, length := .is length, bytes := .ref bytes }

/-- `if (str_len > 0) memcpy(&bytes[i], tlv->value_array, str_len)` -/
def valueBytes (valueArray : List UInt8) (strLen : Int) : Run (List UInt8) :=
  if 0 < strLen then copyOut valueArray 0 strLen else pure []

/-- `init_tlv_variable` of a node with the code `code`. -/
def initTlvVariable (code : AmqpType) (valueArray : List UInt8) (strLen : Int) : Run TlvAmqp := do
  let width := variableWidth strLen
  let length := strLen + 1 + width
  let lengthBytes := if width = 1 then [UInt8.ofInt strLen] else littleInt strLen
  let value ← valueBytes valueArray strLen
  let bytes ← allocBytes (1 + width + strLen) ((code.toByte :: (lengthBytes ++ value)).map some)
  pure { TlvAmqp.ofCode code.toByte with
    valueArray := .ref valueArray, width := .ref width, length := .is length, bytes := .ref bytes }

/-- `init_tlv_fixed` of a node whose value is `valueArray`. -/
def initTlvFixed (code : AmqpType) (valueArray : List UInt8) : Run TlvAmqp :=
  wrapped code valueArray (1 + valueArray.length) (valueArray.map some)

def wrapNull : TlvAmqp :=
  { TlvAmqp.ofCode AmqpType.amqpNull.toByte with
    length := .is 1, bytes := .ref [some AmqpType.amqpNull.toByte] }

/-- The steps of `init_tlv_variable` are written out in `wrap_string`. -/
def wrapString (s : CString) : Run TlvAmqp :=
  initTlvVariable (if s.strlen > 255 then .string32 else .string8) (s.bytes ++ [0]) s.strlen

def wrapSymbol (symbol : AmqpSymbol) : Run TlvAmqp := do
  let value ← symbol.value.deref
  initTlvVariable (if value.strlen > 255 then .symbol32 else .symbol8) (value.bytes ++ [0])
    value.strlen

def wrapBinary (array : List UInt8) (length : Int) : Run TlvAmqp :=
  initTlvVariable (if length > 255 then .binary32 else .binary8) array length

def wrapBool (value : Int) : Run TlvAmqp :=
  initTlvFixed (if value ≠ 0 then .booleanTrue else .booleanFalse) []

def wrapUbyte (value : Int) : Run TlvAmqp := initTlvFixed .ubyte [UInt8.ofInt value]

/-- The two bytes of `_wrap_short` are reversed. -/
def wrapShortSigned (value : Int) : Run TlvAmqp :=
  initTlvFixed .amqpShort (shortBytes (UInt16.ofInt value))

def wrapShort (value : Int) : Run TlvAmqp :=
  if 0 ≤ value then wrapUbyte value else wrapShortSigned value

def wrapUint (value : Int) : Run TlvAmqp :=
  if value = 0 then wrapped .uint0 [0] 1 []
  else if 0 < value ∧ value ≤ 255 then
    wrapped .smallUint [UInt8.ofInt value] 2 [some (UInt8.ofInt value)]
  else
    let array := intBytes (UInt32.ofInt value)
    wrapped .uint array 5 (array.map some)

/-- `_wrap_long`; its `memcpy` takes `&tlv->value_array`, the bytes of the pointer itself. -/
def wrapLongSigned (value : Int) : Run TlvAmqp :=
  if -128 ≤ value ∧ value ≤ 127 then wrapped .smallLong [UInt8.ofInt value] 2 (Block.malloc 1)
  else
    let array := ((littleLong value).take 2).reverse ++ (littleLong value).drop 2
    wrapped .long array 9 (Block.malloc 8)

def wrapLong (value : Int) : Run TlvAmqp :=
  if 0 ≤ value then wrapUint value else wrapLongSigned value

/-- The two bytes of `wrap_ushort` are not reversed. -/
def wrapUshort (value : Int) : Run TlvAmqp :=
  let array := (shortBytes (UInt16.ofInt value)).reverse
  wrapped .ushort array 3 (array.map some)

/-- The first two of the four bytes are reversed. -/
def wrapIntSigned (value : Int) : Run TlvAmqp :=
  if -128 ≤ value ∧ value ≤ 127 then
    wrapped .smallInt [UInt8.ofInt value] 2 [some (UInt8.ofInt value)]
  else
    let array := ((littleInt value).take 2).reverse ++ (littleInt value).drop 2
    wrapped .int array 5 (array.map some)

def wrapInt (value : Int) : Run TlvAmqp :=
  if 0 ≤ value then wrapUshort value else wrapIntSigned value

/-- `wrap_array`, `wrap_map`, `wrap_list` and `wrap_outcome` are not implemented. -/
def wrapNothing {α : Type} (_ : α) : Run (Ptr TlvAmqp) := pure .null

def wrapState (state : AmqpState) : Run TlvAmqp := do
  let code ← state.code.get
  pure { TlvAmqp.fresh with
    length := .is 4
    bytes := .ref [some 0, some AmqpType.smallUlong.toByte, some code, some AmqpType.list0.toByte] }

/-! ### Lists of fields -/

/-- The locals with which `add_arguments` and the wrappers of lists collect fields; `count` is
not assigned before the first field that is present. The sizes are `int`s in the source, of lists
below `2^31` bytes. -/
structure Args where
  list : List TlvAmqp
  countNotNull : Int
  size : Int
  count : Cell Int

def Args.empty : Args where
  list := []
  countNotNull := 0
  size := 0
  count := .indet

/-- A field that is present. -/
def Args.add (a : Args) (count : Int) (tlv : TlvAmqp) : Run Args := do
  let length ← tlv.length.get
  pure {
    list := a.list ++ [tlv]
    countNotNull := a.countNotNull + 1
    size := a.size + length
    count := .is count }

/-- A field that is absent. -/
def Args.skip (a : Args) : Args := { a with list := a.list ++ [wrapNull] }

/-- The `count`-th field: its node when it is present, a null otherwise. -/
def field {α : Type} (count : Int) (p : Ptr α) (wrap : α → Run TlvAmqp) (a : Args) : Run Args := do
  if ← p.nonNull then
    let x ← p.deref
    let tlv ← wrap x
    a.add count tlv
  else pure a.skip

/-- A field whose wrapper may return `NULL`. -/
def fieldPtr {α : Type} (count : Int) (p : Ptr α) (wrap : α → Run (Ptr TlvAmqp)) (a : Args) :
    Run Args :=
  field count p (fun x => do (← wrap x).deref) a

/-- `size += count - count_not_null` and `calculate_bytes`. -/
def Args.finish (a : Args) (code : UInt8) : Run TlvList := do
  let count ← a.count.get
  calculateBytes { TlvList.fresh with
    list := a.list
    width := .is 1
    size := .is (a.size + (count - a.countNotNull))
    count := .is count } code

/-- The node of a list, of which only the bytes are kept. -/
def TlvList.node (list : TlvList) : TlvAmqp :=
  { TlvAmqp.fresh with bytes := list.bytes, length := list.length }

/-- The `dynamic_node_properties` of a source or target, which need a `dynamic` flag that is
true; without it the whole terminus is `NULL`. -/
def nodeProperties (properties : Ptr AmqpSymbolVoidEntry) (dynamic : Ptr Int) (a : Args) :
    Run (Option Args) := do
  if ← properties.nonNull then
    if ← dynamic.nonNull then
      if (← dynamic.deref) ≠ 0 then some <$> fieldPtr 6 properties wrapNothing a
      else pure none
    else pure none
  else pure (some a.skip)

def wrapExpiryPeriod (p : EnumOrChars TerminusExpiryPolicy) : Run TlvAmqp := do
  wrapSymbol ⟨.ref (stringTerminusExpiryPolicy (← p.get))⟩

/-- The node is stored in `expiry_period`, so `distribution_mode` is still `NULL`. -/
def wrapDistributionMode (p : EnumOrChars DistributionMode) : Run (Ptr TlvAmqp) := do
  let _ ← wrapSymbol ⟨.ref (stringDistributionMode (← p.get))⟩
  pure .null

def wrapAmqpSource (source : AmqpSource) : Run (Ptr TlvAmqp) := do
  let a ← field 1 source.address wrapString .empty
  let a ← field 2 source.durable wrapLong a
  let a ← field 3 source.expiryPeriod wrapExpiryPeriod a
  let a ← field 4 source.timeout wrapLong a
  let a ← field 5 source.dynamic wrapBool a
  match ← nodeProperties source.dynamicNodeProperties source.dynamic a with
  | none => pure .null
  | some a => do
    let a ← fieldPtr 7 source.distributionMode wrapDistributionMode a
    let a ← fieldPtr 8 source.filter wrapNothing a
    let a ← fieldPtr 9 source.defaultOutcome wrapNothing a
    let a ← fieldPtr 10 source.outcomes wrapNothing a
    let a ← fieldPtr 11 source.capabilities wrapNothing a
    let list ← a.finish AmqpType.source.toByte
    pure (.ref list.node)

def wrapAmqpTarget (target : AmqpTarget) : Run (Ptr TlvAmqp) := do
  let a ← field 1 target.address wrapString .empty
  let a ← field 2 target.durable wrapLong a
  let a ← field 3 target.expiryPeriod wrapExpiryPeriod a
  let a ← field 4 target.timeout wrapLong a
  let a ← field 5 target.dynamic wrapBool a
  match ← nodeProperties target.dynamicNodeProperties target.dynamic a with
  | none => pure .null
  | some a => do
    let a ← fieldPtr 7 target.capabilities wrapNothing a
    let list ← a.finish AmqpType.target.toByte
    pure (.ref list.node)

def wrapAmqpError (error : AmqpError) : Run TlvAmqp := do
  let a ← field 1 error.condition
    (fun p => do wrapSymbol ⟨.ref (← stringErrorCode p)⟩) .empty
  let a ← field 2 error.description wrapString a
  -- the third field counts as the second
  let a ← fieldPtr 2 error.info wrapNothing a
  let list ← a.finish AmqpType.error.toByte
  pure list.node

end IotClient.Amqp
