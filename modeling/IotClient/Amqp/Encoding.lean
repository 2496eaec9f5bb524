import IotClient.Amqp.Value
import IotClient.Amqp.Wrapper

/-!
# What the wrappers write

`Fills tlv cells`: the node is encoded as these cells; `Holds tlv out`: it is encoded as these
bytes. The wrappers of the client's own values give nodes that hold bytes, but for the negative
numbers of `wrap_long`; lists of fields follow in `Arguments`.
-/

namespace IotClient.Amqp

open Mem

/-- The node is encoded as `cells`, which need not all be written; the block may be larger. -/
structure Fills (tlv : TlvAmqp) (cells : Block) : Prop where
  length : tlv.length = .is cells.length
  bytes : ∃ tail, tlv.bytes = .ref (cells ++ tail)
  pos : 0 < cells.length

/-- The node is encoded as `out`; the block may be larger. -/
structure Holds (tlv : TlvAmqp) (out : List UInt8) : Prop where
  length : tlv.length = .is out.length
  bytes : ∃ tail, tlv.bytes = .ref (out.map some ++ tail)
  pos : 0 < out.length

section Fills

variable {tlv : TlvAmqp} {cells cells' : Block} {out : List UInt8}

theorem Holds.fills (h : Holds tlv out) : Fills tlv (out.map some) :=
  ⟨by rw [List.length_map]; exact h.length, h.bytes, by rw [List.length_map]; exact h.pos⟩

theorem Fills.holds (h : Fills tlv (out.map some)) : Holds tlv out := by
  obtain ⟨hlength, hbytes, hpos⟩ := h
  rw [List.length_map] at hlength hpos
  exact ⟨hlength, hbytes, hpos⟩

/-- A node has one encoding. -/
theorem Fills.unique (h : Fills tlv cells) (h' : Fills tlv cells') : cells = cells' := by
  obtain ⟨tail, htail⟩ := h.bytes
  obtain ⟨tail', htail'⟩ := h'.bytes
  have hlen : cells.length = cells'.length :=
    Int.natCast_inj.1 (Cell.is.inj (h.length.symm.trans h'.length))
  exact List.append_inj_left (Ptr.ref.inj (htail.symm.trans htail')) hlen

end Fills

theorem wrapNull_holds : Holds wrapNull [AmqpType.amqpNull.toByte] :=
  ⟨rfl, ⟨[], rfl⟩, by decide⟩

theorem allocBytes_eq {cells : Block} {n : Int} (hn : n = cells.length) :
    allocBytes n cells = .ok (cells ++ .malloc (7 * cells.length)) := by
  have hroom : cells.length * pointerSize = cells.length + 7 * cells.length := by
    rw [pointerSize]; omega
  have hcopy := Block.copyIn_append [] cells [] (7 * cells.length) (i := 0) rfl rfl
  rw [List.append_nil] at hcopy
  unfold allocBytes
  rw [hn, Block.mallocPtrs_natCast, ok_bind, hroom]
  exact hcopy

theorem wrapped_fills (code : AmqpType) (valueArray : List UInt8) (value : Block) {n : Nat}
    (hn : n = value.length + 1) :
    ∃ tlv, wrapped code valueArray n value = .ok tlv ∧ Fills tlv (some code.toByte :: value) := by
  have hbytes : allocBytes n (some code.toByte :: value) = _ := allocBytes_eq (by simp [hn])
  unfold wrapped
  rw [hbytes, ok_bind]
  exact ⟨_, rfl, by rw [hn]; rfl, ⟨_, rfl⟩, by simp⟩

theorem wrapped_holds (code : AmqpType) (valueArray value : List UInt8) {n : Nat}
    (hn : n = value.length + 1) :
    ∃ tlv, wrapped code valueArray n (value.map some) = .ok tlv ∧
      Holds tlv (code.toByte :: value) := by
  obtain ⟨tlv, htlv, hfills⟩ := wrapped_fills code valueArray (value.map some) (n := n)
    (by rw [List.length_map]; exact hn)
  exact ⟨tlv, htlv, hfills.holds⟩

/-! ### Encodings -/

/-- What is written for a string, symbol or binary; a long one gets its length in the byte order
of the target. -/
def sizedBytes (kind : VariableKind) (data : List UInt8) : List UInt8 :=
  if data.length ≤ 255 then (Width.narrow.variableType kind).toByte :: UInt8.ofNat data.length :: data
  else (Width.wide.variableType kind).toByte :: (littleInt data.length ++ data)

def stringBytes (s : CString) : List UInt8 := sizedBytes .string s.bytes

def uintBytes (value : Int) : List UInt8 :=
  if value = 0 then [AmqpType.uint0.toByte]
  else if value ≤ 255 then [AmqpType.smallUint.toByte, UInt8.ofInt value]
  else AmqpType.uint.toByte :: intBytes (UInt32.ofInt value)

def boolBytes (value : Int) : List UInt8 :=
  [(if value ≠ 0 then AmqpType.booleanTrue else .booleanFalse).toByte]

def ubyteBytes (value : Int) : List UInt8 := [AmqpType.ubyte.toByte, UInt8.ofInt value]

def ushortBytes (value : Int) : List UInt8 :=
  AmqpType.ushort.toByte :: (shortBytes (UInt16.ofInt value)).reverse

def shortSignedBytes (value : Int) : List UInt8 :=
  AmqpType.amqpShort.toByte :: shortBytes (UInt16.ofInt value)

/-- Of four bytes only the first two are reversed. -/
def intSignedBytes (value : Int) : List UInt8 :=
  if -128 ≤ value ∧ value ≤ 127 then [AmqpType.smallInt.toByte, UInt8.ofInt value]
  else AmqpType.int.toByte :: (((littleInt value).take 2).reverse ++ (littleInt value).drop 2)

/-- Nothing says what the bytes behind the code are. -/
def longSignedCells (value : Int) : Block :=
  if -128 ≤ value ∧ value ≤ 127 then some AmqpType.smallLong.toByte :: Block.malloc 1
  else some AmqpType.long.toByte :: Block.malloc 8

/-- A state is a described empty list. -/
def stateBytes (code : UInt8) : List UInt8 :=
  [0, AmqpType.smallUlong.toByte, code, AmqpType.list0.toByte]

/-! ### Wrappers -/

theorem valueBytes_eq (data rest : List UInt8) :
    valueBytes (data ++ rest) data.length = .ok data := by
  unfold valueBytes
  split
  · exact copyOut_drop (s := rest) rfl
  · rw [List.eq_nil_of_length_eq_zero (by omega : data.length = 0)]; rfl

theorem initTlvVariable_holds (kind : VariableKind) (data rest : List UInt8) {type : AmqpType}
    (ht : type = if data.length ≤ 255 then Width.narrow.variableType kind
      else Width.wide.variableType kind) :
    ∃ tlv, initTlvVariable type (data ++ rest) data.length = .ok tlv ∧
      Holds tlv (sizedBytes kind data) := by
  unfold initTlvVariable
  rw [valueBytes_eq, ok_bind]
  by_cases hlen : data.length ≤ 255
  · have hwidth : variableWidth data.length = 1 := by rw [variableWidth, if_neg (by omega)]
    rw [if_pos hlen] at ht
    have hout : sizedBytes kind data = type.toByte :: UInt8.ofNat data.length :: data := by
      unfold sizedBytes
      rw [if_pos hlen, ht]
    rw [hwidth, if_pos rfl, allocBytes_eq (by simp; omega), ok_bind, byte_ofInt_natCast, hout]
    exact ⟨_, rfl, by simp, ⟨_, rfl⟩, by simp⟩
  · have hwidth : variableWidth data.length = 4 := by rw [variableWidth, if_pos (by omega)]
    have hlittle : (littleInt data.length).length = 4 := rfl
    rw [if_neg hlen] at ht
    have hout : sizedBytes kind data = type.toByte :: (littleInt data.length ++ data) := by
      unfold sizedBytes
      rw [if_neg hlen, ht]
    rw [hwidth, if_neg (by decide), allocBytes_eq (by simp [hlittle]; omega), ok_bind, hout]
    exact ⟨_, rfl, by simp [hlittle]; omega, ⟨_, rfl⟩, by simp⟩

/-- The wrappers ask whether a value is longer than a byte counts. -/
theorem variableType_long (kind : VariableKind) (data : List UInt8) :
    (if data.length > 255 then Width.wide.variableType kind else Width.narrow.variableType kind) =
      if data.length ≤ 255 then Width.narrow.variableType kind else Width.wide.variableType kind := by
  by_cases h : data.length ≤ 255
  · rw [if_neg (by omega), if_pos h]
  · rw [if_pos (by omega), if_neg h]

theorem wrapString_holds (s : CString) :
    ∃ tlv, wrapString s = .ok tlv ∧ Holds tlv (stringBytes s) :=
  initTlvVariable_holds .string s.bytes [0] (variableType_long .string s.bytes)

theorem wrapSymbol_holds (s : CString) :
    ∃ tlv, wrapSymbol ⟨.ref s⟩ = .ok tlv ∧ Holds tlv (sizedBytes .symbol s.bytes) :=
  initTlvVariable_holds .symbol s.bytes [0] (variableType_long .symbol s.bytes)

theorem wrapBinary_holds (data : List UInt8) :
    ∃ tlv, wrapBinary data data.length = .ok tlv ∧ Holds tlv (sizedBytes .binary data) := by
  have hwrap := initTlvVariable_holds .binary data [] (variableType_long .binary data)
  rw [List.append_nil] at hwrap
  have htype : (if (data.length : Int) > 255 then AmqpType.binary32 else .binary8) =
      if data.length > 255 then AmqpType.binary32 else .binary8 := by
    simp only [gt_iff_lt, Nat.ofNat_lt_cast]
  unfold wrapBinary
  rw [htype]
  exact hwrap

theorem wrapBool_holds (value : Int) :
    ∃ tlv, wrapBool value = .ok tlv ∧ Holds tlv (boolBytes value) :=
  wrapped_holds _ [] _ rfl

theorem wrapLong_holds {value : Int} (h : 0 ≤ value) :
    ∃ tlv, wrapLong value = .ok tlv ∧ Holds tlv (uintBytes value) := by
  unfold wrapLong
  rw [if_pos h, wrapUint, uintBytes]
  by_cases h0 : value = 0
  · rw [if_pos h0, if_pos h0]
    exact wrapped_holds .uint0 [0] [] rfl
  · rw [if_neg h0, if_neg h0]
    by_cases hsmall : value ≤ 255
    · rw [if_pos ⟨by omega, hsmall⟩, if_pos hsmall]
      exact wrapped_holds .smallUint [UInt8.ofInt value] [UInt8.ofInt value] rfl
    · rw [if_neg (by omega), if_neg hsmall]
      exact wrapped_holds .uint _ _ rfl

theorem wrapShort_holds {value : Int} (h : 0 ≤ value) :
    ∃ tlv, wrapShort value = .ok tlv ∧ Holds tlv (ubyteBytes value) := by
  unfold wrapShort
  rw [if_pos h]
  exact wrapped_holds .ubyte [UInt8.ofInt value] _ rfl

theorem wrapInt_holds {value : Int} (h : 0 ≤ value) :
    ∃ tlv, wrapInt value = .ok tlv ∧ Holds tlv (ushortBytes value) := by
  unfold wrapInt
  rw [if_pos h]
  exact wrapped_holds .ushort _ _ rfl

theorem wrapShort_signed {value : Int} (h : value < 0) :
    ∃ tlv, wrapShort value = .ok tlv ∧ Holds tlv (shortSignedBytes value) := by
  unfold wrapShort
  rw [if_neg (by omega)]
  exact wrapped_holds .amqpShort _ (shortBytes (UInt16.ofInt value)) rfl

theorem wrapInt_signed {value : Int} (h : value < 0) :
    ∃ tlv, wrapInt value = .ok tlv ∧ Holds tlv (intSignedBytes value) := by
  unfold wrapInt wrapIntSigned intSignedBytes
  rw [if_neg (by omega)]
  by_cases hsmall : -128 ≤ value ∧ value ≤ 127
  · rw [if_pos hsmall, if_pos hsmall]
    exact wrapped_holds .smallInt [UInt8.ofInt value] [UInt8.ofInt value] rfl
  · rw [if_neg hsmall, if_neg hsmall]
    exact wrapped_holds .int _ _ rfl

theorem wrapLong_signed {value : Int} (h : value < 0) :
    ∃ tlv, wrapLong value = .ok tlv ∧ Fills tlv (longSignedCells value) := by
  unfold wrapLong wrapLongSigned longSignedCells
  rw [if_neg (by omega)]
  by_cases hsmall : -128 ≤ value ∧ value ≤ 127
  · rw [if_pos hsmall, if_pos hsmall]
    exact wrapped_fills .smallLong [UInt8.ofInt value] (.malloc 1) rfl
  · rw [if_neg hsmall, if_neg hsmall]
    exact wrapped_fills .long _ (.malloc 8) rfl

theorem wrapState_holds (code : UInt8) :
    ∃ tlv, wrapState ⟨.is code⟩ = .ok tlv ∧ Holds tlv (stateBytes code) :=
  ⟨_, rfl, rfl, ⟨[], rfl⟩, by simp [stateBytes]⟩

end IotClient.Amqp
