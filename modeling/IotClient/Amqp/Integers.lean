import IotClient.Amqp.Encoding
import IotClient.Amqp.TlvSync
import IotClient.Amqp.Unwrapper
import IotClient.Mem.Endian

/-!
# Integers on the wire

`AmqpType.integer` is the integer AMQP 1.0 assigns to a format code and its payload.
`unwrapInteger_iff` says for which of them the unwrap function of the code gives it: `get_element`
stores length 1 for four bytes, of which then only the first is read, and no length for eight.
`wrapInteger_iff` says for which numbers a wrapper writes an encoding.
-/

namespace IotClient.Amqp

open Mem

theorem bigEndian_shortBytes (s : UInt16) : bigEndian (shortBytes s) = s.toNat := by
  have hs := s.toNat_lt
  simp only [shortBytes, bigEndian, List.length_cons, List.length_nil, UInt16.toNat_toUInt8,
    UInt16.toNat_shiftRight, UInt16.reduceToNat, Nat.reduceMod, Nat.shiftRight_eq_div_pow]
  omega

theorem bigEndian_intBytes (n : UInt32) : bigEndian (intBytes n) = n.toNat := by
  have hn := n.toNat_lt
  simp only [intBytes, bigEndian, List.length_cons, List.length_nil, UInt32.toNat_toUInt8,
    UInt32.toNat_shiftRight, UInt32.reduceToNat, Nat.reduceMod, Nat.shiftRight_eq_div_pow]
  omega

theorem bigEndianInt_shortBytes (s : UInt16) : bigEndianInt (shortBytes s) = s.toInt16.toInt := by
  have hbits : s.toInt16.toInt = s.toBitVec.toInt := rfl
  have hnat : s.toBitVec.toNat = s.toNat := rfl
  unfold bigEndianInt
  rw [bigEndian_shortBytes, hbits, BitVec.toInt_eq_toNat_cond, hnat, length_shortBytes]
  rfl

/-- Two bytes are those of a `short`. -/
theorem exists_shortBytes {bs : List UInt8} (h : bs.length = 2) : ∃ s, bs = shortBytes s := by
  have hlt := bigEndian_lt bs
  rw [h] at hlt
  refine ⟨UInt16.ofNat (bigEndian bs), bigEndian_inj h ?_⟩
  rw [bigEndian_shortBytes, short_toNat_of_lt hlt]

/-! ### Format codes -/

namespace AmqpType

/-- The integer of a format code and its payload. -/
def integer : AmqpType → List UInt8 → Option Int
  | ubyte, data | ushort, data | uint, data | smallUint, data | ulong, data | smallUlong, data =>
    some (bigEndian data)
  | uint0, _ | ulong0, _ => some 0
  | byte, data | amqpShort, data | int, data | smallInt, data | long, data | smallLong, data =>
    some (bigEndianInt data)
  | _, _ => none

/-- The unwrap function for the integers of a format code. -/
def unwrapInteger : AmqpType → Option (TlvAmqp → Run (Ptr Int))
  | ubyte => some unwrapUbyte
  | ushort => some unwrapUshort
  | uint | smallUint | uint0 => some unwrapUint
  | ulong | smallUlong | ulong0 => some unwrapUlong
  | amqpShort => some unwrapShort
  | int | smallInt => some unwrapInt
  | long | smallLong => some unwrapLong
  | _ => none

/-- The first of four bytes is the whole number, a byte is not negative, and no number has
eight bytes. -/
def ReadsBack : AmqpType → List UInt8 → Prop
  | uint, data | int, data => ∀ b ∈ data, b = 0
  | smallInt, data | smallLong, data => ∀ b ∈ data, b < 128
  | ulong, _ | long, _ => False
  | _, _ => True

end AmqpType

/-! ### Received -/

section Received

variable {t : AmqpType} {data : List UInt8} {b : UInt8}

theorem bigEndian_singleton (b : UInt8) : bigEndian [b] = b.toNat := by
  simp [bigEndian]

theorem bigEndianInt_singleton (b : UInt8) : bigEndianInt [b] = b.toNat ↔ b < 128 := by
  have hlt : b < 128 ↔ b.toNat < 128 := UInt8.lt_iff_toNat_lt
  have hpow : 256 ^ [b].length = 256 := rfl
  unfold bigEndianInt
  rw [bigEndian_singleton, hlt, hpow]
  split <;> omega

/-- The first of four bytes is the number only if all of them are 0. -/
theorem bigEndian_eq_first (a b c d : UInt8) :
    bigEndian [a, b, c, d] = a.toNat ↔ ∀ x ∈ [a, b, c, d], x = 0 := by
  simp only [List.forall_mem_cons, List.not_mem_nil, false_implies, implies_true, and_true,
    ← UInt8.toNat_inj, UInt8.toNat_zero, bigEndian, List.length_cons, List.length_nil]
  omega

theorem bigEndianInt_eq_first (a b c d : UInt8) :
    bigEndianInt [a, b, c, d] = a.toNat ↔ ∀ x ∈ [a, b, c, d], x = 0 := by
  have ha := a.toNat_lt
  have hlt := bigEndian_lt [a, b, c, d]
  have hpow : 256 ^ [a, b, c, d].length = 4294967296 := by simp
  have hnat := bigEndian_eq_first a b c d
  rw [hpow] at hlt
  unfold bigEndianInt
  rw [← hnat, hpow]
  split
  · exact Int.natCast_inj
  · -- a byte is neither a negative number nor the unsigned one with the same bytes
    omega

theorem read_iff {unwrap : TlvAmqp → Run (Ptr Int)} {tlv : TlvAmqp} {m n : Int}
    (h : unwrap tlv = .ok (.ref m)) : unwrap tlv = .ok (.ref n) ↔ n = m := by
  rw [h, Except.ok.injEq, Ptr.ref.injEq, eq_comm]

/-- The unwrap function reads one byte, where `get_element` stored length 1. -/
theorem unwrapInteger_first {unwrap : TlvAmqp → Run (Ptr Int)} {rest : List UInt8}
    (hu : t.unwrapInteger = some unwrap) (hl : t.fixedLength = .is 1) :
    unwrap (Val.fixed t (b :: rest)).node = .ok (.ref b.toNat) := by
  cases t <;> simp only [AmqpType.fixedLength, reduceCtorEq] at hl <;>
    simp only [AmqpType.unwrapInteger, Option.some.injEq, reduceCtorEq] at hu <;> subst hu <;> rfl

/-- The length of eight bytes is not stored. -/
theorem unwrapLong_indet (h : t = .long ∨ t = .ulong) {unwrap : TlvAmqp → Run (Ptr Int)}
    (hu : t.unwrapInteger = some unwrap) : unwrap (Val.fixed t data).node = .error .indet := by
  rcases h with rfl | rfl <;> simp only [AmqpType.unwrapInteger, Option.some.injEq] at hu <;>
    subst hu <;> rfl

theorem getShort_shortBytes (s : UInt16) : getShort (shortBytes s) 0 = .ok s :=
  getShort_drop (r := []) rfl

theorem unwrapUshort_node (s : UInt16) :
    unwrapUshort (Val.fixed .ushort (shortBytes s)).node = .ok (.ref (bigEndian (shortBytes s))) := by
  show Ptr.ref <$> (do pure ((← getShort (shortBytes s) 0).toNat : Int)) = _
  rw [getShort_shortBytes, bigEndian_shortBytes]
  rfl

theorem unwrapShort_node (s : UInt16) :
    unwrapShort (Val.fixed .amqpShort (shortBytes s)).node =
      .ok (.ref (bigEndianInt (shortBytes s))) := by
  show Ptr.ref <$> (do pure (← getShort (shortBytes s) 0).toInt16.toInt) = _
  rw [getShort_shortBytes, bigEndianInt_shortBytes]
  rfl

/-- What the unwrap function makes of the node that `get_tlv` makes. -/
theorem unwrapInteger_node {unwrap : TlvAmqp → Run (Ptr Int)} {n : Int}
    (hw : t.fixedWidth = some data.length) (hu : t.unwrapInteger = some unwrap)
    (hn : t.integer data = some n) :
    unwrap (Val.fixed t data).node = .ok (.ref n) ↔ t.ReadsBack data := by
  cases t <;> simp only [AmqpType.fixedWidth, AmqpType.integer, Option.some.injEq,
    reduceCtorEq] at hw hn
  case byte => cases hu
  -- the payload is empty
  case uint0 | ulong0 =>
    obtain rfl := Option.some.inj hu
    subst hn
    exact iff_of_true rfl trivial
  -- one byte
  case ubyte | smallUint | smallUlong =>
    obtain ⟨b, rfl⟩ := List.length_eq_one_iff.1 hw.symm
    rw [read_iff (unwrapInteger_first hu rfl), ← hn, bigEndian_singleton]
    exact iff_of_true rfl trivial
  case smallInt | smallLong =>
    obtain ⟨b, rfl⟩ := List.length_eq_one_iff.1 hw.symm
    rw [read_iff (unwrapInteger_first hu rfl), ← hn, bigEndianInt_singleton]
    exact (List.forall_mem_singleton (p := fun b => b < (128 : UInt8))).symm
  -- two bytes
  case ushort =>
    obtain ⟨s, rfl⟩ := exists_shortBytes hw.symm
    obtain rfl := Option.some.inj hu
    subst hn
    exact iff_of_true (unwrapUshort_node s) trivial
  case amqpShort =>
    obtain ⟨s, rfl⟩ := exists_shortBytes hw.symm
    obtain rfl := Option.some.inj hu
    subst hn
    exact iff_of_true (unwrapShort_node s) trivial
  -- four bytes, of which the first is read
  case uint =>
    obtain ⟨a, b, c, d, rfl⟩ := List.length_eq_four.1 hw.symm
    rw [read_iff (unwrapInteger_first hu rfl), ← hn, Int.natCast_inj]
    exact bigEndian_eq_first a b c d
  case int =>
    obtain ⟨a, b, c, d, rfl⟩ := List.length_eq_four.1 hw.symm
    rw [read_iff (unwrapInteger_first hu rfl), ← hn]
    exact bigEndianInt_eq_first a b c d
  -- eight bytes, whose length is not stored
  case long =>
    rw [unwrapLong_indet (.inl rfl) hu]
    refine iff_of_false ?_ id
    intro h
    cases h
  case ulong =>
    rw [unwrapLong_indet (.inr rfl) hu]
    refine iff_of_false ?_ id
    intro h
    cases h

/-- `get_tlv` and the unwrap function of a code give the integer that AMQP 1.0 assigns to it. -/
theorem unwrapInteger_iff {unwrap : TlvAmqp → Run (Ptr Int)} (hw : t.fixedWidth = some data.length)
    (hu : t.unwrapInteger = some unwrap) (p s : List UInt8) :
    (∃ tlv i n, getTlv (p ++ t.toByte :: data ++ s) p.length = .ok (tlv, i) ∧
      t.integer data = some n ∧ unwrap tlv = .ok (.ref n)) ↔ t.ReadsBack data := by
  have hget : getTlv (p ++ t.toByte :: data ++ s) p.length =
      .ok ((Val.fixed t data).node, p.length + (Val.fixed t data).enc.length) :=
    getTlv_node (.fixed hw) p s
  obtain ⟨n, hn⟩ : ∃ n, t.integer data = some n := by
    cases t <;> simp only [AmqpType.unwrapInteger, reduceCtorEq] at hu <;> exact ⟨_, rfl⟩
  rw [← unwrapInteger_node hw hu hn, hget, hn]
  constructor
  · rintro ⟨tlv, i, m, htlv, hm, hread⟩
    cases htlv
    cases hm
    exact hread
  · exact fun hread => ⟨_, _, n, rfl, rfl, hread⟩

end Received

/-- A window of 200 as an `unsigned int` of one byte. -/
theorem unwrapInteger_iff_window :
    (∃ tlv i n, getTlv ([0x52] ++ AmqpType.smallUint.toByte :: [200] ++ []) 1 = .ok (tlv, i) ∧
      AmqpType.smallUint.integer [200] = some n ∧ unwrapUint tlv = .ok (.ref n)) ↔
      AmqpType.smallUint.ReadsBack [200] :=
  unwrapInteger_iff rfl rfl [0x52] []

/-- The `unsigned int` 256 is read as 0, its first byte. -/
theorem uint256_not_read :
    ¬ ∃ tlv i n, getTlv (AmqpType.uint.toByte :: [0, 0, 1, 0]) 0 = .ok (tlv, i) ∧
      AmqpType.uint.integer [0, 0, 1, 0] = some n ∧ unwrapUint tlv = .ok (.ref n) := by
  rintro ⟨tlv, i, n, htlv, hn, hread⟩
  have hget : getTlv (AmqpType.uint.toByte :: [0, 0, 1, 0]) 0 =
      .ok ((Val.fixed .uint [0, 0, 1, 0]).node, 5) := rfl
  have hzero : unwrapUint (Val.fixed .uint [0, 0, 1, 0]).node = .ok (.ref 0) := rfl
  have hvalue : AmqpType.uint.integer [0, 0, 1, 0] = some 256 := rfl
  rw [hget] at htlv
  cases htlv
  rw [hzero] at hread
  rw [hvalue] at hn
  cases hread
  cases hn

/-! ### Sent -/

/-- The C type of an integer that is wrapped. -/
inductive IntegerKind where
  | long | int | short

namespace IntegerKind

def wrap : IntegerKind → Int → Run TlvAmqp
  | long => wrapLong
  | int => wrapInt
  | short => wrapShort

def InRange : IntegerKind → Int → Prop
  | long, v => -2147483648 ≤ v ∧ v ≤ 2147483647
  | int, v => -2147483648 ≤ v ∧ v ≤ 65535
  | short, v => -32768 ≤ v ∧ v ≤ 255

/-- A `long` is not negative, and the bytes of an `int` that takes several of them are equal:
two when 257 divides it, four when 16843009 divides the number behind it. -/
def WritesRight : IntegerKind → Int → Prop
  | long, v => 0 ≤ v
  | int, v => 0 ≤ v ∧ 257 ∣ v ∨ -128 ≤ v ∧ v < 0 ∨ v < -128 ∧ 16843009 ∣ v + 1
  | short, _ => True

end IntegerKind

/-- The wrapper writes a format code and the payload of `v`. -/
def WritesInteger (wrap : Run TlvAmqp) (v : Int) : Prop :=
  ∃ tlv t data, wrap = .ok tlv ∧ AmqpType.fixedWidth t = some data.length ∧
    t.integer data = some v ∧ Holds tlv (t.toByte :: data)

section Sent

variable {wrap : Run TlvAmqp} {t : AmqpType} {data : List UInt8} {v : Int}

/-- What is written is one number only. -/
theorem writesInteger_iff (h : ∃ tlv, wrap = .ok tlv ∧ Holds tlv (t.toByte :: data))
    (hw : t.fixedWidth = some data.length) : WritesInteger wrap v ↔ t.integer data = some v := by
  obtain ⟨tlv, htlv, hholds⟩ := h
  constructor
  · rintro ⟨tlv', t', data', htlv', -, hv, hholds'⟩
    obtain rfl : tlv = tlv' := Except.ok.inj (htlv.symm.trans htlv')
    have hcells := hholds.fills.unique hholds'.fills
    obtain ⟨ht, rfl⟩ := List.cons.inj
      (List.map_injective_iff.2 (Option.some_injective UInt8) hcells)
    have htype := congrArg AmqpType.ofByte ht
    rw [AmqpType.ofByte_toByte, AmqpType.ofByte_toByte, Option.some.injEq] at htype
    rw [htype]
    exact hv
  · exact fun hv => ⟨tlv, t, data, htlv, hw, hv, hholds⟩

/-- Cells that were not written are no integer. -/
theorem not_writesInteger {cells : Block} (h : ∃ tlv, wrap = .ok tlv ∧ Fills tlv cells)
    (hcells : none ∈ cells) : ¬ WritesInteger wrap v := by
  obtain ⟨tlv, htlv, hfills⟩ := h
  rintro ⟨tlv', t, data, htlv', -, -, hholds⟩
  obtain rfl : tlv = tlv' := Except.ok.inj (htlv.symm.trans htlv')
  rw [hfills.unique hholds.fills] at hcells
  simp at hcells

theorem bigEndian_byte (h0 : 0 ≤ v) (h : v ≤ 255) : (bigEndian [UInt8.ofInt v] : Int) = v := by
  obtain ⟨n, rfl⟩ := Int.eq_ofNat_of_zero_le h0
  rw [bigEndian_singleton, byte_ofInt_natCast, toNat_ofNat_of_lt (by omega)]

theorem toNat_int_ofInt (v : Int) : ((UInt32.ofInt v).toNat : Int) = v % 4294967296 := by
  rw [UInt32.ofInt, UInt32.toNat_ofNat']
  omega

theorem toNat_short_ofInt (v : Int) : ((UInt16.ofInt v).toNat : Int) = v % 65536 := by
  rw [UInt16.ofInt, UInt16.toNat_ofNat']
  omega

theorem wrapLong_writesInteger_iff (hlow : -2147483648 ≤ v) (hhigh : v ≤ 2147483647) :
    WritesInteger (wrapLong v) v ↔ 0 ≤ v := by
  by_cases h : 0 ≤ v
  · have hholds := wrapLong_holds h
    refine iff_of_true ?_ h
    unfold uintBytes at hholds
    by_cases h0 : v = 0
    · subst h0
      exact (writesInteger_iff hholds rfl).2 rfl
    · rw [if_neg h0] at hholds
      by_cases hsmall : v ≤ 255
      · rw [if_pos hsmall] at hholds
        exact (writesInteger_iff hholds rfl).2 (congrArg some (bigEndian_byte h hsmall))
      · rw [if_neg hsmall] at hholds
        refine (writesInteger_iff hholds rfl).2 (congrArg some ?_)
        rw [bigEndian_intBytes, toNat_int_ofInt]
        omega
  · refine iff_of_false (not_writesInteger (wrapLong_signed (by omega)) ?_) h
    unfold longSignedCells
    split <;> simp [Block.malloc]

theorem wrapShort_writesInteger (hlow : -32768 ≤ v) (hhigh : v ≤ 255) :
    WritesInteger (wrapShort v) v := by
  by_cases h : 0 ≤ v
  · exact (writesInteger_iff (wrapShort_holds h) rfl).2 (congrArg some (bigEndian_byte h hhigh))
  · refine (writesInteger_iff (wrapShort_signed (by omega)) rfl).2 (congrArg some ?_)
    refine bigEndianInt_of_emod (k := 32768) (by simp) ?_ hlow (by omega)
    rw [bigEndian_shortBytes, toNat_short_ofInt]
    rfl

theorem dvd_pair {a b : Nat} (ha : a < 256) (hb : b < 256) : 257 ∣ a * 256 + b ↔ b = a := by
  constructor
  · rintro ⟨k, hk⟩
    omega
  · rintro rfl
    exact ⟨b, by omega⟩

theorem dvd_quad {a b c d : Nat} (ha : a < 256) (hb : b < 256) (hc : c < 256) (hd : d < 256) :
    16843009 ∣ a * 16777216 + b * 65536 + c * 256 + d ↔ b = a ∧ c = a ∧ d = a := by
  constructor
  · rintro ⟨k, hk⟩
    -- the quotient is a byte, and the number consists of it
    have hhigh : a = k ∧ b * 65536 + c * 256 + d = k * 65793 := by omega
    have hmid : b = k ∧ c * 256 + d = k * 257 := by omega
    omega
  · rintro ⟨rfl, rfl, rfl⟩
    exact ⟨d, by omega⟩

/-- Two bytes in the order of the target are the number when they are equal. -/
theorem bigEndian_reverse_shortBytes (h0 : 0 ≤ v) (h : v ≤ 65535) :
    (bigEndian (shortBytes (UInt16.ofInt v)).reverse : Int) = v ↔ 257 ∣ v := by
  have hv := bigEndian_shortBytes (UInt16.ofInt v)
  have hn := toNat_short_ofInt v
  obtain ⟨a, b, hab⟩ : ∃ a b, shortBytes (UInt16.ofInt v) = [a, b] := ⟨_, _, rfl⟩
  have hdvd := dvd_pair a.toNat_lt b.toNat_lt
  rw [hab] at hv ⊢
  simp only [List.reverse_cons, List.reverse_nil, List.nil_append, List.cons_append, bigEndian,
    List.length_cons, List.length_nil] at hv ⊢
  have hvalue : v = ((a.toNat * 256 + b.toNat : Nat) : Int) := by omega
  rw [hvalue, Int.natCast_inj, ← Int.natCast_dvd_natCast (m := 257)] at *
  omega

/-- Four bytes, of which the first two are reversed, are the number when all are equal. -/
theorem bigEndianInt_intSigned (hlow : -2147483648 ≤ v) (hhigh : v < -128) :
    bigEndianInt (((littleInt v).take 2).reverse ++ (littleInt v).drop 2) = v ↔
      16843009 ∣ v + 1 := by
  have hv := bigEndian_intBytes (UInt32.ofInt v)
  have hn := toNat_int_ofInt v
  obtain ⟨a, b, c, d, habcd⟩ : ∃ a b c d, intBytes (UInt32.ofInt v) = [a, b, c, d] :=
    ⟨_, _, _, _, rfl⟩
  have hdata : ((littleInt v).take 2).reverse ++ (littleInt v).drop 2 = [c, d, b, a] := by
    unfold littleInt
    rw [habcd]
    rfl
  rw [habcd] at hv
  have hsame : bigEndian [c, d, b, a] = bigEndian [a, b, c, d] ↔ b = a ∧ c = a ∧ d = a := by
    constructor
    · intro h
      have hbytes : [c, d, b, a] = [a, b, c, d] := bigEndian_inj rfl h
      simp only [List.cons.injEq, and_true] at hbytes
      obtain ⟨rfl, rfl, rfl, -⟩ := hbytes
      exact ⟨rfl, rfl, rfl⟩
    · rintro ⟨rfl, rfl, rfl⟩
      rfl
  have hdvd := dvd_quad a.toNat_lt b.toNat_lt c.toNat_lt d.toNat_lt
  have hvalue : bigEndian [a, b, c, d] =
      a.toNat * 16777216 + b.toNat * 65536 + c.toNat * 256 + d.toNat := by
    simp only [bigEndian, List.length_cons, List.length_nil]
    omega
  have hsigned : bigEndianInt [c, d, b, a] = v ↔ bigEndian [c, d, b, a] = bigEndian [a, b, c, d] := by
    have hlt := bigEndian_lt [c, d, b, a]
    have hpow : 256 ^ [c, d, b, a].length = 4294967296 := by simp
    unfold bigEndianInt
    rw [hpow] at hlt ⊢
    split <;> omega
  rw [UInt8.toNat_inj, UInt8.toNat_inj, UInt8.toNat_inj, ← hsame, ← hvalue] at hdvd
  have hbehind : v + 1 = ((bigEndian [a, b, c, d] : Nat) : Int) - 255 * 16843009 := by omega
  rw [hdata, hsigned, ← hdvd, hbehind]
  clear hvalue hdvd hsame hsigned
  omega

theorem wrapInt_writesInteger_iff (hlow : -2147483648 ≤ v) (hhigh : v ≤ 65535) :
    WritesInteger (wrapInt v) v ↔ IntegerKind.int.WritesRight v := by
  unfold IntegerKind.WritesRight
  by_cases h : 0 ≤ v
  · rw [writesInteger_iff (wrapInt_holds h) rfl]
    have hbytes := bigEndian_reverse_shortBytes h hhigh
    simp only [AmqpType.integer, Option.some.injEq, hbytes]
    omega
  · have hholds := wrapInt_signed (show v < 0 by omega)
    unfold intSignedBytes at hholds
    by_cases hsmall : -128 ≤ v
    · rw [if_pos ⟨hsmall, by omega⟩] at hholds
      rw [writesInteger_iff hholds rfl]
      refine iff_of_true (congrArg some ?_) (by omega)
      refine bigEndianInt_of_emod (k := 128) rfl ?_ hsmall (by omega)
      rw [bigEndian_singleton, UInt8.ofInt, UInt8.toNat_ofNat']
      omega
    · rw [if_neg (by omega)] at hholds
      rw [writesInteger_iff hholds rfl]
      have hbytes := bigEndianInt_intSigned hlow (by omega)
      simp only [AmqpType.integer, Option.some.injEq, hbytes]
      omega

/-- The wrapper for integers of a type writes the number it is given. -/
theorem wrapInteger_iff (k : IntegerKind) (h : k.InRange v) :
    WritesInteger (k.wrap v) v ↔ k.WritesRight v := by
  cases k with
  | long => exact wrapLong_writesInteger_iff h.1 h.2
  | int => exact wrapInt_writesInteger_iff h.1 h.2
  | short => exact iff_of_true (wrapShort_writesInteger h.1 h.2) trivial

end Sent

/-- A channel number whose two bytes are equal. -/
theorem wrapInteger_iff_channel : IntegerKind.int.InRange 771 ∧
    (WritesInteger (IntegerKind.int.wrap 771) 771 ↔ IntegerKind.int.WritesRight 771) :=
  ⟨⟨by decide, by decide⟩, wrapInteger_iff .int ⟨by decide, by decide⟩⟩

/-- The `int` 256 is written as 1. -/
theorem int256_not_written :
    IntegerKind.int.InRange 256 ∧ ¬ WritesInteger (IntegerKind.int.wrap 256) 256 := by
  refine ⟨⟨by decide, by decide⟩, fun h => ?_⟩
  rcases (wrapInt_writesInteger_iff (by decide) (by decide)).1 h with
    ⟨-, hdvd⟩ | ⟨-, hneg⟩ | ⟨hlow, -⟩
  · exact absurd hdvd (by decide)
  · exact absurd hneg (by decide)
  · exact absurd hlow (by decide)

end IotClient.Amqp
