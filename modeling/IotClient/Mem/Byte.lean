import Mathlib.Algebra.Group.Nat.Defs
import Mathlib.Data.Fintype.Basic

/-!
# Bytes

A statement about every byte is decided by its 256 instances.
-/

namespace IotClient.Mem

theorem forall_byte {p : UInt8 → Prop} : (∀ x, p x) ↔ ∀ k : Fin 256, p (UInt8.ofFin k) :=
  ⟨fun h _ => h _, fun h x => h x.toFin⟩

instance decidableForallByte {p : UInt8 → Prop} [DecidablePred p] : Decidable (∀ x, p x) :=
  decidable_of_iff _ forall_byte.symm

/-- A byte below 128 has its high bit clear, any other one has it set. -/
theorem and_high (x : UInt8) : x &&& 0x80 = if x < 128 then 0 else 0x80 := by
  revert x; decide +kernel

theorem and_low {x : UInt8} (h : x < 128) : x &&& 0x7f = x := by
  revert x; decide +kernel

/-- The bits from `k` on. -/
theorem and_highBits {x k : Nat} (hk : k ≤ 8) (hx : x < 2 ^ 8) :
    x &&& (2 ^ 8 - 2 ^ k) = x / 2 ^ k * 2 ^ k := by
  have hmask : 2 ^ 8 - 2 ^ k = (2 ^ (8 - k) - 1) <<< k := by
    rw [Nat.shiftLeft_eq, Nat.sub_mul, Nat.one_mul, ← Nat.pow_add, Nat.sub_add_cancel hk]
  rw [hmask, ← Nat.shiftRight_eq_div_pow, ← Nat.shiftLeft_eq]
  refine Nat.eq_of_testBit_eq fun i => ?_
  rw [Nat.testBit_and, Nat.testBit_shiftLeft, Nat.testBit_shiftLeft, Nat.testBit_shiftRight,
    Nat.testBit_two_pow_sub_one]
  by_cases hi : k ≤ i
  · rw [Nat.add_sub_cancel' hi]
    by_cases h8 : i < 8
    · have hlt : i - k < 8 - k := by omega
      rw [decide_eq_true hi, decide_eq_true hlt, Bool.and_true, Bool.and_true, Bool.true_and]
    · have hzero : x.testBit i = false :=
        Nat.testBit_lt_two_pow (Nat.lt_of_lt_of_le hx (Nat.pow_le_pow_right (by decide) (by omega)))
      rw [hzero, Bool.false_and, Bool.and_false]
  · rw [decide_eq_false hi, Bool.false_and, Bool.false_and, Bool.and_false]

/-- A test of the bits from `k` on is a range of bytes. -/
theorem mask_iff {x mask v : UInt8} (k q : Nat) (hk : k ≤ 8) (hmask : mask.toNat = 2 ^ 8 - 2 ^ k)
    (hv : v.toNat = q * 2 ^ k) :
    x &&& mask = v ↔ v.toNat ≤ x.toNat ∧ x.toNat ≤ v.toNat + (2 ^ k - 1) := by
  have hpos : 0 < 2 ^ k := Nat.two_pow_pos k
  rw [← UInt8.toNat_inj, UInt8.toNat_and, hmask, and_highBits hk x.toNat_lt, hv,
    Nat.mul_left_inj (by omega), Nat.div_eq_iff hpos]
  refine and_congr_right fun _ => ?_
  omega

theorem toNat_ofNat_of_lt {n : Nat} (h : n < 256) : (UInt8.ofNat n).toNat = n := by
  rw [UInt8.toNat_ofNat']; omega

theorem byte_ofInt_natCast (n : Nat) : UInt8.ofInt n = UInt8.ofNat n := by
  apply UInt8.toNat_inj.mp
  rw [UInt8.ofInt, UInt8.toNat_ofNat', UInt8.toNat_ofNat']
  omega

theorem byte_ofInt_toNat (x : UInt8) : UInt8.ofInt x.toNat = x := by
  rw [byte_ofInt_natCast, UInt8.ofNat_toNat]

theorem short_toNat_of_lt {n : Nat} (h : n < 65536) : (UInt16.ofNat n).toNat = n := by
  rw [UInt16.toNat_ofNat']; omega

theorem short_ofInt_natCast (n : Nat) : UInt16.ofInt n = UInt16.ofNat n := by
  apply UInt16.toNat_inj.mp
  rw [UInt16.ofInt, UInt16.toNat_ofNat', UInt16.toNat_ofNat']
  omega

theorem short_ofInt_toNat (x : UInt16) : UInt16.ofInt x.toNat = x := by
  rw [short_ofInt_natCast, UInt16.ofNat_toNat]

/-- 16 bits read as a `short` and stored again. -/
theorem short_ofInt_toInt16 (x : UInt16) : UInt16.ofInt x.toInt16.toInt = x := by
  have hbits : x.toInt16.toInt = x.toBitVec.toInt := rfl
  have hnat : x.toBitVec.toNat = x.toNat := rfl
  have hlt := x.toNat_lt
  apply UInt16.toNat_inj.mp
  rw [hbits, UInt16.ofInt, UInt16.toNat_ofNat', BitVec.toInt_eq_toNat_cond, hnat]
  split <;> omega

theorem short_toNat_ofInt {n : Int} (h0 : 0 ≤ n) (h : n < 65536) :
    ((UInt16.ofInt n).toNat : Int) = n := by
  obtain ⟨m, rfl⟩ := Int.eq_ofNat_of_zero_le h0
  rw [short_ofInt_natCast, short_toNat_of_lt (by omega)]

theorem int_ofInt_natCast (n : Nat) : UInt32.ofInt n = UInt32.ofNat n := by
  apply UInt32.toNat_inj.mp
  rw [UInt32.ofInt, UInt32.toNat_ofNat', UInt32.toNat_ofNat']
  omega

/-- The low byte of a 32-bit value. -/
theorem int_toByte (n : Nat) : (UInt32.ofNat n).toUInt8 = UInt8.ofNat n := by
  apply UInt8.toNat_inj.mp
  rw [UInt32.toNat_toUInt8, UInt32.toNat_ofNat', UInt8.toNat_ofNat']
  omega

end IotClient.Mem
