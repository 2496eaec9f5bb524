import Mathlib.Tactic.Ring
import IotClient.Mem.Byte

/-!
# Numbers in big-endian bytes

`bigEndian` is the number that bytes stand for, `bigEndianInt` the one they stand for in two's
complement. Bytes of a given number are determined by it.
-/

namespace IotClient.Mem

/-- The number of bytes, the most significant one first. -/
def bigEndian : List UInt8 → Nat
  | [] => 0
  | b :: bs => b.toNat * 256 ^ bs.length + bigEndian bs

/-- The number of bytes in two's complement. -/
def bigEndianInt (bs : List UInt8) : Int :=
  if 2 * bigEndian bs < 256 ^ bs.length then bigEndian bs
  else bigEndian bs - (256 ^ bs.length : Nat)

theorem bigEndian_lt (bs : List UInt8) : bigEndian bs < 256 ^ bs.length := by
  induction bs with
  | nil => exact Nat.one_pos
  | cons b bs ih =>
    have hb := b.toNat_lt
    have hle : (b.toNat + 1) * 256 ^ bs.length ≤ 256 * 256 ^ bs.length :=
      Nat.mul_le_mul_right _ (by omega)
    rw [bigEndian, List.length_cons, Nat.pow_succ']
    rw [Nat.add_mul, Nat.one_mul] at hle
    omega

/-- The first byte is the quotient by the power of the others, which are the remainder. -/
theorem bigEndian_div_mod (b : UInt8) (bs : List UInt8) :
    bigEndian (b :: bs) / 256 ^ bs.length = b.toNat ∧
      bigEndian (b :: bs) % 256 ^ bs.length = bigEndian bs := by
  have hrest := bigEndian_lt bs
  have hpos : 0 < 256 ^ bs.length := Nat.pow_pos (by decide)
  rw [bigEndian, Nat.add_comm, Nat.add_mul_div_right _ _ hpos, Nat.div_eq_of_lt hrest,
    Nat.add_mul_mod_self_right, Nat.mod_eq_of_lt hrest]
  exact ⟨Nat.zero_add _, rfl⟩

theorem bigEndian_inj {bs cs : List UInt8} (hlen : bs.length = cs.length)
    (h : bigEndian bs = bigEndian cs) : bs = cs := by
  induction bs generalizing cs with
  | nil => exact (List.eq_nil_of_length_eq_zero hlen.symm).symm
  | cons b bs ih =>
    cases cs with
    | nil => cases hlen
    | cons c cs =>
      have hlen' : bs.length = cs.length := Nat.succ.inj hlen
      obtain ⟨hb, hbs⟩ := bigEndian_div_mod b bs
      obtain ⟨hc, hcs⟩ := bigEndian_div_mod c cs
      rw [h, hlen'] at hb hbs
      rw [UInt8.toNat_inj.1 (hb.symm.trans hc), ih hlen' (hbs.symm.trans hcs)]

/-- The bytes of a number in two's complement are those of its remainder. -/
theorem bigEndianInt_of_emod {bs : List UInt8} {v : Int} {k : Nat} (hk : 256 ^ bs.length = 2 * k)
    (h : (bigEndian bs : Int) = v % (2 * k : Nat)) (hlow : -(k : Int) ≤ v) (hhigh : v < k) :
    bigEndianInt bs = v := by
  unfold bigEndianInt
  rw [hk]
  by_cases hv : 0 ≤ v
  · rw [Int.emod_eq_of_lt hv (by omega)] at h
    rw [if_pos (by omega), h]
  · have hmod : v % (2 * k : Nat) = v + (2 * k : Nat) := by
      rw [← Int.add_emod_right, Int.emod_eq_of_lt (by omega) (by omega)]
    rw [hmod] at h
    rw [if_neg (by omega), h]
    omega

end IotClient.Mem
