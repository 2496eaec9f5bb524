import Mathlib.Data.Nat.Digits.Defs
import IotClient.Mqtt.FrameSize

/-!
# The remaining length as a number

`Represents ds n` says that the bytes are a remaining length of MQTT with the value `n`: seven bits
in each byte, the low ones first, and the high bit in all but the last. `add_packet_length` writes
the shortest such bytes and nothing else (`addPacketLength_shortest`).
-/

namespace IotClient.Mqtt

open Mem

/-- The number with these digits to the base 128. -/
def lengthValue (ds : List UInt8) : Nat := Nat.ofDigits 128 (ds.map fun x => x.toNat % 128)

structure Represents (ds : List UInt8) (n : Nat) : Prop where
  continued : ∃ pre last, ds = pre ++ [last] ∧ (∀ x ∈ pre, 128 ≤ x) ∧ last < 128
  value : lengthValue ds = n

/-- One byte less is too short from the next power of 128 on. -/
theorem Represents.lt_pow {ds : List UInt8} {n : Nat} (h : Represents ds n) :
    n < 128 ^ ds.length := by
  have hlt := Nat.ofDigits_lt_base_pow_length (b := 128)
    (l := ds.map fun x => x.toNat % 128) (by decide) fun d hd => by
      obtain ⟨x, -, rfl⟩ := List.mem_map.1 hd
      exact Nat.mod_lt _ (by decide)
  rw [List.length_map] at hlt
  rw [← h.value]
  exact hlt

theorem length_lengthBytes_le {k n : Nat} (h : n < 128 ^ (k + 1)) :
    (lengthBytes n).length ≤ k + 1 := by
  induction k generalizing n with
  | zero =>
    rw [lengthBytes_short (by omega)]
    exact Nat.le_refl 1
  | succ k ih =>
    by_cases hn : n < 128
    · rw [lengthBytes_short hn, List.length_singleton]
      omega
    · have hpow : 128 ^ (k + 1 + 1) = 128 ^ (k + 1) * 128 := Nat.pow_succ ..
      have hdiv : n / 128 < 128 ^ (k + 1) := (Nat.div_lt_iff_lt_mul (by decide)).2 (by omega)
      rw [lengthBytes_long (by omega), List.length_cons]
      have hle := ih hdiv
      omega

theorem represents_lengthBytes (n : Nat) : Represents (lengthBytes n) n := by
  induction n using Nat.strongRecOn with
  | ind n ih =>
    rcases Nat.lt_or_ge n 128 with hn | hn
    · have htoNat : (UInt8.ofNat n).toNat = n := toNat_ofNat_of_lt (by omega)
      have hlast : UInt8.ofNat n < 128 := by
        rw [UInt8.lt_iff_toNat_lt, htoNat]
        exact hn
      rw [lengthBytes_short hn]
      refine ⟨⟨[], _, rfl, fun x hx => (List.not_mem_nil hx).elim, hlast⟩, ?_⟩
      show Nat.ofDigits 128 [(UInt8.ofNat n).toNat % 128] = n
      rw [Nat.ofDigits_singleton, htoNat, Nat.mod_eq_of_lt hn]
    · obtain ⟨⟨pre, last, hpre, hhigh, hlast⟩, hvalue⟩ := ih (n / 128) (by omega)
      have hor : (UInt8.ofNat (n % 128) ||| 128).toNat = n % 128 + 128 := or_high (by omega)
      have hle : 128 ≤ UInt8.ofNat (n % 128) ||| 128 := by
        rw [UInt8.le_iff_toNat_le, hor]
        exact Nat.le_add_left _ _
      rw [lengthBytes_long hn]
      refine ⟨⟨_ :: pre, last, by rw [hpre]; rfl, fun x hx => ?_, hlast⟩, ?_⟩
      · rcases List.mem_cons.1 hx with rfl | hx
        · exact hle
        · exact hhigh x hx
      · show Nat.ofDigits 128 ((UInt8.ofNat (n % 128) ||| 128).toNat % 128 ::
          (lengthBytes (n / 128)).map fun x => x.toNat % 128) = n
        rw [Nat.ofDigits_cons, hor, Nat.add_mod_right]
        have hvalue : Nat.ofDigits 128 ((lengthBytes (n / 128)).map fun x => x.toNat % 128) =
          n / 128 := hvalue
        rw [hvalue]
        omega

/-- A copy inside the block replaces the cells from the cursor on. -/
theorem copy_eq (xs : List UInt8) {b : Block} {i : Nat} (h : i + xs.length ≤ b.length) :
    Enc.copy xs ⟨b, i⟩ =
      .ok ((), ⟨b.take i ++ (xs.map some ++ b.drop (i + xs.length)), i + xs.length⟩) := by
  induction xs generalizing b i with
  | nil => exact congrArg (fun b => Except.ok ((), Cursor.mk b i)) (List.take_append_drop i b).symm
  | cons x xs ih =>
    rw [List.length_cons] at h
    have hstore : b.store i x = .ok (b.set i (some x)) := if_pos (by omega)
    have hcopy : Enc.copy (x :: xs) ⟨b, i⟩ = Enc.copy xs ⟨b.set i (some x), i + 1⟩ := by
      show (b.store i x >>= _) >>= _ = _
      rw [hstore]
      rfl
    have htake : (b.set i (some x)).take (i + 1) = b.take i ++ [some x] := by
      rw [List.take_add_one, List.take_set_of_le (Nat.le_refl i),
        List.getElem?_set_self (by omega)]
      rfl
    rw [hcopy, ih (by rw [List.length_set]; omega), htake, List.drop_set_of_lt (by omega),
      List.length_cons, List.map_cons, List.append_assoc, Nat.add_assoc, Nat.add_comm 1]
    rfl

/-- A copy past the end of the block. -/
theorem copy_error {xs : List UInt8} {b : Block} {i : Nat} (hne : xs ≠ [])
    (h : b.length < i + xs.length) : Enc.copy xs ⟨b, i⟩ = .error .writeOut := by
  induction xs generalizing b i with
  | nil => exact absurd rfl hne
  | cons x xs ih =>
    rw [List.length_cons] at h
    show (b.store i x >>= _) >>= _ = _
    by_cases hlt : i < b.length
    · have hrest : Enc.copy xs ⟨b.set i (some x), i + 1⟩ = .error .writeOut :=
        ih (List.ne_nil_of_length_pos (by omega)) (by rw [List.length_set]; omega)
      rw [show b.store i x = .ok (b.set i (some x)) from if_pos hlt]
      exact hrest
    · rw [Block.store_end b (by omega)]
      rfl

/-- What `add_packet_length` leaves of a block: the bytes from position 1 on are written. -/
theorem addPacketLength_eq (n : Nat) (b : Block) : addPacketLength n b =
    if 1 + (lengthBytes n).length ≤ b.length then
      .ok (b.take 1 ++ ((lengthBytes n).map some ++ b.drop (1 + (lengthBytes n).length)),
        1 + (lengthBytes n).length)
    else .error .writeOut := by
  have hcopy := putPacketLength_eq n b 0
  unfold putPacketLength at hcopy
  split
  case isTrue hroom =>
    rw [copy_eq _ hroom] at hcopy
    obtain ⟨⟨b', pos⟩, hr, heq⟩ := bind_eq_ok.1 hcopy
    cases heq
    exact hr
  case isFalse hroom =>
    rw [copy_error (List.ne_nil_of_length_pos (lengthBytes_pos n)) (by omega)] at hcopy
    cases hr : addPacketLength n b with
    | error e =>
      rw [hr] at hcopy
      cases hcopy
      rfl
    | ok r =>
      rw [hr] at hcopy
      cases hcopy

/-- The cells from position 1 on get the bytes of the length, as few as possible; without room for
them the code writes behind the block. -/
theorem addPacketLength_shortest (n : Nat) (h : n ≤ 268435455) :
    ∃ ds, Represents ds n ∧ (∀ ds', Represents ds' n → ds.length ≤ ds'.length) ∧ ds.length ≤ 4 ∧
      ∀ b : Block, addPacketLength n b =
        if 1 + ds.length ≤ b.length then
          .ok (b.take 1 ++ (ds.map some ++ b.drop (1 + ds.length)), 1 + ds.length)
        else .error .writeOut := by
  refine ⟨lengthBytes n, represents_lengthBytes n, fun ds hds => ?_,
    length_lengthBytes_le (by omega), addPacketLength_eq n⟩
  obtain ⟨pre, last, hpre, -⟩ := hds.continued
  have hlt := hds.lt_pow
  rw [hpre, List.length_append, List.length_singleton] at hlt ⊢
  exact length_lengthBytes_le hlt

theorem addPacketLength_shortest_max : 268435455 ≤ 268435455 ∧
    ∃ ds, Represents ds 268435455 ∧ (∀ ds', Represents ds' 268435455 → ds.length ≤ ds'.length) ∧
      ds.length ≤ 4 ∧ ∀ b : Block, addPacketLength 268435455 b =
        if 1 + ds.length ≤ b.length then
          .ok (b.take 1 ++ (ds.map some ++ b.drop (1 + ds.length)), 1 + ds.length)
        else .error .writeOut :=
  ⟨Nat.le_refl _, addPacketLength_shortest 268435455 (Nat.le_refl _)⟩

end IotClient.Mqtt
