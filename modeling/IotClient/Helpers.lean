import Mathlib.Tactic.Ring
import IotClient.Mem.Block
import IotClient.Mem.Byte
import IotClient.Mem.Read

/-!
# `helpers.c`

Big-endian integers and the MQTT remaining length. A byte (`char`) is unsigned, as on the ARM
target. `get_short` is declared `unsigned short` in `helpers.h`, through which every caller
sees it, so its 16 bits are read as an unsigned value.

`decode_remaining_length` (defined in `mqtt/parser.c`, declared here) reads `buf[1]` in every
round: its index is never advanced. A first length byte below 128 is decoded, any other one
runs into the bound on the multiplier and gives `-1` (`decodeRemainingLength_short`,
`decodeRemainingLength_long`).
-/

namespace IotClient

open Mem

/-! ### 16-bit integers -/

/-- The two bytes of a 16-bit value, most significant first. -/
def shortBytes (s : UInt16) : List UInt8 := [(s >>> 8).toUInt8, s.toUInt8]

/-- `i += add_short(&buf[i], s)` -/
def addShort (s : UInt16) : Enc Unit := do
  Enc.put (s >>> 8).toUInt8
  Enc.put s.toUInt8

def getShort (buf : List UInt8) (offset : Nat) : Run UInt16 := do
  let hi ← rd buf offset
  let lo ← rd buf (offset + 1)
  pure ((hi.toUInt16 <<< 8) ||| lo.toUInt16)

theorem getShort_returns {buf : List UInt8} {i : Nat} :
    Returns (getShort buf i) ↔ i + 1 < buf.length := by
  refine (returns_bind fun _ _ => returns_bind_ok fun _ => returns_ok _).trans ?_
  rw [rd_returns, rd_returns]
  omega

@[simp] theorem length_shortBytes (s : UInt16) : (shortBytes s).length = 2 := rfl

theorem addShort_emits (s : UInt16) : Emits (addShort s) (shortBytes s) :=
  Emits.seq (Emits.put _) (Emits.put _)

theorem short_join (s : UInt16) :
    ((s >>> 8).toUInt8.toUInt16 <<< 8) ||| s.toUInt8.toUInt16 = s := by
  apply UInt16.toNat_inj.mp
  have hs := s.toNat_lt
  have hlo : s.toNat % 256 < 2 ^ 8 := by omega
  simp only [UInt16.toNat_or, UInt16.toNat_shiftLeft, UInt8.toNat_toUInt16, UInt16.toNat_toUInt8,
    UInt16.toNat_shiftRight, UInt16.reduceToNat, Nat.reduceMod, Nat.shiftRight_eq_div_pow,
    Nat.shiftLeft_eq]
  have hhi : s.toNat / 2 ^ 8 % 2 ^ 8 * 2 ^ 8 % 2 ^ 16 = 2 ^ 8 * (s.toNat / 2 ^ 8) := by omega
  rw [hhi, ← Nat.two_pow_add_eq_or_of_lt hlo]
  omega

theorem short_split (hi lo : UInt8) :
    shortBytes ((hi.toUInt16 <<< 8) ||| lo.toUInt16) = [hi, lo] := by
  have hlo := lo.toNat_lt
  have hhi := hi.toNat_lt
  have hor : hi.toNat * 256 ||| lo.toNat = 256 * hi.toNat + lo.toNat := by
    rw [mul_comm]
    exact (Nat.two_pow_add_eq_or_of_lt (i := 8) hlo hi.toNat).symm
  have hval : ((hi.toUInt16 <<< 8) ||| lo.toUInt16).toNat = 256 * hi.toNat + lo.toNat := by
    simp only [UInt16.toNat_or, UInt16.toNat_shiftLeft, UInt8.toNat_toUInt16, UInt16.reduceToNat,
      Nat.reduceMod, Nat.shiftLeft_eq, Nat.reducePow]
    rw [Nat.mod_eq_of_lt (by omega), hor]
  unfold shortBytes
  congr 1
  · apply UInt8.toNat_inj.mp
    rw [UInt16.toNat_toUInt8, UInt16.toNat_shiftRight, hval, Nat.shiftRight_eq_div_pow]
    simp only [UInt16.reduceToNat, Nat.reduceMod, Nat.reducePow]
    omega
  · congr 1
    apply UInt8.toNat_inj.mp
    rw [UInt16.toNat_toUInt8, hval]
    omega

/-- Past a 16-bit value. -/
theorem drop_short {buf r : List UInt8} {i : Nat} {s : UInt16}
    (h : buf.drop i = shortBytes s ++ r) : buf.drop (i + 2) = r := drop_add h

theorem getShort_drop {buf r : List UInt8} {i : Nat} {s : UInt16}
    (h : buf.drop i = shortBytes s ++ r) : getShort buf i = .ok s := by
  unfold getShort
  rw [rd_drop (s := s.toUInt8 :: r) h, ok_bind, rd_drop (drop_succ h), ok_bind,
    short_join]
  rfl

/-! ### 32-bit integers -/

/-- The four bytes of a 32-bit value, most significant first. -/
def intBytes (n : UInt32) : List UInt8 :=
  [(n >>> 24).toUInt8, (n >>> 16).toUInt8, (n >>> 8).toUInt8, n.toUInt8]

/-- The 32 bits `get_int` assembles, read as a signed `int`. -/
def getInt (array : List UInt8) (offset : Nat) : Run Int := do
  let b0 ← rd array offset
  let b1 ← rd array (offset + 1)
  let b2 ← rd array (offset + 2)
  let b3 ← rd array (offset + 3)
  pure ((b0.toUInt32 <<< 24) ||| (b1.toUInt32 <<< 16) ||| (b2.toUInt32 <<< 8) |||
    b3.toUInt32).toInt32.toInt

@[simp] theorem length_intBytes (n : UInt32) : (intBytes n).length = 4 := rfl

/-- Four bytes put together with shifts, as the 32-bit value they stand for. -/
theorem or_bytes {a b c d : Nat} (ha : a < 256) (hb : b < 256) (hc : c < 256) (hd : d < 256) :
    (a * 16777216 % 4294967296 ||| b * 65536 % 4294967296) ||| c * 256 % 4294967296 ||| d =
      16777216 * a + 65536 * b + 256 * c + d := by
  rw [Nat.mod_eq_of_lt (by omega : a * 16777216 < 4294967296),
    Nat.mod_eq_of_lt (by omega : b * 65536 < 4294967296),
    Nat.mod_eq_of_lt (by omega : c * 256 < 4294967296)]
  have e3 := Nat.two_pow_add_eq_or_of_lt (i := 24) (b := b * 65536) (by omega) a
  have e2 := Nat.two_pow_add_eq_or_of_lt (i := 16) (b := c * 256) (by omega) (256 * a + b)
  have e1 := Nat.two_pow_add_eq_or_of_lt (i := 8) hd (65536 * a + 256 * b + c)
  simp only [Nat.reducePow] at e1 e2 e3
  rw [mul_comm a, ← e3, (by omega : 16777216 * a + b * 65536 = 65536 * (256 * a + b)), ← e2,
    (by omega : 65536 * (256 * a + b) + c * 256 = 256 * (65536 * a + 256 * b + c)), ← e1]
  omega

theorem int_join (n : UInt32) :
    ((n >>> 24).toUInt8.toUInt32 <<< 24) ||| ((n >>> 16).toUInt8.toUInt32 <<< 16) |||
      ((n >>> 8).toUInt8.toUInt32 <<< 8) ||| n.toUInt8.toUInt32 = n := by
  apply UInt32.toNat_inj.mp
  have hn := n.toNat_lt
  simp only [UInt32.toNat_or, UInt32.toNat_shiftLeft, UInt8.toNat_toUInt32, UInt32.toNat_toUInt8,
    UInt32.toNat_shiftRight, UInt32.reduceToNat, Nat.reduceMod, Nat.shiftRight_eq_div_pow,
    Nat.shiftLeft_eq, Nat.reducePow]
  rw [or_bytes (by omega) (by omega) (by omega) (by omega)]
  omega

theorem getInt_drop {buf r : List UInt8} {i : Nat} {n : UInt32}
    (h : buf.drop i = intBytes n ++ r) : getInt buf i = .ok n.toInt32.toInt := by
  have h0 : buf.drop i =
    (n >>> 24).toUInt8 :: (n >>> 16).toUInt8 :: (n >>> 8).toUInt8 :: n.toUInt8 :: r := h
  have h1 := drop_succ h0
  have h2 := drop_succ h1
  have h3 := drop_succ h2
  unfold getInt
  rw [rd_drop h0, ok_bind, rd_drop h1, ok_bind, rd_drop h2, ok_bind, rd_drop h3, ok_bind,
    int_join]
  rfl

/-- `get_int` inverts the big-endian encoding of a size below `2^31`. -/
theorem getInt_size {buf r : List UInt8} {i k : Nat} (hk : k < 2 ^ 31)
    (h : buf.drop i = intBytes (UInt32.ofNat k) ++ r) : getInt buf i = .ok (k : Int) := by
  rw [getInt_drop h]
  congr 1
  have hn : (UInt32.ofNat k).toNat = k := by rw [UInt32.toNat_ofNat']; omega
  rw [UInt32.toInt32, Int32.toInt, BitVec.toInt_eq_toNat_of_lt]
  · exact_mod_cast hn
  · show 2 * (UInt32.ofNat k).toNat < _
    omega

/-! ### The remaining length -/

/-- The loop of `add_packet_length` from position `pos`, with `l` left to encode. -/
def addPacketLengthLoop (remainingLength : Block) (pos l : Nat) : Run (Block × Nat) :=
  let encByte := UInt8.ofNat (l % 128)
  if 0 < l / 128 then do
    let b ← remainingLength.store pos (encByte ||| 128)
    addPacketLengthLoop b (pos + 1) (l / 128)
  else do
    let b ← remainingLength.store pos encByte
    pure (b, pos + 1)
termination_by l

/-- Writes the remaining length from position 1 and returns the position after it. -/
def addPacketLength (length : Nat) (remainingLength : Block) : Run (Block × Nat) :=
  addPacketLengthLoop remainingLength 1 length

/-- The bytes of a remaining length. -/
def lengthBytes (l : Nat) : List UInt8 :=
  if 0 < l / 128 then (UInt8.ofNat (l % 128) ||| 128) :: lengthBytes (l / 128)
  else [UInt8.ofNat (l % 128)]
termination_by l

theorem lengthBytes_short {l : Nat} (h : l < 128) : lengthBytes l = [UInt8.ofNat l] := by
  unfold lengthBytes
  rw [if_neg (by omega), Nat.mod_eq_of_lt h]

theorem lengthBytes_long {l : Nat} (h : 128 ≤ l) :
    lengthBytes l = (UInt8.ofNat (l % 128) ||| 128) :: lengthBytes (l / 128) := by
  rw [lengthBytes, if_pos (by omega)]

theorem lengthBytes_pos (l : Nat) : 1 ≤ (lengthBytes l).length := by
  rw [lengthBytes]; split <;> simp

/-- One length byte is enough exactly up to 127. -/
theorem length_lengthBytes_eq_one {l : Nat} : (lengthBytes l).length = 1 ↔ l < 128 := by
  constructor
  · intro h
    by_contra hge
    rw [lengthBytes_long (by omega), List.length_cons] at h
    have := lengthBytes_pos (l / 128)
    omega
  · intro h
    rw [lengthBytes_short h]; rfl

/-- `i = add_packet_length(length, buf)` at a cursor of 1 appends the length bytes. -/
def putPacketLength (length : Nat) : Enc Unit := fun s => do
  let (b, pos) ← addPacketLength length s.buf
  pure ((), ⟨b, pos⟩)

theorem addPacketLengthLoop_eq (l : Nat) : ∀ (b : Block) (pos : Nat),
    (do let (b, pos) ← addPacketLengthLoop b pos l; pure ((), (⟨b, pos⟩ : Cursor))) =
      Enc.copy (lengthBytes l) ⟨b, pos⟩ := by
  induction l using Nat.strongRecOn with
  | ind l ih =>
    intro b pos
    unfold addPacketLengthLoop
    by_cases h : 0 < l / 128
    · have hl : lengthBytes l = (UInt8.ofNat (l % 128) ||| 128) :: lengthBytes (l / 128) :=
        lengthBytes_long (by omega)
      rw [if_pos h, hl]
      show _ = (Enc.put (UInt8.ofNat (l % 128) ||| 128) ⟨b, pos⟩ >>= fun r =>
        Enc.copy (lengthBytes (l / 128)) r.2)
      simp only [Enc.put]
      cases hs : b.store pos (UInt8.ofNat (l % 128) ||| 128) with
      | error e => rfl
      | ok b' => exact ih (l / 128) (by omega) b' (pos + 1)
    · have hl : lengthBytes l = [UInt8.ofNat (l % 128)] := by
        rw [lengthBytes_short (by omega), Nat.mod_eq_of_lt (by omega)]
      rw [if_neg h, hl]
      show _ = (Enc.put (UInt8.ofNat (l % 128)) ⟨b, pos⟩ >>= fun r => Enc.copy [] r.2)
      simp only [Enc.put]
      cases hs : b.store pos (UInt8.ofNat (l % 128)) with
      | error e => rfl
      | ok b' => rfl

theorem putPacketLength_eq (l : Nat) (b : Block) (i : Nat) :
    putPacketLength l ⟨b, i⟩ = Enc.copy (lengthBytes l) ⟨b, 1⟩ := addPacketLengthLoop_eq l b 1

/-- A frame that starts with one byte and its remaining length: the length goes to position 1
whether or not the first byte advanced the cursor. -/
theorem runOn_header (x : UInt8) (l n : Nat) {c : Enc Unit} {out : List UInt8} (hc : Emits c out) :
    Enc.runOn n (do Enc.put x; putPacketLength l; c) = emitted n (x :: (lengthBytes l ++ out)) := by
  have hrun : Emits (do Enc.put x; Enc.copy (lengthBytes l); c) (x :: (lengthBytes l ++ out)) :=
    Emits.seq (Emits.put x) (Emits.seq (Emits.copy _) hc)
  rw [← hrun.run n]
  show ((Enc.put x ⟨.malloc n, 0⟩ >>= fun r => putPacketLength l r.2 >>= fun r => c r.2) >>= _) =
    ((Enc.put x ⟨.malloc n, 0⟩ >>= fun r => Enc.copy (lengthBytes l) r.2 >>= fun r => c r.2) >>= _)
  simp only [Enc.put]
  cases (Block.malloc n).store 0 x with
  | error e => rfl
  | ok b => simp only [ok_bind, pure_eq_ok, putPacketLength_eq]

theorem runOn_poke_header (x : UInt8) (l n : Nat) {c : Enc Unit} {out : List UInt8}
    (hc : Emits c out) :
    Enc.runOn n (do Enc.poke x; putPacketLength l; c) = emitted n (x :: (lengthBytes l ++ out)) := by
  rw [← runOn_header x l n hc]
  show ((Enc.poke x ⟨.malloc n, 0⟩ >>= fun r => putPacketLength l r.2 >>= fun r => c r.2) >>= _) =
    ((Enc.put x ⟨.malloc n, 0⟩ >>= fun r => putPacketLength l r.2 >>= fun r => c r.2) >>= _)
  simp only [Enc.put, Enc.poke]
  cases (Block.malloc n).store 0 x with
  | error e => rfl
  | ok b => simp only [ok_bind, pure_eq_ok, putPacketLength_eq]

structure LengthDetails where
  length : Int
  bytesUsed : Int
  deriving DecidableEq, Repr

/-- The loop of `decode_remaining_length`; the multiplier's bound ends it within 5 rounds. -/
def decodeRemainingLengthLoop (buf : List UInt8) (length multiplier bytesUsed : Int) :
    Nat → Run LengthDetails
  | 0 => .error .fuel
  | fuel + 1 =>
    if multiplier > 128 * 128 * 128 then pure ⟨-1, -1⟩
    else do
      -- `i` stays 1
      let enc ← rd buf 1
      let length := length + (enc &&& 0x7f).toNat * multiplier
      if enc &&& 0x80 ≠ 0 then
        decodeRemainingLengthLoop buf length (multiplier * 128) (bytesUsed + 1) fuel
      else pure ⟨length + 2, bytesUsed + 1⟩

def decodeRemainingLength (buf : List UInt8) : Run LengthDetails :=
  decodeRemainingLengthLoop buf 0 1 0 5

theorem decodeRemainingLength_short {buf : List UInt8} {x : UInt8} (hx : rd buf 1 = .ok x)
    (h : x < 128) : decodeRemainingLength buf = .ok ⟨x.toNat + 2, 1⟩ := by
  unfold decodeRemainingLength decodeRemainingLengthLoop
  rw [if_neg (by omega), hx, ok_bind, and_low h,
    and_high, if_pos h]
  simp

/-- A length of one byte, as an encoder writes it. -/
theorem decodeRemainingLength_drop {buf r : List UInt8} {n : Nat} (hn : n < 128)
    (h : buf.drop 1 = UInt8.ofNat n :: r) : decodeRemainingLength buf = .ok ⟨n + 2, 1⟩ := by
  have hl : (UInt8.ofNat n).toNat = n := toNat_ofNat_of_lt (by omega)
  have hlt : UInt8.ofNat n < 128 := by
    rw [UInt8.lt_iff_toNat_lt, hl]; exact hn
  rw [decodeRemainingLength_short (rd_drop h) hlt, hl]

theorem decodeRemainingLength_long {buf : List UInt8} {x : UInt8} (hx : rd buf 1 = .ok x)
    (h : 128 ≤ x) : decodeRemainingLength buf = .ok ⟨-1, -1⟩ := by
  have hhigh : x &&& 0x80 ≠ 0 := by
    rw [and_high, if_neg (UInt8.not_lt.mpr h)]; decide
  simp [decodeRemainingLength, decodeRemainingLengthLoop, hx, hhigh]

/-! ### UTF-8 -/

/-- `utf8_check` from position `i` of a NUL-terminated buffer: the position of the first
malformed character, or `none`. -/
def utf8CheckFrom (s : List UInt8) : Nat → Nat → Run (Option Nat)
  | 0, _ => .error .fuel
  | fuel + 1, i => do
    let s0 ← rd s i
    if s0 = 0 then pure none
    else if s0 < 0x80 then utf8CheckFrom s fuel (i + 1)
    else if s0 &&& 0xe0 = 0xc0 then
      let s1 ← rd s (i + 1)
      if s1 &&& 0xc0 ≠ 0x80 ∨ s0 &&& 0xfe = 0xc0 then pure (some i)
      else utf8CheckFrom s fuel (i + 2)
    else if s0 &&& 0xf0 = 0xe0 then
      let s1 ← rd s (i + 1)
      if s1 &&& 0xc0 ≠ 0x80 then pure (some i)
      else
        let s2 ← rd s (i + 2)
        if s2 &&& 0xc0 ≠ 0x80 ∨ (s0 = 0xe0 ∧ s1 &&& 0xe0 = 0x80) ∨
            (s0 = 0xed ∧ s1 &&& 0xe0 = 0xa0) ∨ (s0 = 0xef ∧ s1 = 0xbf ∧ s2 &&& 0xfe = 0xbe) then
          pure (some i)
        else utf8CheckFrom s fuel (i + 3)
    else if s0 &&& 0xf8 = 0xf0 then
      let s1 ← rd s (i + 1)
      if s1 &&& 0xc0 ≠ 0x80 then pure (some i)
      else
        let s2 ← rd s (i + 2)
        if s2 &&& 0xc0 ≠ 0x80 then pure (some i)
        else
          let s3 ← rd s (i + 3)
          if s3 &&& 0xc0 ≠ 0x80 ∨ (s0 = 0xf0 ∧ s1 &&& 0xf0 = 0x80) ∨ (s0 = 0xf4 ∧ s1 > 0x8f) ∨
              s0 > 0xf4 then
            pure (some i)
          else utf8CheckFrom s fuel (i + 4)
    else pure (some i)

def utf8Check (s : List UInt8) : Run (Option Nat) := utf8CheckFrom s (s.length + 1) 0

end IotClient
