import IotClient.Account
import IotClient.Helpers
import IotClient.Machine.Frames

/-!
# The remaining length on the receiving side

`decode_remaining_length` and `mqtt_data_received` both look at the first byte of a remaining
length only. The decoder gives back what `add_packet_length` wrote, and the receiver cuts a
read buffer into its packets, exactly as long as one byte is enough (`lengthBack_iff`,
`handsOver_iff`).
-/

namespace IotClient.Mqtt

open Mem Machine

/-! ### Decoding what was encoded -/

/-- What `decode_remaining_length` is to make of a length `n` that ends before position `pos`. -/
def LengthBack (n pos : Nat) (buf : List UInt8) : Prop :=
  decodeRemainingLength buf = .ok ⟨n + pos, pos - 1⟩

/-- A copy leaves the cells before the cursor alone and puts its first byte there. -/
theorem copy_ok (xs : List UInt8) : ∀ {b b' : Block} {i pos : Nat},
    Enc.copy xs ⟨b, i⟩ = .ok ((), ⟨b', pos⟩) →
      pos = i + xs.length ∧ (∀ k < i, b'[k]? = b[k]?) ∧
        ∀ x, xs.head? = some x → b'[i]? = some (some x) := by
  induction xs with
  | nil =>
    intro b b' i pos h
    cases h
    exact ⟨rfl, fun _ _ => rfl, nofun⟩
  | cons x xs ih =>
    intro b b' i pos h
    obtain ⟨_, s, hput, hcopy⟩ := Enc.bind_eq_ok.mp h
    obtain ⟨b₁, hstore, hc⟩ := bind_eq_ok.mp hput
    cases hc
    obtain ⟨hpos, hkeep, -⟩ := ih hcopy
    have hpos : pos = i + 1 + xs.length := hpos
    have hkeep : ∀ k < i + 1, b'[k]? = b₁[k]? := hkeep
    have hstore : b.store i x = .ok b₁ := hstore
    unfold Block.store at hstore
    split at hstore
    case isTrue hlt =>
      cases hstore
      refine ⟨by rw [hpos, List.length_cons]; omega, fun k hk => ?_, fun y hy => ?_⟩
      · rw [hkeep k (by omega), List.getElem?_set_ne (by omega)]
      · cases hy
        rw [hkeep i (by omega), List.getElem?_set_self hlt]
    case isFalse => cases hstore

/-- Where `add_packet_length` ends, and the first byte it wrote. -/
theorem addPacketLength_ok {n pos : Nat} {b b' : Block} (h : addPacketLength n b = .ok (b', pos)) :
    pos = 1 + (lengthBytes n).length ∧
      ∀ x, (lengthBytes n).head? = some x → b'[1]? = some (some x) := by
  have hcopy := putPacketLength_eq n b 0
  unfold putPacketLength at hcopy
  rw [h] at hcopy
  obtain ⟨hpos, -, hhead⟩ := copy_ok _ hcopy.symm
  exact ⟨hpos, hhead⟩

theorem rd_bytes {b : Block} {i : Nat} {x : UInt8} (junk : Nat → UInt8)
    (h : b[i]? = some (some x)) : rd (b.bytes junk) i = .ok x := by
  have hx : (b.bytes junk)[i]? = some x := by
    unfold Block.bytes
    rw [List.getElem?_map, List.getElem?_zipIdx, h]
    rfl
  unfold rd
  rw [hx]

/-- The first byte of a length from 128 on has its high bit set. -/
theorem le_or_high (x : UInt8) : 128 ≤ x ||| 128 := by
  revert x; decide +kernel

theorem lengthBack_iff {n pos : Nat} {b b' : Block} (junk : Nat → UInt8)
    (h : addPacketLength n b = .ok (b', pos)) :
    LengthBack n pos (b'.bytes junk) ↔ n < 128 := by
  obtain ⟨hpos, hhead⟩ := addPacketLength_ok h
  unfold LengthBack
  rcases Nat.lt_or_ge n 128 with hn | hn
  · have hx := rd_bytes junk (hhead _ (by rw [lengthBytes_short hn]; rfl))
    have hlt : UInt8.ofNat n < 128 := by
      rw [UInt8.lt_iff_toNat_lt, toNat_ofNat_of_lt (by omega)]
      exact hn
    rw [decodeRemainingLength_short hx hlt, toNat_ofNat_of_lt (by omega), hpos,
      lengthBytes_short hn]
    exact iff_of_true rfl hn
  · have hx := rd_bytes junk (hhead _ (by rw [lengthBytes_long hn]; rfl))
    rw [decodeRemainingLength_long hx (le_or_high _)]
    refine iff_of_false (fun heq => ?_) (by omega)
    have hlen := congrArg LengthDetails.length (Except.ok.inj heq)
    simp only at hlen
    omega

theorem lengthBack_iff_pingreq : LengthBack 0 2 [0xc0, 0] ↔ 0 < 128 := by
  have hwrite : addPacketLength 0 (.malloc 2) = .ok ([none, some 0], 2) := by
    simp [addPacketLength, addPacketLengthLoop, Block.store, Block.malloc]
  exact lengthBack_iff (fun _ => 0xc0) hwrite

theorem length128_not_back :
    addPacketLength 128 (.malloc 3) = .ok ([none, some 128, some 1], 3) ∧
      ¬ LengthBack 128 3 (Block.bytes (fun _ => 0x30) [none, some 128, some 1]) := by
  refine ⟨?_, by unfold LengthBack; decide⟩
  simp [addPacketLength, addPacketLengthLoop, Block.store, Block.malloc]

/-! ### Cutting a read buffer into packets -/

/-- The length of the packet at `i`, by the first byte of its remaining length. -/
def nextLength (buf : Memory) (i : Nat) : Int := (buf (i + 1)).toNat + 2

/-- `mqtt_data_received`, with `processRx` as what `process_rx` does to a state. -/
def mqttDataReceived (protocol : Protocol) (buf : Memory) (readableBytes : Nat) {σ : Type}
    (processRx : σ → List UInt8 → Run σ) (s : σ) : Run σ :=
  if nextLength buf 0 < readableBytes ∧ protocol = .mqtt then
    -- a round takes at least two bytes
    cutLoop buf readableBytes (nextLength buf) processRx readableBytes 0 (nextLength buf 0) s
  else processRx s (buf.slice 0 readableBytes)

/-- The loop ends. -/
theorem mqttDataReceived_ne_fuel {protocol : Protocol} {buf : Memory} {readableBytes : Nat}
    {σ : Type} {processRx : σ → List UInt8 → Run σ} {s : σ}
    (h : ∀ s x, processRx s x ≠ .error .fuel) :
    mqttDataReceived protocol buf readableBytes processRx s ≠ .error .fuel := by
  have hpos : ∀ i, 0 < nextLength buf i := by
    intro i
    unfold nextLength
    omega
  unfold mqttDataReceived
  split
  case isTrue hlt =>
    have h0 := hpos 0
    exact cutLoop_ne_fuel h hpos h0 (by omega) (by omega)
  case isFalse => exact h _ _

/-- A complete packet. -/
structure WirePacket where
  header : UInt8
  body : List UInt8
  length_le : body.length ≤ 268435455

def WirePacket.bytes (p : WirePacket) : List UInt8 :=
  p.header :: (lengthBytes p.body.length ++ p.body)

section Packets

variable {p : WirePacket} {ps : List WirePacket} {buf : Memory} {i : Nat}

theorem WirePacket.length_bytes :
    p.bytes.length = 1 + (lengthBytes p.body.length).length + p.body.length := by
  simp only [bytes, List.length_cons, List.length_append]
  omega

theorem WirePacket.pos (p : WirePacket) : 0 < p.bytes.length := Nat.succ_pos _

/-- The first byte of a length below 128 is the length; from 128 on the byte is too small. -/
theorem nextLength_at (h : buf.At i p.bytes) :
    (p.body.length ≤ 127 → nextLength buf i = p.bytes.length) ∧
      (128 ≤ p.body.length → nextLength buf i < p.bytes.length) := by
  have hbyte := (Memory.at_append.mp (Memory.at_cons.mp h).2).1
  unfold nextLength
  rw [WirePacket.length_bytes]
  constructor
  · intro hle
    rw [lengthBytes_short (by omega)] at hbyte ⊢
    rw [(Memory.at_cons.mp hbyte).1, toNat_ofNat_of_lt (by omega), List.length_singleton]
    omega
  · intro hge
    rw [lengthBytes_long hge] at hbyte ⊢
    have hlen := lengthBytes_pos (p.body.length / 128)
    have hlt := (buf (i + 1)).toNat_lt
    rw [List.length_cons]
    rcases Nat.lt_or_ge p.body.length 256 with hsmall | hbig
    · have hmod : p.body.length / 128 = 1 := by omega
      rw [(Memory.at_cons.mp hbyte).1, hmod, lengthBytes_short (by omega), UInt8.toNat_or,
        toNat_ofNat_of_lt (by omega)]
      have hor : p.body.length % 128 ||| (128 : UInt8).toNat = p.body.length % 128 + 128 := by
        have := Nat.two_pow_add_eq_or_of_lt (i := 7) (b := p.body.length % 128) (by omega) 1
        rw [Nat.or_comm]
        exact this.symm.trans (by omega)
      rw [hor, List.length_singleton]
      omega
    · omega

theorem nextLength_eq_iff (h : buf.At i p.bytes) :
    nextLength buf i = p.bytes.length ↔ p.body.length ≤ 127 := by
  obtain ⟨hshort, hlong⟩ := nextLength_at h
  rcases Nat.lt_or_ge p.body.length 128 with hlt | hge
  · exact iff_of_true (hshort (by omega)) (by omega)
  · have := hlong hge
    exact iff_of_false (by omega) (by omega)

theorem sizesRight_iff : ∀ (ps : List WirePacket) {i : Nat},
    buf.At i (ps.map WirePacket.bytes).flatten →
      (SizesRight (nextLength buf) i (ps.map WirePacket.bytes) ↔ ∀ q ∈ ps, q.body.length ≤ 127)
  | [], _, _ => iff_of_true trivial (fun _ hq => absurd hq List.not_mem_nil)
  | p :: ps, i, h => by
    obtain ⟨hp, hps⟩ := Memory.at_append.mp h
    rw [List.forall_mem_cons, ← nextLength_eq_iff hp, ← sizesRight_iff ps hps]
    exact Iff.rfl

/-- `mqtt_data_received` on packets in one read buffer, `behind` standing behind it. -/
def receivePackets (ps : List WirePacket) (behind : Memory) (σ : Type)
    (processRx : σ → List UInt8 → Run σ) (s : σ) : Run σ :=
  let bytes := (ps.map WirePacket.bytes).flatten
  mqttDataReceived .mqtt (.of bytes behind) bytes.length processRx s

theorem WirePacket.forall_pos (ps : List WirePacket) : ∀ f ∈ ps.map bytes, 0 < f.length := by
  intro f hf
  obtain ⟨q, -, rfl⟩ := List.mem_map.mp hf
  exact q.pos

/-- Packets with short lengths, in a buffer that ends with the last of them. -/
theorem mqttDataReceived_short {readableBytes : Nat} {σ : Type}
    {processRx : σ → List UInt8 → Run σ} {s : σ}
    (hat : buf.At 0 (p.bytes ++ (ps.map WirePacket.bytes).flatten))
    (hread : readableBytes = (p.bytes ++ (ps.map WirePacket.bytes).flatten).length)
    (h : ∀ q ∈ p :: ps, q.body.length ≤ 127) :
    mqttDataReceived .mqtt buf readableBytes processRx s =
      (p.bytes :: ps.map WirePacket.bytes).foldlM processRx s := by
  have hsizes := (sizesRight_iff (p :: ps) hat).mpr h
  have hpos := WirePacket.forall_pos ps
  have hp := p.pos
  have hfit := length_le_flatten hpos
  rw [List.length_append] at hread
  unfold mqttDataReceived
  rw [hsizes.1]
  split
  case isTrue hlt =>
    refine cutLoop_eq processRx _ hpos hat ?_ hsizes.2 (by omega)
    rw [Nat.zero_add, List.length_append, hread]
  case isFalse hge =>
    have hnil : ps.map WirePacket.bytes = [] := by
      apply List.eq_nil_of_length_eq_zero
      by_contra hne
      exact hge ⟨by omega, rfl⟩
    rw [hnil] at hat hread ⊢
    rw [List.flatten_nil, List.append_nil] at hat
    rw [List.flatten_nil, List.length_nil, Nat.add_zero] at hread
    rw [hread, show buf.slice 0 p.bytes.length = p.bytes from hat, List.foldlM_cons]
    exact (bind_pure _).symm

/-- Only packets with short lengths are cut off as they are. -/
theorem short_of_kept {readableBytes : Nat}
    (hat : buf.At 0 (p.bytes ++ (ps.map WirePacket.bytes).flatten))
    (hread : readableBytes = (p.bytes ++ (ps.map WirePacket.bytes).flatten).length)
    (h : mqttDataReceived .mqtt buf readableBytes keep [] =
      .ok (p.bytes :: ps.map WirePacket.bytes)) : ∀ q ∈ p :: ps, q.body.length ≤ 127 := by
  unfold mqttDataReceived at h
  split at h
  case isTrue =>
    exact (sizesRight_iff (p :: ps) hat).mp (sizesRight_of_cutLoop _ [] h)
  case isFalse hge =>
    have hone : [buf.slice 0 readableBytes] = p.bytes :: ps.map WirePacket.bytes :=
      Except.ok.inj h
    have hnil : ps = [] := List.map_eq_nil_iff.mp (List.cons.inj hone).2.symm
    subst hnil
    intro q hq
    rw [List.mem_singleton.mp hq]
    by_contra hlong
    have hlt := (nextLength_at (Memory.at_append.mp hat).1).2 (by omega)
    refine hge ⟨?_, rfl⟩
    rw [hread, List.length_append]
    omega

theorem handsOver_iff (p : WirePacket) (ps : List WirePacket) (behind : Memory) :
    HandsOver (receivePackets (p :: ps) behind) ((p :: ps).map WirePacket.bytes) ↔
      ∀ q ∈ p :: ps, q.body.length ≤ 127 := by
  have hat := Memory.at_of ((p :: ps).map WirePacket.bytes).flatten behind
  constructor
  · intro h
    exact short_of_kept hat rfl h.kept
  · intro h σ processRx s
    exact mqttDataReceived_short hat rfl h

/-- A PUBLISH with QoS 0 on the topic `t`, of 125 bytes. -/
def longPublish : WirePacket where
  header := 0x30
  body := 0x00 :: 0x01 :: 0x74 :: List.replicate 125 0x61
  length_le := by simp

theorem longPublish_not_handedOver :
    ¬ HandsOver (receivePackets [longPublish] (fun _ => 0)) [longPublish.bytes] := by
  intro h
  have hat : (Memory.of ([longPublish].map WirePacket.bytes).flatten fun _ => 0).At 0
      (longPublish.bytes ++ ([].map WirePacket.bytes).flatten) := Memory.at_of _ _
  have hshort := short_of_kept hat rfl h.kept longPublish List.mem_cons_self
  simp [longPublish] at hshort

end Packets

end IotClient.Mqtt
