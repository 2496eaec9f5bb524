import IotClient.Helpers
import IotClient.Machine.Frames

/-!
# Receiving AMQP frames (`amqp_data_received`)

A read buffer that starts with a frame is cut into its frames (`handsOver_frames`). Behind a
protocol header the rest of the buffer is handed on in one piece, so at most one frame may
follow the header (`handsOver_proto_iff`). The sizes are the peer's, and the loop comes to its end
exactly when they cut the buffer (`receiveEnds_iff`).
-/

namespace IotClient.Amqp

open Mem Machine

/-- `get_int` on memory. -/
def frameLength (buf : Memory) (i : Nat) : Int :=
  (((buf i).toUInt32 <<< 24) ||| ((buf (i + 1)).toUInt32 <<< 16) |||
    ((buf (i + 2)).toUInt32 <<< 8) ||| (buf (i + 3)).toUInt32).toInt32.toInt

/-- `amqp_data_received`, with `processAmqpRx` as what `process_amqp_rx` does to a state and a
bound on the rounds of the loop. -/
def amqpDataReceived (fuel : Nat) (buf : Memory) (readableBytes : Nat) {σ : Type}
    (processAmqpRx : σ → List UInt8 → Run σ) (s : σ) : Run σ :=
  let length := frameLength buf 0
  -- the letters `AMQP`
  if length = 1095586128 then
    let protocolId := buf 4
    if (protocolId = 0 ∨ protocolId = 3) ∧ buf 5 = 1 ∧ buf 6 = 0 ∧ buf 7 = 0 ∧
        8 < readableBytes then do
      let s ← processAmqpRx s (buf.slice 0 8)
      processAmqpRx s (buf.slice 8 (readableBytes - 8))
    else processAmqpRx s (buf.slice 0 readableBytes)
  else cutLoop buf readableBytes (frameLength buf) processAmqpRx fuel 0 length s

/-- What a read buffer `bytes` is handed on as. -/
def receive (fuel : Nat) (bytes : List UInt8) (behind : Memory) (σ : Type)
    (processAmqpRx : σ → List UInt8 → Run σ) (s : σ) : Run σ :=
  amqpDataReceived fuel (.of bytes behind) bytes.length processAmqpRx s

/-- A complete frame: its size and what follows. -/
structure WireFrame where
  rest : List UInt8
  four_le : 4 ≤ rest.length

def WireFrame.size (f : WireFrame) : List UInt8 := intBytes (UInt32.ofNat (4 + f.rest.length))

def WireFrame.bytes (f : WireFrame) : List UInt8 := f.size ++ f.rest

/-- The letters `AMQP`. -/
def letters : List UInt8 := [0x41, 0x4d, 0x51, 0x50]

/-- An AMQP 1.0 protocol header. -/
def protoBytes (protocolId : UInt8) : List UInt8 := letters ++ [protocolId, 1, 0, 0]

variable {buf : Memory} {i n : Nat} {f : WireFrame} {fs : List WireFrame}

theorem getInt_slice : getInt (buf.slice i 4) 0 = .ok (frameLength buf i) := rfl

theorem frameLength_at (h : buf.At i (intBytes (UInt32.ofNat n))) (hn : n < 2 ^ 31) :
    frameLength buf i = n := by
  have hget : getInt (buf.slice i 4) 0 = .ok (n : Int) :=
    getInt_size hn (r := []) (by rw [List.drop_zero, List.append_nil]; exact h)
  rw [getInt_slice] at hget
  exact Except.ok.inj hget

theorem WireFrame.length_bytes (f : WireFrame) : f.bytes.length = 4 + f.rest.length := by
  unfold bytes
  rw [List.length_append]
  rfl

theorem WireFrame.forall_pos (fs : List WireFrame) : ∀ g ∈ fs.map bytes, 0 < g.length := by
  intro g hg
  obtain ⟨f, -, rfl⟩ := List.mem_map.mp hg
  rw [f.length_bytes]
  omega

theorem WireFrame.frameLength_at (h : buf.At i f.bytes) (hlt : f.bytes.length < 2 ^ 31) :
    frameLength buf i = f.bytes.length := by
  rw [f.length_bytes] at hlt ⊢
  exact Amqp.frameLength_at (Memory.at_append.mp h).1 hlt

/-- In a buffer of less than `2^31` bytes every size is right. -/
theorem sizesRight (fs : List WireFrame) : ∀ {i : Nat},
    buf.At i (fs.map WireFrame.bytes).flatten →
      (fs.map WireFrame.bytes).flatten.length < 2 ^ 31 →
      SizesRight (frameLength buf) i (fs.map WireFrame.bytes) := by
  induction fs with
  | nil => exact fun _ _ => trivial
  | cons f fs ih =>
    intro i hat hlt
    rw [List.map_cons, List.flatten_cons] at hat hlt
    rw [List.length_append] at hlt
    obtain ⟨hf, hfs⟩ := Memory.at_append.mp hat
    exact ⟨f.frameLength_at hf (by omega), ih hfs (by omega)⟩

/-- The size of a frame that does not spell the letters is another number. -/
theorem length_ne_letters (h : f.size ≠ letters) : f.bytes.length ≠ 1095586128 := by
  intro hlen
  rw [f.length_bytes] at hlen
  apply h
  unfold WireFrame.size
  rw [hlen]
  decide

theorem handsOver_frames {fuel : Nat} (f : WireFrame) (fs : List WireFrame) (behind : Memory)
    (hfirst : f.size ≠ letters)
    (htotal : ((f :: fs).map WireFrame.bytes).flatten.length < 2 ^ 31)
    (hfuel : (f :: fs).length ≤ fuel) :
    HandsOver (receive fuel ((f :: fs).map WireFrame.bytes).flatten behind)
      ((f :: fs).map WireFrame.bytes) := by
  intro σ processAmqpRx s
  have hat := Memory.at_of ((f :: fs).map WireFrame.bytes).flatten behind
  have hsizes := sizesRight (f :: fs) hat htotal
  have hne := length_ne_letters hfirst
  unfold receive amqpDataReceived
  rw [hsizes.1]
  simp only
  rw [if_neg (by omega)]
  refine cutLoop_eq processAmqpRx _ (WireFrame.forall_pos fs) hat (Nat.zero_add _).symm hsizes.2 ?_
  rw [List.length_map]
  exact hfuel

/-! ### Behind a protocol header -/

section Proto

variable {fuel : Nat} {protocolId : UInt8} {rest : List UInt8} {behind : Memory} {σ : Type}
  {processAmqpRx : σ → List UInt8 → Run σ} {s : σ}

/-- The header and, if there is more, the rest in one piece. -/
theorem receive_proto (hid : protocolId = 0 ∨ protocolId = 3) :
    receive fuel (protoBytes protocolId ++ rest) behind σ processAmqpRx s =
      if rest = [] then processAmqpRx s (protoBytes protocolId)
      else processAmqpRx s (protoBytes protocolId) >>= fun s => processAmqpRx s rest := by
  obtain ⟨hhead, hrest⟩ := Memory.at_append.mp (Memory.at_of (protoBytes protocolId ++ rest) behind)
  have hlen : (protoBytes protocolId ++ rest).length = 8 + rest.length := by
    rw [List.length_append]
    rfl
  have hletters : frameLength (.of (protoBytes protocolId ++ rest) behind) 0 = 1095586128 := by
    refine frameLength_at (n := 1095586128) ?_ (by decide)
    exact (Memory.at_append.mp hhead).1
  unfold receive amqpDataReceived
  simp only
  rw [if_pos hletters, hlen, Nat.add_sub_cancel_left]
  by_cases h : rest = []
  · subst h
    rw [if_pos rfl, if_neg (fun hlt => absurd hlt.2.2.2.2 (by simp))]
    rw [List.append_nil] at hhead ⊢
    rw [List.length_nil]
    exact congrArg (processAmqpRx s) hhead
  · have hpos : 0 < rest.length := List.length_pos_of_ne_nil h
    rw [if_neg h, if_pos ⟨hid, rfl, rfl, rfl, by omega⟩]
    have h1 : (Memory.of (protoBytes protocolId ++ rest) behind).slice 0 8 =
      protoBytes protocolId := hhead
    have h2 : (Memory.of (protoBytes protocolId ++ rest) behind).slice 8 rest.length = rest :=
      hrest
    rw [h1, h2]

/-- No more than two pieces are handed on. -/
theorem length_le_of_kept (hid : protocolId = 0 ∨ protocolId = 3) (fs : List WireFrame)
    (h : receive fuel (protoBytes protocolId ++ (fs.map WireFrame.bytes).flatten) behind _ keep []
      = .ok (protoBytes protocolId :: fs.map WireFrame.bytes)) : fs.length ≤ 1 := by
  have hlen : ∀ pieces : List (List UInt8), pieces.length ≤ 2 →
      (Except.ok pieces : Run _) = .ok (protoBytes protocolId :: fs.map WireFrame.bytes) →
      fs.length ≤ 1 := by
    intro pieces hle heq
    have := congrArg List.length (Except.ok.inj heq)
    rw [List.length_cons, List.length_map] at this
    omega
  rw [receive_proto hid] at h
  split at h
  · exact hlen [_] (Nat.le_succ 1) h
  · exact hlen [_, _] (Nat.le_refl 2) h

theorem handsOver_proto_iff (hid : protocolId = 0 ∨ protocolId = 3) (fs : List WireFrame) :
    HandsOver (receive fuel (protoBytes protocolId ++ (fs.map WireFrame.bytes).flatten) behind)
      (protoBytes protocolId :: fs.map WireFrame.bytes) ↔ fs.length ≤ 1 := by
  constructor
  · intro h
    exact length_le_of_kept hid fs h.kept
  · intro hle σ processAmqpRx s
    rw [receive_proto hid]
    match fs, hle with
    | [], _ =>
      rw [List.map_nil, List.flatten_nil, if_pos rfl]
      exact (bind_pure _).symm
    | [f], _ =>
      have hne : ([f].map WireFrame.bytes).flatten ≠ [] := by
        intro hnil
        have hlen := congrArg List.length hnil
        simp [f.length_bytes] at hlen
      rw [if_neg hne, List.map_singleton, List.flatten_singleton, List.foldlM_cons]
      congr 1
      funext s
      exact (bind_pure _).symm

end Proto

/-! ### The end of the loop -/

/-- The loop comes to an end, whatever is done with the pieces, and each of its rounds moves the
cursor, an `int`, on. -/
structure ReceiveEnds (buf : Memory) (readableBytes : Nat) : Prop where
  ends : ∀ {σ : Type} (processAmqpRx : σ → List UInt8 → Run σ),
    (∀ s piece, processAmqpRx s piece ≠ .error .fuel) →
      ∀ s, ∃ fuel, amqpDataReceived fuel buf readableBytes processAmqpRx s ≠ .error .fuel
  advances : frameLength buf 0 ≠ 1095586128 → ∀ i, Round readableBytes (frameLength buf) 0 i →
    Advances (2 ^ 31) (frameLength buf) i

section Ends

variable {σ : Type} {processAmqpRx : σ → List UInt8 → Run σ} {s : σ} {readableBytes fuel : Nat}

/-- Behind the letters there is no loop. -/
theorem amqpDataReceived_letters (hhand : ∀ s piece, processAmqpRx s piece ≠ .error .fuel)
    (h : frameLength buf 0 = 1095586128) :
    amqpDataReceived fuel buf readableBytes processAmqpRx s ≠ .error .fuel := by
  unfold amqpDataReceived
  simp only [if_pos h]
  split
  · cases hs : processAmqpRx s (buf.slice 0 8) with
    | error e => exact fun herror => hhand _ _ (hs.trans herror)
    | ok s' => exact hhand _ _
  · exact hhand _ _

theorem amqpDataReceived_loop (h : frameLength buf 0 ≠ 1095586128) :
    amqpDataReceived fuel buf readableBytes processAmqpRx s =
      cutLoop buf readableBytes (frameLength buf) processAmqpRx fuel 0 (frameLength buf 0) s := by
  unfold amqpDataReceived
  simp only [if_neg h]

/-- The loop ends when there is none, or the lengths cut the buffer. -/
theorem receiveEnds_iff : ReceiveEnds buf readableBytes ↔ frameLength buf 0 = 1095586128 ∨
    ∃ ls, Cuts readableBytes (2 ^ 31) (frameLength buf) 0 ls := by
  constructor
  · intro h
    rcases Decidable.em (frameLength buf 0 = 1095586128) with hletters | hletters
    · exact .inl hletters
    · exact .inr (advances_iff_cuts.1 (h.advances hletters))
  · rintro (hletters | ⟨ls, hls⟩)
    · exact ⟨fun _ hhand _ => ⟨0, amqpDataReceived_letters hhand hletters⟩,
        fun hne => absurd hletters hne⟩
    · refine ⟨fun _ hhand s => ?_, fun _ => advances_iff_cuts.2 ⟨ls, hls⟩⟩
      rcases Decidable.em (frameLength buf 0 = 1095586128) with hletters | hletters
      · exact ⟨0, amqpDataReceived_letters hhand hletters⟩
      · refine ⟨ls.length, ?_⟩
        rw [amqpDataReceived_loop hletters]
        exact cutLoop_cuts hhand hls s

end Ends

/-- A buffer of zeros is received for ever. -/
theorem zeros_not_ended : (∀ fuel, amqpDataReceived fuel (fun _ => 0) 8 keep [] = .error .fuel) ∧
    ¬ ReceiveEnds (fun _ => 0) 8 := by
  have hstuck : ∀ fuel, amqpDataReceived fuel (fun _ => 0) 8 keep [] = .error .fuel := by
    intro fuel
    rw [amqpDataReceived_loop (by decide)]
    exact cutLoop_stuck (fun log piece => ⟨log ++ [piece], rfl⟩) (by decide) (by decide) fuel []
  refine ⟨hstuck, fun h => ?_⟩
  obtain ⟨fuel, hends⟩ := h.ends keep (fun _ _ => nofun) []
  exact hends (hstuck fuel)

/-- A frame without a body, which is a ping. -/
def pingFrame : WireFrame := ⟨[2, 0, 0, 0], Nat.le_refl 4⟩

theorem handsOver_frames_ping :
    HandsOver (receive 2 ([pingFrame, pingFrame].map WireFrame.bytes).flatten fun _ => 0xff)
      ([pingFrame, pingFrame].map WireFrame.bytes) :=
  handsOver_frames pingFrame [pingFrame] (fun _ => 0xff) (by decide) (by decide) (by decide)

theorem handsOver_proto_iff_ping :
    HandsOver (receive 1 (protoBytes 3 ++ ([pingFrame].map WireFrame.bytes).flatten) fun _ => 0)
      (protoBytes 3 :: [pingFrame].map WireFrame.bytes) ↔ [pingFrame].length ≤ 1 :=
  handsOver_proto_iff (.inr rfl) [pingFrame]

theorem twoFrames_not_handedOver :
    ¬ HandsOver
      (receive 3 (protoBytes 0 ++ ([pingFrame, pingFrame].map WireFrame.bytes).flatten) fun _ => 0)
      (protoBytes 0 :: [pingFrame, pingFrame].map WireFrame.bytes) := by
  intro h
  exact absurd (length_le_of_kept (.inl rfl) _ h.kept) (by decide)

end IotClient.Amqp
