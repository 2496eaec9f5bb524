import IotClient.MqttSn.Parser

/-!
# Datagrams of any contents

`sn_decode` does not learn how many bytes were received: it believes the length at the start of
the datagram, and some of its branches not even that. `Fits` says for each type what a branch
needs of the claimed length and of the bytes that were received; `snDecode_returns` that the
decoder stays inside the datagram, and uses no wild pointer, exactly then.
-/

namespace IotClient.MqttSn

open Mem

/-! ### What the branches need -/

/-- There is room for what the branch of a type reads: `claimed` bytes are left by the length of
the datagram, `received` ones stand behind the type. The branches with `False` store through a
pointer that was never assigned, and WILL_TOPIC_UPD does with a topic. -/
def Fits (claimed : Int) (received : Nat) : SnMessageType → Prop
  | .advertise => 3 ≤ received
  | .searchgw | .connack | .willTopicResp | .willMsgResp => 1 ≤ received
  | .gwinfo => 1 ≤ claimed ∧ claimed ≤ received
  | .connect | .register => 4 ≤ claimed ∧ claimed ≤ received
  | .willTopicReq | .willMsgReq | .pingresp | .encapsulated | .unknown _ => True
  | .willTopic => 1 ≤ received ∧ (0 < claimed → claimed + 1 ≤ received)
  | .willMsg | .willMsgUpd => 0 ≤ claimed ∧ claimed ≤ received
  | .regack | .puback => 5 ≤ received
  | .publish => 6 ≤ claimed ∧ claimed ≤ received
  | .pubrec | .pubrel | .pubcomp | .unsuback => 2 ≤ received
  | .subscribe | .unsubscribe => False
  | .suback => 6 ≤ received
  | .pingreq => claimed ≤ received
  | .disconnect => 0 < claimed → 2 ≤ received
  | .willTopicUpd => claimed ≤ 0

section Body

variable {buf : List UInt8} {i : Nat} {n : Int}

theorem getString_returns :
    Returns (getString buf i n) ↔ 0 ≤ n ∧ (0 < n → i + n ≤ buf.length) :=
  (returns_bind_ok fun _ => returns_ok _).trans copyOut_returns

theorem decodeCode_returns (packet : Nat → SnPacket) :
    Returns (decodeCode packet buf i) ↔ i < buf.length :=
  (returns_bind_ok fun _ => returns_ok _).trans rd_returns

theorem decodeMessageId_returns (packet : UInt16 → SnPacket) :
    Returns (decodeMessageId packet buf i) ↔ i + 1 < buf.length :=
  (returns_bind_ok fun _ => returns_ok _).trans getShort_returns

theorem decodeAck_returns (packet : UInt16 → UInt16 → Nat → SnPacket) :
    Returns (decodeAck packet buf i) ↔ i + 4 < buf.length := by
  refine (returns_bind fun _ _ => returns_bind fun _ _ =>
    returns_bind_ok fun _ => returns_ok _).trans ?_
  rw [getShort_returns, getShort_returns, rd_returns]
  omega

theorem decodePublish_returns :
    Returns (decodePublish buf i n) ↔ 6 ≤ n ∧ i + n ≤ buf.length := by
  unfold decodePublish
  by_cases hdata : n - 1 - 2 - 2 > 0
  · simp only [if_pos hdata]
    refine (returns_bind fun _ _ => returns_bind fun _ _ => returns_bind fun _ _ =>
      returns_bind_ok fun _ => returns_ok _).trans ?_
    rw [rd_returns, getShort_returns, getShort_returns, getString_returns]
    omega
  · simp only [if_neg hdata]
    refine iff_of_false ?_ (by omega)
    rintro ⟨packet, hpacket⟩
    obtain ⟨flags, -, hpacket⟩ := bind_eq_ok.1 hpacket
    obtain ⟨topicId, -, hpacket⟩ := bind_eq_ok.1 hpacket
    obtain ⟨messageId, -, hpacket⟩ := bind_eq_ok.1 hpacket
    cases hpacket

/-- A branch returns when its fields fit. -/
theorem snDecodeBody_returns {received : Nat} (h : buf.length = i + received)
    (t : SnMessageType) : Returns (snDecodeBody buf i n t) ↔ Fits n received t := by
  cases t with
  | advertise =>
    refine (returns_bind fun _ _ => returns_bind_ok fun _ => returns_ok _).trans ?_
    rw [rd_returns, getShort_returns]
    unfold Fits
    omega
  | searchgw | connack | willTopicResp | willMsgResp =>
    simp only [snDecodeBody, Fits, decodeCode_returns]
    omega
  | gwinfo =>
    refine (returns_bind fun _ _ => returns_bind_ok fun _ => returns_ok _).trans ?_
    rw [rd_returns, getString_returns]
    unfold Fits
    omega
  | connect =>
    refine (returns_bind fun _ _ => returns_bind fun _ _ => returns_bind fun _ _ =>
      returns_bind_ok fun _ => returns_ok _).trans ?_
    rw [rd_returns, rd_returns, getShort_returns, getString_returns]
    unfold Fits
    omega
  | register =>
    refine (returns_bind fun _ _ => returns_bind fun _ _ =>
      returns_bind_ok fun _ => returns_ok _).trans ?_
    rw [getShort_returns, getShort_returns, getString_returns]
    unfold Fits
    omega
  | willTopicReq | willMsgReq | pingresp | encapsulated => exact iff_of_true (returns_ok _) trivial
  | unknown b => exact iff_of_true (returns_ok _) trivial
  | willTopic =>
    unfold snDecodeBody Fits
    by_cases hn : n > 0
    · simp only [if_pos hn]
      refine (returns_bind fun _ _ => returns_bind fun _ _ =>
        returns_bind_ok fun _ => returns_ok _).trans ?_
      rw [rd_returns, rd_returns, getString_returns]
      omega
    · simp only [if_neg hn]
      refine (returns_bind_ok fun _ => returns_ok _).trans ?_
      rw [rd_returns]
      omega
  | willMsg | willMsgUpd =>
    refine (returns_bind_ok fun _ => returns_ok _).trans ?_
    rw [getString_returns]
    unfold Fits
    omega
  | regack | puback =>
    simp only [snDecodeBody, Fits, decodeAck_returns]
    omega
  | publish =>
    refine decodePublish_returns.trans ?_
    unfold Fits
    omega
  | pubrec | pubrel | pubcomp | unsuback =>
    simp only [snDecodeBody, Fits, decodeMessageId_returns]
    omega
  | subscribe | unsubscribe =>
    refine (returns_bind fun _ _ => iff_false_intro (not_returns_error _)).trans ?_
    exact ⟨And.right, False.elim⟩
  | suback =>
    refine (returns_bind fun _ _ => decodeAck_returns _).trans ?_
    rw [rd_returns]
    unfold Fits
    omega
  | pingreq =>
    unfold snDecodeBody Fits
    by_cases hn : n > 0
    · simp only [if_pos hn]
      refine (returns_bind_ok fun _ => returns_ok _).trans ?_
      rw [getString_returns]
      omega
    · simp only [if_neg hn]
      exact iff_of_true (returns_ok _) (by omega)
  | disconnect =>
    unfold snDecodeBody Fits
    by_cases hn : n > 0
    · simp only [if_pos hn]
      refine (returns_bind_ok fun _ => returns_ok _).trans ?_
      rw [getShort_returns]
      omega
    · simp only [if_neg hn]
      exact iff_of_true (returns_ok _) (by omega)
  | willTopicUpd =>
    unfold snDecodeBody Fits
    by_cases hn : n > 0
    · simp only [if_pos hn]
      refine (returns_bind fun _ _ => iff_false_intro (not_returns_error _)).trans ?_
      exact ⟨fun h => h.2.elim, fun h => by omega⟩
    · simp only [if_neg hn]
      exact iff_of_true (returns_ok _) (by omega)

end Body

/-! ### The datagram -/

/-- Behind a first byte that is the length. -/
def ShortFits (length : UInt8) : List UInt8 → Prop
  | type :: body => Fits (length.toNat - 2) body.length (.ofByte type)
  | _ => False

/-- Behind a first byte that says the length follows. -/
def LongFits : List UInt8 → Prop
  | hi :: lo :: type :: body =>
    Fits (((hi.toUInt16 <<< 8) ||| lo.toUInt16).toNat - 4) body.length (.ofByte type)
  | _ => False

/-- The length, the type and the body are there, and what the type's branch reads fits. -/
def DatagramFits : List UInt8 → Prop
  | firstLengthByte :: rest =>
    if firstLengthByte = THREE_OCTET_LENGTH_SUFFIX then LongFits rest
    else ShortFits firstLengthByte rest
  | [] => False

/-- The decoder behind the length: `n` is what the length leaves for the body. -/
theorem snDecode_type {buf : List UInt8} {l i : Nat} {type : UInt8} (n : Int)
    (htype : rd buf i = .ok type) (hn : n = l - i - 1) :
    (do
      let bytesLeft : Int := l - i
      let type := SnMessageType.ofByte (← rd buf i)
      let packet ← snDecodeBody buf (i + 1) (bytesLeft - 1) type
      pure (⟨type, packet⟩ : SnMessage)) =
      (do
        let packet ← snDecodeBody buf (i + 1) n (.ofByte type)
        pure ⟨.ofByte type, packet⟩) := by
  rw [htype, ok_bind, hn]

theorem snDecode_short {l type : UInt8} (body : List UInt8) (h : l ≠ THREE_OCTET_LENGTH_SUFFIX) :
    snDecode (l :: type :: body) = (do
      let packet ← snDecodeBody (l :: type :: body) 2 (l.toNat - 2) (.ofByte type)
      pure ⟨.ofByte type, packet⟩) := by
  unfold snDecode
  rw [rd_drop (x := l) (i := 0) rfl, ok_bind, if_neg h, pure_eq_ok, ok_bind]
  exact snDecode_type (l.toNat - 2) (rd_drop (x := type) (i := 1) rfl) (by omega)

theorem snDecode_long {hi lo type : UInt8} (body : List UInt8) :
    snDecode (THREE_OCTET_LENGTH_SUFFIX :: hi :: lo :: type :: body) = (do
      let packet ← snDecodeBody (THREE_OCTET_LENGTH_SUFFIX :: hi :: lo :: type :: body) 4
        (((hi.toUInt16 <<< 8) ||| lo.toUInt16).toNat - 4) (.ofByte type)
      pure ⟨.ofByte type, packet⟩) := by
  unfold snDecode getShort
  rw [rd_drop (x := THREE_OCTET_LENGTH_SUFFIX) (i := 0) rfl, ok_bind, if_pos rfl,
    rd_drop (x := hi) (i := 1) rfl, ok_bind, rd_drop (x := lo) (i := 1 + 1) rfl, ok_bind,
    pure_eq_ok, ok_bind, pure_eq_ok, ok_bind]
  exact snDecode_type _ (rd_drop (x := type) (i := 3) rfl) (by omega)

theorem snDecode_returns (buf : List UInt8) : Returns (snDecode buf) ↔ DatagramFits buf := by
  cases buf with
  | nil =>
    refine iff_of_false ?_ id
    rw [show snDecode [] = .error .readOut from rfl]
    exact not_returns_error _
  | cons l rest =>
    show _ ↔ if l = THREE_OCTET_LENGTH_SUFFIX then LongFits rest else ShortFits l rest
    by_cases hl : l = THREE_OCTET_LENGTH_SUFFIX
    · rw [if_pos hl, hl]
      match rest with
      | hi :: lo :: type :: body =>
        rw [snDecode_long]
        refine (returns_bind_ok fun _ => returns_ok _).trans (snDecodeBody_returns ?_ _)
        simp only [List.length_cons]
        omega
      | [] | [_] | [_, _] => exact iff_of_false (not_returns_error .readOut) id
    · rw [if_neg hl]
      cases rest with
      | cons type body =>
        rw [snDecode_short body hl]
        refine (returns_bind_ok fun _ => returns_ok _).trans (snDecodeBody_returns ?_ _)
        simp only [List.length_cons]
        omega
      | nil =>
        refine iff_of_false ?_ id
        unfold snDecode
        rw [rd_drop (x := l) (i := 0) rfl, ok_bind, if_neg hl, pure_eq_ok, ok_bind]
        exact not_returns_error .readOut

/-- Nothing behind the last byte is read, no negative number of bytes copied, and no pointer
used that is `NULL` or was not set. -/
def Harmless (buf : List UInt8) : Prop := ∀ fault, snDecode buf ≠ .error fault

/-- Harmless are the datagrams that fit. -/
theorem harmless_iff (buf : List UInt8) : Harmless buf ↔ DatagramFits buf := by
  rw [← snDecode_returns]
  unfold Harmless
  cases snDecode buf with
  | ok m => exact iff_of_true (fun fault => nofun) (returns_ok m)
  | error e => exact iff_of_false (fun h => h e rfl) (not_returns_error e)

/-- A WILL_MSG that claims to have no bytes at all: minus two bytes are copied. -/
theorem willMsg_not_harmless :
    snDecode [0, 0x09] = .error .negativeSize ∧
      ¬ ∀ buf : List UInt8, 2 ≤ buf.length → Harmless buf := by
  have herror : snDecode [0, 0x09] = .error .negativeSize := by decide
  exact ⟨herror, fun h => h [0, 0x09] (by decide) _ herror⟩

end IotClient.MqttSn
