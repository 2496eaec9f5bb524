import IotClient.Amqp.ListFits

/-!
# Any bytes that arrive

`process_amqp_rx` on any eight bytes or more, whatever the client did before. It does nothing undefined,
and drops what it cannot read, exactly on an announcement and on the frames of `FrameFits`
(`incoming_harmless_iff`). A `NULL` from `amqp_decode`, and the header that it makes of a ping, are
dereferenced.
-/

namespace IotClient.Amqp

open Mem Machine

/-- `process_amqp_rx` -/
def Client.processBytes (c : Client) (data : List UInt8) : Run Client := do
  c.processAmqpRx (← (← amqpDecode data data.length).deref)

/-- `amqp_decode` returns `NULL`, or a header without a packet. -/
def Rejected (data : List UInt8) : Prop :=
  amqpDecode data data.length = .ok .null ∨
    ∃ header, amqpDecode data data.length = .ok (.ref header) ∧ header.packet = .indet

/-- Nothing undefined is done with the bytes, and they change nothing if they are rejected. -/
structure Harmless (c : Client) (data : List UInt8) : Prop where
  returns : Returns (c.processBytes data)
  /-- the mechanism of the answer, which `amqp_encode` looks at -/
  mechanism : ∀ header m, amqpDecode data data.length = .ok (.ref header) →
    header.packet = .ref (.mechanisms m) → Returns m.mechanisms.deref
  rejected : Rejected data → ∀ t, c.processBytes data = .ok t → Dropped c t

/-- The letters of an announcement. -/
def amqpLetters : UInt32 := 0x414d5150

/-- An announcement, or a frame of the length it says with a list that fits. -/
inductive FrameFits (account : Account) : List UInt8 → Prop where
  | announcement {doff : UInt8} (h : doff = 3 ∨ doff = 0) :
      FrameFits account (rawFrame amqpLetters doff 1 0 [])
  | list {n : UInt32} {doff type : UInt8} {channel : UInt16} {out rest : List UInt8}
      {list : TlvAmqp} {code : UInt8} (length : n.toInt32.toInt = 8 + (out ++ rest).length)
      (frameType : type = 0 ∨ type = 1)
      (not_letters : ¬ (n = amqpLetters ∧ (doff = 3 ∨ doff = 0) ∧ type = 1 ∧ channel = 0))
      (node : Node out list) (described : list.Described code)
      (fits : CodeFits account list rest (HeaderCode.ofByte code)) :
      FrameFits account (rawFrame n doff type channel (out ++ rest))

section Bytes

variable {c : Client} {data out rest : List UInt8} {list : TlvAmqp} {code doff type : UInt8}
  {channel readableBytes : Int}

theorem harmless_iff_handled : Harmless c data ↔
    ∃ header, amqpDecode data data.length = .ok (.ref header) ∧ Handled c header := by
  constructor
  · intro h
    obtain ⟨t, ht⟩ := h.returns
    obtain ⟨p, hp, ht⟩ := bind_eq_ok.1 ht
    obtain ⟨header, hheader, ht⟩ := bind_eq_ok.1 ht
    obtain rfl := Ptr.deref_eq_ok.1 hheader
    have hprocess : c.processBytes data = c.processAmqpRx header := by
      unfold Client.processBytes
      rw [hp]
      rfl
    refine ⟨header, hp, ⟨t, ht⟩, fun m hm => h.mechanism header m hp hm, fun hindet u hu => ?_⟩
    exact h.rejected (.inr ⟨header, hp, hindet⟩) u (hprocess.trans hu)
  · rintro ⟨header, hp, hh⟩
    have hprocess : c.processBytes data = c.processAmqpRx header := by
      unfold Client.processBytes
      rw [hp]
      rfl
    refine ⟨hprocess ▸ hh.returns, fun header' m hheader hm => ?_, fun hrejected t ht => ?_⟩
    · rw [hp] at hheader
      cases hheader
      exact hh.mechanism m hm
    · rcases hrejected with hnull | ⟨header', hheader, hindet⟩
      · rw [hp] at hnull
        cases hnull
      · rw [hp] at hheader
        cases hheader
        exact hh.rejected hindet t (hprocess.symm.trans ht)

theorem frame_handled_iff (hc : Client.Inv c) (hd : data.drop 8 = out ++ rest)
    (hnode : Node out list) (hcode : list.Described code)
    (hlen : readableBytes + 8 = data.length) :
    (∃ header, decodeFrame data readableBytes doff type channel = .ok header ∧ Handled c header) ↔
      CodeFits c.account list rest (HeaderCode.ofByte code) := by
  by_cases htransfer : code = HeaderCode.transfer.toByte
  · subst htransfer
    exact transfer_handled_iff hd hnode hcode hlen
  · rw [← listHandled_iff doff type channel hc hnode.made htransfer,
      decodeFrame_node hd hnode hcode htransfer]
    constructor
    · rintro ⟨header, hheader, hh⟩
      obtain ⟨r, hr, hheader⟩ := bind_eq_ok.1 hheader
      cases hheader
      exact ⟨r, hr, hh⟩
    · rintro ⟨r, hr, hh⟩
      exact ⟨_, bind_eq_ok.2 ⟨r, hr, rfl⟩, hh⟩

/-- An announcement is answered if it is not one of SASL. -/
theorem handled_announcement : Handled c (announcement doff) := by
  refine (handled_of_ref (k := .proto) rfl rfl (by decide)).2 ?_
  show Returns (if ((doff.toNat : Nat) : Int) = 0 then _ else _)
  split <;> exact returns_ok _

theorem letters_toInt {n : UInt32} : n.toInt32.toInt = 1095586128 ↔ n = amqpLetters := by
  constructor
  · intro h
    have hletters : amqpLetters.toInt32.toInt = 1095586128 := by decide
    exact congrArg Int32.toUInt32 (Int32.toInt_inj.1 (h.trans hletters.symm))
  · rintro rfl
    decide

theorem short_toInt {s : UInt16} : s.toInt16.toInt = 0 ↔ s = 0 := by
  constructor
  · intro h
    have hzero : (0 : UInt16).toInt16.toInt = 0 := by decide
    exact congrArg Int16.toUInt16 (Int16.toInt_inj.1 (h.trans hzero.symm))
  · rintro rfl
    decide

theorem harmless_iff_fits (hc : Client.Inv c) (h8 : 8 ≤ data.length) :
    Harmless c data ↔ FrameFits c.account data := by
  rw [harmless_iff_handled]
  constructor
  · rintro ⟨header, hheader, hh⟩
    obtain ⟨n, doff, type, channel, body, rfl⟩ := exists_rawFrame h8
    rw [amqpDecode_rawFrame] at hheader
    split at hheader
    case isTrue =>
      -- a ping comes without a code
      split at hheader
      · cases hheader
        obtain ⟨t, ht⟩ := hh.returns
        cases ht
      · cases hheader
    split at hheader
    case isTrue hproto =>
      obtain ⟨hn, hdoff, rfl, hchannel⟩ := hproto
      obtain rfl := letters_toInt.1 hn
      obtain rfl := short_toInt.1 hchannel
      split at hheader
      case isTrue hnil =>
        subst hnil
        exact .announcement hdoff
      case isFalse => cases hheader
    case isFalse hproto =>
      split at hheader
      case isTrue => cases hheader
      split at hheader
      case isFalse => cases hheader
      case isTrue hn htype =>
        obtain ⟨decoded, hdecode, rfl⟩ := map_ref_ok hheader
        obtain ⟨r, hr, -⟩ := bind_eq_ok.1 hdecode
        obtain ⟨out, rest, list, code, hd, hnode, hcode⟩ := exists_node_of_getAmqp hr
        have hlen : (body.length : Int) + 8 = (rawFrame n doff type channel body).length := by
          rw [length_rawFrame]
          omega
        have hfits := (frame_handled_iff hc hd hnode hcode hlen).1 ⟨_, hdecode, hh⟩
        rw [rawFrame_drop] at hd
        subst hd
        rw [letters_toInt, short_toInt] at hproto
        exact .list (by omega) htype hproto hnode hcode hfits
  · intro hfits
    cases hfits with
    | @announcement doff hdoff =>
      refine ⟨announcement doff, ?_, handled_announcement⟩
      rw [amqpDecode_rawFrame, if_neg, if_pos, if_pos rfl]
      · exact ⟨by decide, hdoff, rfl, by decide⟩
      · intro hping
        exact absurd hping.1 (by decide)
    | @list n doff type channel out rest list code length frameType not_letters node described fits =>
      have hne : out ++ rest ≠ [] :=
        List.append_ne_nil_of_left_ne_nil (List.ne_nil_of_length_pos node.length_pos) rest
      rw [← letters_toInt, ← short_toInt] at not_letters
      have hlen : ((out ++ rest).length : Int) + 8 =
          (rawFrame n doff type channel (out ++ rest)).length := by
        rw [length_rawFrame]
        omega
      obtain ⟨header, hheader, hh⟩ :=
        (frame_handled_iff hc rawFrame_drop node described hlen).2 fits
      refine ⟨header, ?_, hh⟩
      rw [amqpDecode_sized (by omega) hne frameType not_letters, hheader]
      rfl

end Bytes

/-! ### Runs -/

/-- What can happen to the client: `init_amqp_client`, the calls of the application and the timers,
and bytes that arrive. -/
inductive Input where
  | account (account : Account)
  | connect
  | sendTransfer (content topicName : CString) (qos retain dup : Int)
  | sendAttach (topicName : CString) (qos : Int)
  | sendDetach (topicName : CString)
  | sendEnd
  | sendPing
  | receive (data : List UInt8)

def Client.input (c : Client) : Input → Run Client
  | .account account => .ok { c with account }
  | .connect => .ok (c.sendAmqpProtoHeader 3)
  | .sendTransfer content topicName qos retain dup =>
    .ok (c.sendAmqpTransfer content topicName qos retain dup)
  | .sendAttach topicName qos => .ok (c.sendAmqpAttach topicName qos)
  | .sendDetach topicName => .ok (c.sendAmqpDetach topicName)
  | .sendEnd => .ok c.sendAmqpEnd
  | .sendPing => .ok c.sendAmqpPing
  | .receive data => c.processBytes data

namespace Client

variable {c t : Client}

/-- No delivery id is given out and no transfer queued. -/
structure Keeps (c t : Client) : Prop where
  packetIdCounter : t.packetIdCounter = c.packetIdCounter
  mHandler : ∀ k message, t.mHandler k = some message → c.mHandler k = some message

theorem Keeps.inv (h : Keeps c t) (hc : Inv c) : Inv t :=
  hc.of_handlers (Int.le_of_eq h.packetIdCounter.symm) h.mHandler

theorem keeps_of_eq (hcounter : t.packetIdCounter = c.packetIdCounter)
    (hm : t.mHandler = c.mHandler) : Keeps c t :=
  ⟨hcounter, fun _ _ h => hm ▸ h⟩

theorem keeps_receiverAttach {name : CString} (h : c.processReceiverAttach name = .ok t) :
    Keeps c t := by
  have herase (k : UInt16) {l : UInt16} {message : AmqpHeader}
      (hm : c.mHandler.erase k l = some message) : c.mHandler l = some message := by
    rw [Table.erase_apply] at hm
    split at hm
    · cases hm
    · exact hm
  unfold processReceiverAttach at h
  dsimp only at h
  split at h
  case isFalse =>
    cases h
    exact keeps_of_eq rfl rfl
  case isTrue =>
    split at h
    case h_2 =>
      cases h
      exact keeps_of_eq rfl rfl
    case h_1 =>
      obtain ⟨transfer, -, h⟩ := bind_eq_ok.1 h
      obtain ⟨settled, -, h⟩ := bind_eq_ok.1 h
      cases settled with
      | true =>
        cases h
        exact ⟨rfl, fun _ _ hm => herase _ hm⟩
      | false =>
        obtain ⟨deliveryId, -, h⟩ := bind_eq_ok.1 h
        cases h
        exact ⟨rfl, fun _ _ hm => herase _ hm⟩

theorem keeps_processAttach {header : AmqpHeader} (h : c.processAttach header = .ok t) :
    Keeps c t := by
  obtain ⟨attach, -, h⟩ := bind_eq_ok.1 h
  obtain ⟨hasRole, -, h⟩ := bind_eq_ok.1 h
  cases hasRole with
  | false =>
    cases h
    exact keeps_of_eq rfl rfl
  | true =>
    obtain ⟨role, -, h⟩ := bind_eq_ok.1 h
    cases role with
    | receiver =>
      obtain ⟨name, -, h⟩ := bind_eq_ok.1 h
      exact keeps_receiverAttach h
    | sender =>
      obtain ⟨name, -, h⟩ := bind_eq_ok.1 h
      obtain ⟨handle, -, h⟩ := bind_eq_ok.1 h
      cases h
      have hlinks := sameLinks_senderAttach (c := c) name handle
      exact keeps_of_eq hlinks.packetIdCounter hlinks.mHandler

theorem keeps_processTransfer {header : AmqpHeader} (h : c.processTransfer header = .ok t) :
    Keeps c t := by
  obtain ⟨transfer, -, h⟩ := bind_eq_ok.1 h
  obtain ⟨settled, -, h⟩ := bind_eq_ok.1 h
  cases settled with
  | true =>
    rw [copySection_ok h]
    exact keeps_of_eq rfl rfl
  | false =>
    obtain ⟨deliveryId, -, h⟩ := bind_eq_ok.1 h
    rw [copySection_ok h]
    exact keeps_of_eq rfl rfl

theorem keeps_processAmqpRx {header : AmqpHeader} (h : c.processAmqpRx header = .ok t) :
    Keeps c t := by
  obtain ⟨code, -, h⟩ := bind_eq_ok.1 h
  split at h
  case h_1 =>
    obtain ⟨proto, -, h⟩ := bind_eq_ok.1 h
    obtain ⟨protocolId, -, h⟩ := bind_eq_ok.1 h
    split at h <;>
      · cases h
        exact keeps_of_eq rfl rfl
  case h_2 =>
    -- the maps are emptied
    cases h
    exact ⟨rfl, fun _ _ hm => by cases hm⟩
  case h_4 =>
    have hkeeps := keeps_processAttach h
    exact ⟨hkeeps.packetIdCounter, hkeeps.mHandler⟩
  case h_5 =>
    have hkeeps := keeps_processTransfer h
    exact ⟨hkeeps.packetIdCounter, hkeeps.mHandler⟩
  case h_6 =>
    obtain ⟨disposition, -, h⟩ := bind_eq_ok.1 h
    obtain ⟨first, -, h⟩ := bind_eq_ok.1 h
    split at h <;>
      · cases h
        exact keeps_of_eq rfl rfl
  case h_7 =>
    obtain ⟨detach, -, h⟩ := bind_eq_ok.1 h
    obtain ⟨handle, -, h⟩ := bind_eq_ok.1 h
    split at h <;>
      · cases h
        exact keeps_of_eq rfl rfl
  case h_10 =>
    obtain ⟨mechanisms, -, h⟩ := bind_eq_ok.1 h
    dsimp only at h
    split at h
    case h_4 => cases h
    all_goals
      obtain ⟨mechanism, -, h⟩ := bind_eq_ok.1 h
      obtain ⟨username, -, h⟩ := bind_eq_ok.1 h
      obtain ⟨password, -, h⟩ := bind_eq_ok.1 h
      cases h
      exact keeps_of_eq rfl rfl
  case h_11 =>
    obtain ⟨outcome, -, h⟩ := bind_eq_ok.1 h
    obtain ⟨outcomeCode, -, h⟩ := bind_eq_ok.1 h
    split at h <;>
      · cases h
        exact keeps_of_eq rfl rfl
  all_goals
    cases h
    exact keeps_of_eq rfl rfl

/-- Whatever happens, the queued transfers are those that the client made. -/
theorem input_inv (hc : Inv c) {i : Input} (h : c.input i = .ok t) : Inv t := by
  cases i with
  | account | connect | sendEnd | sendPing =>
    cases h
    exact Keeps.inv (c := c) (keeps_of_eq rfl rfl) hc
  | sendTransfer content topicName qos retain dup =>
    exact (effect_of_step hc (e := .sendTransfer content topicName qos retain dup) h).inv hc
  | sendAttach topicName qos =>
    exact (effect_of_step hc (e := .sendAttach topicName qos) h).inv hc
  | sendDetach topicName => exact (effect_of_step hc (e := .sendDetach topicName) h).inv hc
  | receive data =>
    obtain ⟨p, -, h⟩ := bind_eq_ok.1 h
    obtain ⟨header, -, h⟩ := bind_eq_ok.1 h
    exact (keeps_processAmqpRx h).inv hc

theorem run_inv {inputs : List Input} (hc : Inv c) (h : run input c inputs = .ok t) : Inv t :=
  run_keeps (P := Inv) (G := fun _ _ => True) (fun _ _ _ _ hs _ ht => input_inv hs ht) hc
    (fun _ _ _ _ _ => trivial) h

end Client

/-- In every state of every run, bytes that arrive are harmless if and only if they are an announcement
or a frame that fits. -/
theorem incoming_harmless_iff {account : Account} (inputs : List Input) {c : Client}
    (h : run Client.input (.init account) inputs = .ok c) {data : List UInt8}
    (h8 : 8 ≤ data.length) : Harmless c data ↔ FrameFits c.account data :=
  harmless_iff_fits (Client.run_inv (Client.fresh_init account).inv h) h8

/-- A CLOSE with an empty list. -/
def closeFrame : List UInt8 := [0, 0, 0, 12, 2, 0, 0, 0, 0, 0x53, 0x18, 0x45]

theorem closeFrame_fits (account : Account) : FrameFits account closeFrame := by
  have hcode : Node [0x53, 0x18] _ := .mk (.plain (by decide)) (.fixed (t := .smallUlong) rfl)
  have hlist : Node [0, 0x53, 0x18, 0x45] _ := .mk (.described 0x45 hcode) (.fixed (t := .list0) rfl)
  have hfits := @FrameFits.list account 12 2 0 0 _ [] _ _ (by decide) (.inl rfl) (by decide) hlist
    ⟨_, _, [], rfl, rfl, rfl⟩ trivial
  exact hfits

theorem incoming_harmless_iff_close : Harmless (.init .anonymous) closeFrame :=
  (incoming_harmless_iff [] rfl (by decide)).2 (closeFrame_fits .anonymous)

/-- A header that says that a ninth byte follows. -/
def shortFrame : List UInt8 := [0, 0, 0, 9, 2, 0, 0, 0]

/-- `amqp_decode` returns `NULL`, and its code is read. -/
theorem shortFrame_not_harmless : ¬ Harmless (.init .anonymous) shortFrame := by
  intro h
  obtain ⟨t, ht⟩ := h.returns
  cases ht

end IotClient.Amqp
