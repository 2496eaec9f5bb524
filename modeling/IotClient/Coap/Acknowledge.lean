import IotClient.Coap.Session

/-!
# Acknowledging CoAP messages

A confirmable POST or PUT should be answered by one acknowledgement with its message id and its
token, a non-confirmable message or an acknowledgement by none. A topic makes the client
acknowledge twice, and a non-confirmable message is taken for a confirmable one
(`answersRight_iff`).
-/

namespace IotClient.Coap

open Mem Machine

/-- `d` is an acknowledgement with the message id and the token of `data`. -/
structure Echoes (d data : List UInt8) : Prop where
  type : typeBits d = CoapType.acknowledgement.value
  messageId : idBytes d = idBytes data
  tokenLength : tokenLength d = tokenLength data
  token : tokenBytes d = tokenBytes data

variable {data out : List UInt8} {m : CoapMessage} {token : CString}

theorem ack_bits {k : Nat} (hk : k ≤ 8) :
    (firstByte 1 CoapType.acknowledgement.value (UInt16.ofNat k) >>> 4 &&& 3).toNat =
        CoapType.acknowledgement.value ∧
      (firstByte 1 CoapType.acknowledgement.value (UInt16.ofNat k) &&& 0xf).toNat = k := by
  have hall : ∀ k < 9, (firstByte 1 CoapType.acknowledgement.value (UInt16.ofNat k) >>> 4 &&& 3).toNat =
        CoapType.acknowledgement.value ∧
      (firstByte 1 CoapType.acknowledgement.value (UInt16.ofNat k) &&& 0xf).toNat = k := by decide
  exact hall k (by omega)

/-- What the encoding of an acknowledgement with a token echoes. -/
theorem echoes_iff (hversion : m.version = 1) (htype : m.type = CoapType.acknowledgement.value)
    (htoken : token.strlen ≤ 8) : Echoes (headBytes m token ++ out) data ↔
      idBytes data = shortBytes m.messageId ∧ tokenLength data = token.strlen ∧
        tokenBytes data = token.bytes := by
  obtain ⟨hbits, hlen⟩ := ack_bits htoken
  have hlength : tokenLength (headBytes m token ++ out) = token.strlen := by
    rw [← hlen, ← hversion, ← htype]
    rfl
  have hid : idBytes (headBytes m token ++ out) = shortBytes m.messageId := rfl
  have hbytes : tokenBytes (headBytes m token ++ out) = token.bytes := by
    unfold tokenBytes
    rw [hlength]
    change (token.bytes ++ out).take token.bytes.length = token.bytes
    exact List.take_left
  constructor
  · intro h
    exact ⟨h.messageId.symm.trans hid, h.tokenLength.symm.trans hlength,
      h.token.symm.trans hbytes⟩
  · rintro ⟨hid', hlength', hbytes'⟩
    refine ⟨?_, hid.trans hid'.symm, hlength.trans hlength'.symm, hbytes.trans hbytes'.symm⟩
    rw [← hbits, ← hversion, ← htype]
    rfl

theorem ofBytes_eq_self {bytes : List UInt8} : (CString.ofBytes bytes).bytes = bytes ↔ 0 ∉ bytes := by
  constructor
  · intro h hmem
    rw [← h] at hmem
    exact (CString.ofBytes bytes).nulFree hmem
  · intro h
    rw [CString.ofBytes_of_nulFree h]

theorem strlen_ofBytes_le (bytes : List UInt8) : (CString.ofBytes bytes).strlen ≤ bytes.length :=
  (List.takeWhile_prefix _).length_le

namespace Client

variable {c t : Client} {length : Int} {isOk : Bool} {account : Account} {es : List Event}

def Acknowledges (c : Client) (data : List UInt8) (length : Int) : Prop :=
  ∃ t d, c.processCoapRx data length = .ok t ∧ t.datagrams = c.datagrams ++ [d.map some] ∧
    Echoes d data

def Silent (c : Client) (data : List UInt8) (length : Int) : Prop :=
  ∃ t, c.processCoapRx data length = .ok t ∧ t.datagrams = c.datagrams

/-- What a datagram that is decoded to `m` is answered with. -/
def AnswersRight (c : Client) (data : List UInt8) (length : Int) (m : CoapMessage) : Prop :=
  (m.type = CoapType.confirmable.value ∧
      (m.code = CoapCode.post.value ∨ m.code = CoapCode.put.value) → Acknowledges c data length) ∧
    (typeBits data = CoapType.nonConfirmable.value ∨
      typeBits data = CoapType.acknowledgement.value → Silent c data length)

/-- The token of `data` can be echoed, and the acknowledgement of a message without a topic is no
longer than the block of `coap_encode`. -/
def AckFits (c : Client) (data : List UInt8) : Prop :=
  tokenLength data ≠ 0 ∧ 0 ∉ tokenBytes data ∧ ∃ clientId, c.account.clientId = some clientId ∧
    4 + tokenLength data + (optionSize 12 10 + optionSize 2038 clientId.strlen) + 1 ≤ 256

/-- The condition under which a datagram is answered as it should be: it is not
non-confirmable, a confirmable POST or PUT has no topic, no empty ACCEPT and an acknowledgement
that fits, and an acknowledgement of a request that is found is read without a fault. -/
def AnswersKept (c : Client) (data : List UInt8) (m : CoapMessage) : Prop :=
  typeBits data ≠ CoapType.nonConfirmable.value ∧
    (typeBits data = CoapType.confirmable.value ∧
        (m.code = CoapCode.post.value ∨ m.code = CoapCode.put.value) →
      (∀ o ∈ messageOptions m, o.number ≠ CoapOptionType.uriPath.value) ∧
        AcceptsFilled (messageOptions m) ∧ AckFits c data) ∧
    (typeBits data = CoapType.acknowledgement.value → AckSafe c m)

/-! ### The acknowledgement -/

/-- If anything, an acknowledgement is sent. -/
theorem datagrams_sendCoapAck (h : c.sendCoapAck m isOk = .ok t) :
    ∃ d, t.datagrams = c.datagrams ++ [d] := by
  obtain ⟨nodeId, -, h⟩ := bind_eq_ok.mp h
  obtain ⟨cursor, -, h⟩ := bind_eq_ok.mp h
  cases h
  exact ⟨_, rfl⟩

theorem datagrams_fired_iff {d : List UInt8} :
    (c.fired m out).datagrams = c.datagrams ++ [d.map some] ↔ out = d := by
  unfold fired
  rw [List.append_cancel_left_eq, List.cons.injEq, (Option.some_injective UInt8).list_map.eq_iff]
  exact and_iff_left rfl

theorem sendCoapAck_none (h : c.account.clientId = none) :
    c.sendCoapAck m isOk = .error .nullDeref := by
  unfold sendCoapAck
  rw [nodeId_none h]
  rfl

theorem payload_ackMessage (m : CoapMessage) (isOk : Bool) (nodeId : CoapOption) :
    (ackMessage m isOk nodeId).payload = .ref ∅ := rfl

/-- The options of an acknowledgement. -/
def ackOptions (isOk : Bool) (nodeId : CoapOption) : List CoapOption :=
  if isOk then [nodeId] else [stringOption .contentFormat (.literal "text/plain"), nodeId]

theorem ackOptions_readable (isOk : Bool) (clientId : CString) :
    ∀ o ∈ ackOptions isOk (stringOption .nodeId clientId), Readable o := by
  cases isOk <;> simp [ackOptions, readable_stringOption]

/-- An acknowledgement with a token is sent when it is no longer than the block of `coap_encode`. -/
theorem sendCoapAck_fired {clientId : CString} (hm : Decoded data m)
    (hid : c.account.clientId = some clientId) (htoken : tokenLength data ≠ 0) (isOk : Bool) :
    ∃ out, c.sendCoapAck m isOk =
      if messageSize (CString.ofBytes (tokenBytes data))
          (ackOptions isOk (stringOption .nodeId clientId)) ∅ ≤ 256
      then .ok (c.fired (ackMessage m isOk (stringOption .nodeId clientId))
        (headBytes (ackMessage m isOk (stringOption .nodeId clientId))
          (CString.ofBytes (tokenBytes data)) ++ out))
      else .error .writeOut := by
  have hshort := strlen_ofBytes_le (tokenBytes data)
  have hle := hm.length_token.trans_le hm.tokenLength_le
  have href := hm.token
  rw [if_neg htoken] at href
  have helems : (ackMessage m isOk (stringOption .nodeId clientId)).options.elems
      (ackMessage m isOk (stringOption .nodeId clientId)).optionsAmount.toNat =
        .ok (ackOptions isOk (stringOption .nodeId clientId)) := by
    cases isOk
    · exact Ptr.elems_ref [stringOption .contentFormat (.literal "text/plain"), _]
    · exact Ptr.elems_ref [_]
  obtain ⟨out, hfire⟩ := coapEncodeAndFire_eq (c := c) (m := ackMessage m isOk _) href (by omega)
    helems (ackOptions_readable isOk clientId) (payload_ackMessage m isOk _)
  refine ⟨out, ?_⟩
  unfold sendCoapAck
  rw [nodeId_eq hid, ok_bind, hfire]
  rfl

/-- The acknowledgement of a message without a topic. -/
theorem sendCoapAck_eq {clientId : CString} (hm : Decoded data m)
    (hid : c.account.clientId = some clientId) (htoken : tokenLength data ≠ 0) :
    ∃ out, c.sendCoapAck m false =
      if 4 + (CString.ofBytes (tokenBytes data)).strlen +
          (optionSize 12 10 + optionSize 2038 clientId.strlen) + 1 ≤ 256
      then .ok (c.fired (ackMessage m false (stringOption .nodeId clientId))
        (headBytes (ackMessage m false (stringOption .nodeId clientId))
          (CString.ofBytes (tokenBytes data)) ++ out))
      else .error .writeOut := sendCoapAck_fired hm hid htoken false

theorem sendCoapAck_indet (hm : Decoded data m) (htoken : tokenLength data = 0) (isOk : Bool) :
    ∃ f, c.sendCoapAck m isOk = .error f := by
  have hindet := hm.token
  rw [if_pos htoken] at hindet
  cases hid : c.account.clientId with
  | none => exact ⟨_, sendCoapAck_none hid⟩
  | some clientId =>
    unfold sendCoapAck
    rw [nodeId_eq hid, ok_bind]
    exact ⟨_, coapEncodeAndFire_indet hindet rfl⟩

theorem sendCoapAck_iff (hm : Decoded data m) :
    (∃ t d, c.sendCoapAck m false = .ok t ∧ t.datagrams = c.datagrams ++ [d.map some] ∧
      Echoes d data) ↔ AckFits c data := by
  unfold AckFits
  by_cases hzero : tokenLength data = 0
  · obtain ⟨f, hf⟩ := sendCoapAck_indet (c := c) hm hzero false
    simp [hf, hzero]
  cases hid : c.account.clientId with
  | none => simp [sendCoapAck_none hid]
  | some clientId =>
    have hlength := hm.length_token
    have hle := hm.tokenLength_le
    have hshort := strlen_ofBytes_le (tokenBytes data)
    obtain ⟨out, hack⟩ := sendCoapAck_eq hm hid hzero
    have hechoes : Echoes (headBytes (ackMessage m false (stringOption .nodeId clientId))
        (CString.ofBytes (tokenBytes data)) ++ out) data ↔ _ :=
      echoes_iff hm.version rfl (by omega)
    constructor
    · rintro ⟨t, d, ht, hd, hecho⟩
      rw [hack] at ht
      split at ht
      · next hfits =>
        cases ht
        obtain rfl := datagrams_fired_iff.mp hd
        obtain ⟨-, hsame, hbytes⟩ := hechoes.mp hecho
        refine ⟨hzero, ofBytes_eq_self.mp hbytes.symm, clientId, rfl, ?_⟩
        rwa [hsame]
      · cases ht
    · rintro ⟨-, hnul, clientId', hsome, hfits⟩
      cases hsome
      have hbytes := ofBytes_eq_self.mpr hnul
      have hsame : (CString.ofBytes (tokenBytes data)).strlen = tokenLength data := by
        unfold CString.strlen
        rw [hbytes, hlength]
      rw [hsame, if_pos hfits] at hack
      exact ⟨_, _, hack, rfl, hechoes.mpr ⟨hm.messageId, hsame.symm, hbytes.symm⟩⟩

/-! ### Datagrams -/

/-- A POST or PUT that is taken for a confirmable one. -/
theorem acknowledges_iff (hdec : coapDecode data length = .ok (some m))
    (htype : m.type = CoapType.confirmable.value)
    (hcode : m.code = CoapCode.post.value ∨ m.code = CoapCode.put.value) :
    Acknowledges c data length ↔ (∀ o ∈ messageOptions m, o.number ≠ CoapOptionType.uriPath.value) ∧
      AcceptsFilled (messageOptions m) ∧ AckFits c data := by
  have hm := decoded hdec
  have hpub : Publishes m := ⟨hcode, by rw [htype]; decide⟩
  have hrun : c.processCoapRx data length = _ :=
    (step_receive hdec).trans (processMessage_publish hm hpub htype)
  have hack : _ ↔ AckFits c data := sendCoapAck_iff (c := c.read m) hm
  rw [← hack, ← and_assoc, ← findTopic_none_iff hm.wellFormed 0]
  unfold Acknowledges
  constructor
  · rintro ⟨t, d, ht, hd, hecho⟩
    rw [hrun] at ht
    obtain ⟨⟨topicName, qos⟩, htopic, ht⟩ := bind_eq_ok.mp ht
    cases topicName with
    | none => exact ⟨⟨qos, htopic⟩, t, d, ht, hd, hecho⟩
    | some topicName =>
      -- the second acknowledgement is that of the switch
      obtain ⟨u, hu, ht⟩ := bind_eq_ok.mp ht
      obtain ⟨d₁, hd₁⟩ := datagrams_sendCoapAck hu
      obtain ⟨d₂, hd₂⟩ := datagrams_sendCoapAck ht
      have htwo : t.datagrams = c.datagrams ++ [d₁] ++ [d₂] := hd₂.trans (congrArg (· ++ [d₂]) hd₁)
      have hlength := congrArg List.length (htwo.symm.trans hd)
      simp at hlength
  · rintro ⟨⟨qos, htopic⟩, t, d, ht, hd, hecho⟩
    refine ⟨t, d, ?_, hd, hecho⟩
    rw [hrun, htopic]
    exact ht

/-- A message that is taken for a confirmable one is never left without an answer. -/
theorem not_silent (hdec : coapDecode data length = .ok (some m))
    (htype : m.type = CoapType.confirmable.value) : ¬ Silent c data length := by
  rintro ⟨t, ht, hsame⟩
  have hm := decoded hdec
  have hgrown : ∃ ds, ds ≠ [] ∧ t.datagrams = c.datagrams ++ ds := by
    by_cases hpub : Publishes m
    · rw [show c.processCoapRx data length = _ from
        (step_receive hdec).trans (processMessage_publish hm hpub htype)] at ht
      obtain ⟨⟨topicName, qos⟩, -, ht⟩ := bind_eq_ok.mp ht
      cases topicName with
      | none =>
        obtain ⟨d, hd⟩ := datagrams_sendCoapAck (c := c.read m) ht
        exact ⟨[d], by simp, hd⟩
      | some topicName =>
        obtain ⟨u, hu, ht⟩ := bind_eq_ok.mp ht
        obtain ⟨d₁, hd₁⟩ := datagrams_sendCoapAck (c := c.read m) hu
        obtain ⟨d₂, hd₂⟩ := datagrams_sendCoapAck (c := u.getPub m topicName qos) ht
        refine ⟨[d₁, d₂], by simp, ?_⟩
        rw [hd₂, show (u.getPub m topicName qos).datagrams = u.datagrams from rfl, hd₁,
          List.append_assoc]
        rfl
    · rw [show c.processCoapRx data length = _ from
        (step_receive hdec).trans (processMessage_confirmable hm hpub htype)] at ht
      obtain ⟨d, hd⟩ := datagrams_sendCoapAck (c := c.read m) ht
      exact ⟨[d], by simp, hd⟩
  obtain ⟨ds, hne, hds⟩ := hgrown
  exact hne (List.append_right_eq_self.mp (hds.symm.trans hsame))

/-- An acknowledgement or reset. -/
theorem silent_iff (hc : StoredTerminated c) (hdec : coapDecode data length = .ok (some m))
    (htype : m.type = CoapType.acknowledgement.value) : Silent c data length ↔ AckSafe c m := by
  have hm := decoded hdec
  have hack {t : Client} := processAck_iff (c := c.read m) (t := t) hc hm.wellFormed
  have hrun : c.processCoapRx data length = _ :=
    (step_receive hdec).trans (processMessage_ack hm htype)
  unfold Silent
  rw [hrun]
  constructor
  · rintro ⟨t, ht, -⟩
    exact (hack.mp ht).1
  · intro hsafe
    refine ⟨_, hack.mpr ⟨hsafe, rfl⟩, ?_⟩
    split <;> rfl

/-- In every state of every session, a datagram is answered as it should be if and only if
`AnswersKept` holds. -/
theorem answersRight_iff (hrun : run step (init account) es = .ok c)
    (hdec : coapDecode data length = .ok (some m)) :
    AnswersRight c data length m ↔ AnswersKept c data m := by
  have hc := storedTerminated_of_run hrun
  have hm := decoded hdec
  have hlt : typeBits data < 4 := typeBits_lt data
  have htype := hm.type
  unfold AnswersRight AnswersKept
  obtain hbits | hbits | hbits | hbits : typeBits data = 0 ∨ typeBits data = 1 ∨ typeBits data = 2 ∨
      typeBits data = 3 := by omega
  · have hcon : m.type = CoapType.confirmable.value := by rw [htype, hbits]; rfl
    have hiff := acknowledges_iff (c := c) hdec hcon
    simpa [hcon, hbits, CoapType.value] using forall_congr' hiff
  · have hcon : m.type = CoapType.confirmable.value := by rw [htype, hbits]; rfl
    have hnot := not_silent (c := c) hdec hcon
    simp [hbits, CoapType.value, hnot]
  · have hack : m.type = CoapType.acknowledgement.value := by rw [htype, hbits]; rfl
    have hiff := silent_iff hc hdec hack
    simp [hack, hbits, CoapType.value, hiff]
  · have hack : m.type = CoapType.acknowledgement.value := by rw [htype, hbits]; rfl
    simp [hack, hbits, CoapType.value]

/-- An account with the client id `c`. -/
def identified : Account := { Account.anonymous with clientId := some (.ofBytes [0x63]) }

/-- A confirmable PUT with the token `a`. -/
def plainPut : List UInt8 := [0x41, 3, 0, 5, 0x61]

def plainPutMessage : CoapMessage where
  version := 1
  type := 0
  code := 3
  messageId := 5
  token := .ref (.ofBytes [0x61])
  tokenLength := .is 1
  options := .indet
  optionsAmount := 0
  payload := .indet

theorem coapDecode_plainPut : coapDecode plainPut 5 = .ok (some plainPutMessage) := by decide +kernel

theorem answersRight_iff_plainPut :
    run step (init identified) [] = .ok (init identified) ∧
      coapDecode plainPut 5 = .ok (some plainPutMessage) ∧
      (AnswersRight (init identified) plainPut 5 plainPutMessage ↔
        AnswersKept (init identified) plainPut plainPutMessage) := by
  have hrun : run step (init identified) [] = .ok (init identified) := run_nil
  exact ⟨hrun, coapDecode_plainPut, answersRight_iff hrun coapDecode_plainPut⟩

/-- The same on the topic `t`. -/
def topicPut : List UInt8 := plainPut ++ [0xb1, 0x74]

def topicPutMessage : CoapMessage :=
  { plainPutMessage with options := .ref [⟨11, 1, .ref [0x74]⟩], optionsAmount := 1 }

theorem coapDecode_topicPut : coapDecode topicPut 7 = .ok (some topicPutMessage) := by decide +kernel

/-- It is acknowledged twice. -/
theorem topicPut_not_right : coapDecode topicPut 7 = .ok (some topicPutMessage) ∧
    ¬ AnswersRight (init identified) topicPut 7 topicPutMessage := by
  refine ⟨coapDecode_topicPut, fun h => ?_⟩
  have hack := (acknowledges_iff coapDecode_topicPut rfl (.inr rfl)).mp (h.1 ⟨rfl, .inr rfl⟩)
  exact hack.1 ⟨11, 1, .ref [0x74]⟩ List.mem_cons_self rfl

end Client

end IotClient.Coap
