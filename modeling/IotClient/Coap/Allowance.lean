import IotClient.Coap.Session

/-!
# The allowance of `coap_encode`

`coap_encode` allocates 256 bytes besides the payload, whatever the token and the options are. The
messages of the client carry two strings of any length, a topic and the client ID, each with the
bytes that extend its length (`textSize`); `coapEncode_returns_iff` says how long they may be.
-/

namespace IotClient.Coap

open Mem

/-- A call that sends a message. -/
inductive Call where
  | subscribe (topicName : CString) (qos : Int) (unset : UInt8)
  | unsubscribe (topicName : CString)
  | message (content topicName : CString) (qos : Int) (unset : UInt8)
  | ack (inMessage : CoapMessage) (isOk : Bool)

namespace Call

variable (c : Client) (clientId : CString)

/-- The message that is built. -/
def built : Call → CoapMessage
  | subscribe topicName qos unset => c.nextMessage ⟨.get, ∅, [arrayOption .observe [0, 0, 0, 0],
      stringOption .uriPath topicName, arrayOption .accept (qosValue qos unset)]⟩ clientId
  | unsubscribe topicName => c.nextMessage ⟨.get, ∅, [arrayOption .observe [0, 0, 0, 1],
      stringOption .uriPath topicName]⟩ clientId
  | message content topicName qos unset => c.nextMessage ⟨.put, content,
      [stringOption .uriPath topicName, arrayOption .accept (qosValue qos unset)]⟩ clientId
  | ack inMessage isOk => Client.ackMessage inMessage isOk (stringOption .nodeId clientId)

/-- The function that is called. -/
def run : Call → Run Client
  | subscribe topicName qos unset => c.sendCoapSubscribe topicName qos unset
  | unsubscribe topicName => c.sendCoapUnsubscribe topicName
  | message content topicName qos unset => c.sendCoapMessage content topicName qos unset
  | ack inMessage isOk => c.sendCoapAck inMessage isOk

/-- The client when the message is encoded: a request is stored before. -/
def prepared : Call → Client
  | ack .. => c
  | call => c.stored (call.built c clientId)

/-- The strings of a call have lengths that fit in 16 bits. -/
def Short : Call → Prop
  | subscribe topicName .. | unsubscribe topicName => topicName.strlen < 65536
  | message content topicName .. => content.strlen < 65536 ∧ topicName.strlen < 65536
  | ack inMessage _ => ∀ token, inMessage.token = .ref token → token.strlen < 65536

end Call

/-- The bytes of a text and of what extends its length. -/
def textSize (s : CString) : Nat := extensionSize s.strlen + s.strlen

/-- The token, the topic and the client ID fit in what header and the other options leave; an
acknowledgement has the token of the message it answers. -/
def Call.Fits (counter : Nat) (clientId : CString) : Call → Prop
  | subscribe topicName .. =>
    (decimal (counter + 1)).strlen + textSize topicName + textSize clientId ≤ 239
  | unsubscribe topicName =>
    (decimal (counter + 1)).strlen + textSize topicName + textSize clientId ≤ 242
  | message _ topicName .. =>
    (decimal (counter + 1)).strlen + textSize topicName + textSize clientId ≤ 244
  | ack inMessage isOk => ∃ token, inMessage.token = .ref token ∧
      token.strlen + textSize clientId ≤ if isOk then 248 else 237

variable {c : Client} {clientId : CString}

/-- The call encodes the message it built. -/
theorem Call.run_eq (x : Call) (hid : c.account.clientId = some clientId)
    (hfew : c.currentPacketNumber + 1 < 10000) :
    x.run c = (x.prepared c clientId).coapEncodeAndFire (x.built c clientId) := by
  have hrequest : ∀ code payload options, c.sendRequest code payload options =
      (c.stored (c.nextMessage ⟨code, payload, options⟩ clientId)).coapEncodeAndFire
        (c.nextMessage ⟨code, payload, options⟩ clientId) := by
    intro code payload options
    rw [Client.sendRequest_eq, Client.tokenOf_eq hfew, ok_bind, Client.nodeId_eq hid, ok_bind]
    rfl
  cases x with
  | subscribe topicName qos unset => exact hrequest _ _ _
  | unsubscribe topicName => exact hrequest _ _ _
  | message content topicName qos unset => exact hrequest _ _ _
  | ack inMessage isOk =>
    show c.sendCoapAck inMessage isOk = _
    unfold Client.sendCoapAck
    rw [Client.nodeId_eq hid, ok_bind]
    rfl

/-! ### Sizes -/

theorem optionSize_text (delta : Int) {s : CString} (h : s.strlen < 65536) :
    optionSize delta s.strlen = 1 + extensionSize delta + textSize s := by
  unfold optionSize textSize
  rw [short_ofInt_natCast, short_toNat_of_lt h]
  omega

/-- The size of the next request, whose payload is counted apart. -/
theorem nextMessage_returns {r : Request} (hread : ∀ o ∈ r.options, Readable o)
    (hfew : c.currentPacketNumber < 10000) (hpayload : r.payload.strlen < 65536) :
    Returns (coapEncode (c.nextMessage r clientId)) ↔
      (decimal (c.currentPacketNumber + 1)).strlen +
        optionsSize 0 (r.options ++ [stringOption .nodeId clientId]) ≤ 251 := by
  have hdigits := (strlen_decimal_le (n := c.currentPacketNumber + 1) (k := 5) (by decide)).2
    (by omega)
  have hall : ∀ o ∈ r.options ++ [stringOption .nodeId clientId], Readable o := by
    intro o ho
    rcases Machine.mem_snoc.1 ho with ho | rfl
    · exact hread o ho
    · exact readable_stringOption .nodeId clientId
  refine (coapEncode_returns (m := c.nextMessage r clientId) rfl (by omega)
    (Ptr.elems_ref (r.options ++ [stringOption .nodeId clientId])) hall rfl).trans ?_
  unfold messageSize
  rw [Nat.mod_eq_of_lt hpayload]
  omega

theorem strlen_empty : (∅ : CString).strlen = 0 := rfl

theorem strlen_empty_lt : (∅ : CString).strlen < 65536 := by decide

/-- The acknowledgement of a message. -/
theorem ackMessage_returns {m : CoapMessage} {isOk : Bool}
    (hshort : ∀ token, m.token = .ref token → token.strlen < 65536) {options : List CoapOption}
    (hoptions : (if isOk then [stringOption .nodeId clientId] else
      [stringOption .contentFormat (.literal "text/plain"), stringOption .nodeId clientId]) = options) :
    Returns (coapEncode (Client.ackMessage m isOk (stringOption .nodeId clientId))) ↔
      ∃ token, m.token = .ref token ∧ token.strlen + optionsSize 0 options ≤ 251 := by
  have hread : ∀ o ∈ options, Readable o := by
    rw [← hoptions]
    cases isOk <;> simp [readable_stringOption]
  have helems : (Client.ackMessage m isOk (stringOption .nodeId clientId)).options.elems
      (Client.ackMessage m isOk (stringOption .nodeId clientId)).optionsAmount.toNat =
        .ok options := by
    subst hoptions
    cases isOk <;> exact Ptr.elems_ref _
  by_cases htoken : ∃ token, m.token = .ref token
  · obtain ⟨token, htoken⟩ := htoken
    refine (coapEncode_returns (m := Client.ackMessage m isOk (stringOption .nodeId clientId))
      htoken (hshort token htoken) helems hread rfl).trans ?_
    have hsize : messageSize token options ∅ ≤ 256 + (∅ : CString).strlen ↔
        token.strlen + optionsSize 0 options ≤ 251 := by
      unfold messageSize
      rw [strlen_empty]
      omega
    refine hsize.trans ⟨fun hle => ⟨token, htoken, hle⟩, ?_⟩
    rintro ⟨other, hother, hle⟩
    rw [htoken] at hother
    cases hother
    exact hle
  · refine iff_of_false (fun hreturns => ?_) fun ⟨token, hm, _⟩ => htoken ⟨token, hm⟩
    obtain ⟨e, he⟩ := coapEncode_noToken
      (m := Client.ackMessage m isOk (stringOption .nodeId clientId))
      (fun token hm => htoken ⟨token, hm⟩) rfl
    rw [he] at hreturns
    exact not_returns_error e hreturns

theorem optionsSize_unsubscribe {topicName : CString} (htopic : topicName.strlen < 65536)
    (hid : clientId.strlen < 65536) :
    optionsSize 0 ([arrayOption .observe [0, 0, 0, 1], stringOption .uriPath topicName] ++
      [stringOption .nodeId clientId]) = 9 + textSize topicName + textSize clientId := by
  change optionSize 6 4 + (optionSize 5 topicName.strlen +
    (optionSize 2039 clientId.strlen + 0)) = _
  have h64 : optionSize 6 4 = 5 := by decide
  have hextension : extensionSize 5 = 0 ∧ extensionSize 2039 = 2 := by decide
  rw [optionSize_text _ htopic, optionSize_text _ hid, h64]
  omega

/-- The buffer of `coap_encode` is large enough exactly for strings of these lengths. -/
theorem coapEncode_built_iff (x : Call) (hx : x.Short) (hid : clientId.strlen < 65536)
    (hfew : c.currentPacketNumber < 10000) :
    Returns (coapEncode (x.built c clientId)) ↔ x.Fits c.currentPacketNumber clientId := by
  have h64 : optionSize 6 4 = 5 := by decide
  have h62 : optionSize 6 2 = 3 := by decide
  have h12 : optionSize 12 10 = 11 := by decide
  have hsmall : extensionSize 5 = 0 ∧ extensionSize 11 = 0 := by decide
  have hlarge : extensionSize 2033 = 2 ∧ extensionSize 2038 = 2 ∧ extensionSize 2050 = 2 := by
    decide
  cases x with
  | subscribe topicName qos unset =>
    refine (nextMessage_returns ?_ hfew strlen_empty_lt).trans ?_
    · simp [readable_arrayOption, readable_stringOption]
    · change _ + (optionSize 6 4 + (optionSize 5 topicName.strlen + (optionSize 6 2 +
        (optionSize 2033 clientId.strlen + 0)))) ≤ 251 ↔ _
      rw [optionSize_text _ hx, optionSize_text _ hid, h64, h62]
      unfold Call.Fits
      omega
  | unsubscribe topicName =>
    refine (nextMessage_returns ?_ hfew strlen_empty_lt).trans ?_
    · simp [readable_arrayOption, readable_stringOption]
    · rw [optionsSize_unsubscribe hx hid]
      unfold Call.Fits
      omega
  | message content topicName qos unset =>
    refine (nextMessage_returns ?_ hfew hx.1).trans ?_
    · simp [readable_arrayOption, readable_stringOption]
    · change _ + (optionSize 11 topicName.strlen + (optionSize 6 2 +
        (optionSize 2033 clientId.strlen + 0))) ≤ 251 ↔ _
      rw [optionSize_text _ hx.2, optionSize_text _ hid, h62]
      unfold Call.Fits
      omega
  | ack inMessage isOk =>
    refine (ackMessage_returns hx rfl).trans (exists_congr fun token => and_congr_right fun _ => ?_)
    cases isOk with
    | true =>
      change _ + (optionSize 2050 clientId.strlen + 0) ≤ 251 ↔ _ ≤ 248
      rw [optionSize_text _ hid]
      omega
    | false =>
      change _ + (optionSize 12 10 + (optionSize 2038 clientId.strlen + 0)) ≤ 251 ↔ _ ≤ 237
      rw [optionSize_text _ hid, h12]
      omega

theorem unsubscribe_encoded : Returns (coapEncode
    ((Call.unsubscribe (.literal "t")).built (.init .anonymous) (.literal "c"))) :=
  (coapEncode_built_iff (.unsubscribe (.literal "t"))
    (show (CString.literal "t").strlen < 65536 by decide) (by decide) (by decide)).2
    (show _ ≤ 242 by decide)

theorem nulFree_long : (0 : UInt8) ∉ List.replicate 250 0x61 := by
  intro h
  cases List.eq_of_mem_replicate h

/-- A topic of 250 letters. -/
def longTopic : CString := ⟨List.replicate 250 0x61, nulFree_long⟩

theorem strlen_longTopic : longTopic.strlen = 250 := List.length_replicate

theorem unsubscribe_past {account : Account} {topicName : CString} (hlong : 243 ≤ topicName.strlen)
    (hlt : topicName.strlen < 65536) :
    ¬ Returns (coapEncode ((Call.unsubscribe topicName).built (.init account) ∅)) := by
  intro h
  have hsize : _ + optionsSize 0 ([arrayOption .observe [0, 0, 0, 1],
      stringOption .uriPath topicName] ++ [stringOption .nodeId ∅]) ≤ 251 :=
    (nextMessage_returns (c := .init account) (by simp [readable_arrayOption, readable_stringOption])
      (show 0 < 10000 by decide) strlen_empty_lt).1 h
  rw [optionsSize_unsubscribe hlt strlen_empty_lt, textSize] at hsize
  omega

/-- A client with an empty client ID. -/
def emptyId : Account := { Account.anonymous with clientId := some ∅ }

/-- The first UNSUBSCRIBE of a client, with a long topic, is written past the buffer. -/
theorem longTopic_not_encoded :
    ¬ Returns (coapEncode ((Call.unsubscribe longTopic).built (.init .anonymous) ∅)) ∧
      ¬ Returns ((Call.unsubscribe longTopic).run (.init emptyId)) := by
  have hlong : 243 ≤ longTopic.strlen := by rw [strlen_longTopic]; decide
  have hlt : longTopic.strlen < 65536 := by rw [strlen_longTopic]; decide
  refine ⟨unsubscribe_past hlong hlt, fun hreturns => ?_⟩
  rw [(Call.unsubscribe longTopic).run_eq (c := .init emptyId) rfl (by decide)] at hreturns
  exact not_returns_bind (unsubscribe_past hlong hlt) hreturns

end IotClient.Coap
