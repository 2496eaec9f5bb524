import IotClient.Coap.Datagrams
import IotClient.Coap.Received

/-!
# The steps of a CoAP session

A request is sent under the next message id if it is `Sendable`. Whatever the steps, a topic
that the map holds can be copied (`storedTerminated_of_run`).
-/

namespace IotClient.Coap

open Mem Machine

/-! ### Tokens -/

theorem strlen_decimal (n : Nat) : (decimal n).strlen = (Nat.toDigits 10 n).length := by
  have hnul : 0 ∉ (Nat.toDigits 10 n).map fun c => UInt8.ofNat c.toNat := by
    rintro h
    obtain ⟨c, hc, hzero⟩ := List.mem_map.mp h
    have hdigit := Char.isDigit_iff_toNat.mp (Nat.isDigit_of_mem_toDigits (by decide) (by decide) hc)
    simp only [show '0'.toNat = 48 from rfl, show '9'.toNat = 57 from rfl] at hdigit
    have hval : (UInt8.ofNat c.toNat).toNat = c.toNat := toNat_ofNat_of_lt (by omega)
    rw [hzero] at hval
    simp at hval
    omega
  unfold decimal CString.strlen
  rw [CString.ofBytes_of_nulFree hnul]
  exact List.length_map ..

theorem strlen_decimal_le {n k : Nat} (hk : 0 < k) : (decimal n).strlen ≤ k ↔ n < 10 ^ k := by
  rw [strlen_decimal]
  exact Nat.length_toDigits_le_iff (by decide) hk

namespace Client

variable {c t : Client} {e : Event} {es : List Event} {m : CoapMessage} {data : List UInt8}
  {length : Int}

theorem tokenOf_eq {n : Nat} (h : n < 10000) : tokenOf n = .ok (decimal n) := by
  have hle := (strlen_decimal_le (n := n) (k := 4) (by decide)).mpr h
  exact if_pos (by omega)

theorem tokenOf_long {n : Nat} (h : ¬ n < 10000) : tokenOf n = .error .writeOut := by
  refine if_neg fun hle => h ?_
  exact (strlen_decimal_le (n := n) (k := 4) (by decide)).mp (by omega)

end Client

/-! ### Requests -/

/-- What a call sends. -/
structure Request where
  code : CoapCode
  payload : CString
  options : List CoapOption

def Event.request : Event → Option Request
  | .sendSubscribe topicName qos unset =>
    some ⟨.get, ∅, [arrayOption .observe [0, 0, 0, 0], stringOption .uriPath topicName,
      arrayOption .accept (qosValue qos unset)]⟩
  | .sendUnsubscribe topicName =>
    some ⟨.get, ∅, [arrayOption .observe [0, 0, 0, 1], stringOption .uriPath topicName]⟩
  | .sendMessage content topicName qos unset =>
    some ⟨.put, content, [stringOption .uriPath topicName,
      arrayOption .accept (qosValue qos unset)]⟩
  | .receive .. => none

/-- An option that can be sent and, if it is a topic, copied. -/
def Own (o : CoapOption) : Prop :=
  Readable o ∧ (o.number = CoapOptionType.uriPath.value → ∃ value, o.value = .ref value ∧ 0 ∈ value)

theorem own_arrayOption {number : CoapOptionType} {value : List UInt8} (h : number ≠ .uriPath) :
    Own (arrayOption number value) := by
  refine ⟨readable_arrayOption number value, fun huri => absurd huri ?_⟩
  cases number <;> first | exact absurd rfl h | simp [arrayOption, CoapOptionType.value]

theorem own_stringOption (number : CoapOptionType) (value : CString) :
    Own (stringOption number value) :=
  ⟨readable_stringOption number value, fun _ => ⟨_, rfl, by simp⟩⟩

theorem own_request {e : Event} {r : Request} (h : e.request = some r) : ∀ o ∈ r.options, Own o := by
  cases e <;> cases h <;> simp [own_arrayOption, own_stringOption]

namespace Client

variable {c t : Client} {e : Event} {es : List Event} {m : CoapMessage} {data : List UInt8}
  {length : Int} {r : Request}

/-- The request has an id of at most four digits, there is a client id, and the encoded message
is no longer than the block of `coap_encode`. -/
def Sendable (c : Client) (r : Request) : Prop :=
  c.currentPacketNumber + 1 < 10000 ∧ ∃ clientId, c.account.clientId = some clientId ∧
    messageSize (decimal (c.currentPacketNumber + 1)) (r.options ++ [stringOption .nodeId clientId])
      r.payload ≤ 256 + r.payload.strlen

/-- The message of a request that is sent next. -/
def nextMessage (c : Client) (r : Request) (clientId : CString) : CoapMessage :=
  requestMessage (c.currentPacketNumber + 1) (decimal (c.currentPacketNumber + 1)) r.code r.payload
    (r.options ++ [stringOption .nodeId clientId])

/-- The client that has stored a message under the next id. -/
def stored (c : Client) (message : CoapMessage) : Client :=
  { c with
    currentPacketNumber := c.currentPacketNumber + 1
    m := c.m.set message.messageId message }

theorem nodeId_eq {clientId : CString} (h : c.account.clientId = some clientId) :
    c.nodeId = .ok (stringOption .nodeId clientId) := by
  unfold nodeId
  rw [h]
  rfl

theorem nodeId_none (h : c.account.clientId = none) : c.nodeId = .error .nullDeref := by
  unfold nodeId
  rw [h]
  rfl

theorem own_nextMessage (h : e.request = some r) (clientId : CString) :
    ∀ o ∈ r.options ++ [stringOption .nodeId clientId], Own o := by
  intro o ho
  rcases mem_snoc.mp ho with ho | rfl
  · exact own_request h o ho
  · exact own_stringOption .nodeId clientId

theorem sendRequest_eq (code : CoapCode) (payload : CString) (options : List CoapOption) :
    c.sendRequest code payload options = (do
      let token ← tokenOf (c.currentPacketNumber + 1)
      let nodeId ← c.nodeId
      let message := requestMessage (c.currentPacketNumber + 1) token code payload
        (options ++ [nodeId])
      (c.stored message).coapEncodeAndFire message) := rfl

theorem step_sendRequest (h : e.request = some r) :
    c.step e = c.sendRequest r.code r.payload r.options := by
  cases e <;> cases h <;> rfl

/-- With a client id a request is sent, or does not fit into its memory. -/
theorem step_set {clientId : CString} (h : e.request = some r)
    (hid : c.account.clientId = some clientId) :
    (Sendable c r ∧ ∃ out,
      c.step e = .ok ((c.stored (c.nextMessage r clientId)).fired (c.nextMessage r clientId) out)) ∨
    (¬ Sendable c r ∧ c.step e = .error .writeOut) := by
  rw [step_sendRequest h, sendRequest_eq]
  by_cases hdigits : c.currentPacketNumber + 1 < 10000
  · have hfour := (strlen_decimal_le (n := c.currentPacketNumber + 1) (k := 4) (by decide)).mpr hdigits
    have hread := fun o ho => (own_nextMessage h clientId o ho).1
    obtain ⟨out, hfire⟩ := coapEncodeAndFire_eq (c := c.stored (c.nextMessage r clientId))
      (m := c.nextMessage r clientId) rfl (by omega)
      (Ptr.elems_ref (r.options ++ [stringOption .nodeId clientId])) hread
      (rfl : (c.nextMessage r clientId).payload = .ref r.payload)
    rw [tokenOf_eq hdigits, ok_bind, nodeId_eq hid, ok_bind]
    change (_ ∧ ∃ out', coapEncodeAndFire (c.stored (c.nextMessage r clientId))
      (c.nextMessage r clientId) = _) ∨ (_ ∧ coapEncodeAndFire
        (c.stored (c.nextMessage r clientId)) (c.nextMessage r clientId) = _)
    rw [hfire]
    by_cases hfits : messageSize (decimal (c.currentPacketNumber + 1))
        (r.options ++ [stringOption .nodeId clientId]) r.payload ≤ 256 + r.payload.strlen
    · rw [if_pos hfits]
      exact .inl ⟨⟨hdigits, clientId, hid, hfits⟩, _, rfl⟩
    · rw [if_neg hfits]
      refine .inr ⟨?_, rfl⟩
      rintro ⟨-, clientId', hsome, hfits'⟩
      rw [hid] at hsome
      cases hsome
      exact hfits hfits'
  · rw [tokenOf_long hdigits]
    exact .inr ⟨fun hsend => hdigits hsend.1, rfl⟩

theorem step_unset (h : e.request = some r) (hid : c.account.clientId = none) :
    ∃ f, c.step e = .error f := by
  rw [step_sendRequest h, sendRequest_eq, nodeId_none hid]
  cases tokenOf (c.currentPacketNumber + 1) <;> exact ⟨_, rfl⟩

/-- A call sends its request or faults. -/
theorem step_request (h : e.request = some r) :
    (Sendable c r ∧ ∃ clientId out, c.account.clientId = some clientId ∧
      c.step e = .ok ((c.stored (c.nextMessage r clientId)).fired (c.nextMessage r clientId) out)) ∨
    (¬ Sendable c r ∧ ∃ f, c.step e = .error f) := by
  cases hid : c.account.clientId with
  | none =>
    refine .inr ⟨?_, step_unset h hid⟩
    rintro ⟨-, clientId, hsome, -⟩
    rw [hid] at hsome
    cases hsome
  | some clientId =>
    rcases step_set h hid with ⟨hsend, out, hstep⟩ | ⟨hnot, hstep⟩
    · exact .inl ⟨hsend, clientId, out, rfl, hstep⟩
    · exact .inr ⟨hnot, _, hstep⟩

/-! ### Messages -/

/-- The client that has read `m`. -/
def read (c : Client) (m : CoapMessage) : Client := { c with wire := c.wire ++ [.received m] }

theorem step_receive (h : coapDecode data length = .ok (some m)) :
    c.step (.receive data length) = (c.read m).processMessage m := by
  change (coapDecode data length >>= _) = _
  rw [h]
  rfl

theorem step_discard (h : coapDecode data length = .ok none) :
    c.step (.receive data length) = .ok c := by
  change (coapDecode data length >>= _) = _
  rw [h]
  rfl

/-- A decoded acknowledgement or reset. -/
theorem processMessage_ack (hm : Decoded data m) (htype : m.type = CoapType.acknowledgement.value) :
    c.processMessage m = c.processAck m (messageOptions m) := by
  unfold processMessage processType
  rw [hm.options, ok_bind, if_neg fun hpub => hpub.2 htype, htype]
  rfl

theorem processMessage_confirmable (hm : Decoded data m) (hpub : ¬ Publishes m)
    (htype : m.type = CoapType.confirmable.value) : c.processMessage m = c.sendCoapAck m true := by
  unfold processMessage processType
  rw [hm.options, ok_bind, if_neg hpub, if_pos htype]

theorem processMessage_publish (hm : Decoded data m) (hpub : Publishes m)
    (htype : m.type = CoapType.confirmable.value) :
    c.processMessage m = (do
      match ← findTopic (messageOptions m) 0 with
      | (none, _) => c.sendCoapAck m false
      | (some topicName, qos) => do
        let c ← c.sendCoapAck m true
        (c.getPub m topicName qos).sendCoapAck m true) := by
  unfold processMessage
  rw [hm.options, ok_bind, if_pos hpub]
  refine bind_congr fun ⟨topicName, qos⟩ => ?_
  cases topicName with
  | none => rfl
  | some topicName => exact bind_congr fun c' => if_pos htype

/-! ### The requests that are stored -/

theorem m_sendCoapAck {isOk : Bool} (h : c.sendCoapAck m isOk = .ok t) : t.m = c.m := by
  obtain ⟨nodeId, -, h⟩ := bind_eq_ok.mp h
  obtain ⟨cursor, -, h⟩ := bind_eq_ok.mp h
  cases h
  rfl

theorem type_cases (hm : Decoded data m) :
    m.type = CoapType.confirmable.value ∨ m.type = CoapType.acknowledgement.value := by
  have hall : ∀ k : Fin 4, k.val &&& 2 = 0 ∨ k.val &&& 2 = 2 := by decide
  rw [hm.type]
  exact hall ⟨typeBits data, typeBits_lt data⟩

/-- A message adds nothing to the map. -/
theorem m_receive (hc : StoredTerminated c) (h : c.step (.receive data length) = .ok t) {k : UInt16}
    {message : CoapMessage} (hget : t.m k = some message) : c.m k = some message := by
  obtain ⟨r, hr, -⟩ := bind_eq_ok.mp h
  cases r with
  | none =>
    rw [step_discard hr] at h
    cases h
    exact hget
  | some m =>
    rw [step_receive hr] at h
    have hm := decoded hr
    rcases type_cases hm with htype | htype
    · have hsame : t.m = c.m := by
        by_cases hpub : Publishes m
        · rw [processMessage_publish hm hpub htype] at h
          obtain ⟨⟨topicName, qos⟩, -, h⟩ := bind_eq_ok.mp h
          cases topicName with
          | none => exact m_sendCoapAck (c := c.read m) h
          | some topicName =>
            obtain ⟨u, hu, h⟩ := bind_eq_ok.mp h
            have hlast : t.m = u.m := m_sendCoapAck (c := u.getPub m topicName qos) h
            exact hlast.trans (m_sendCoapAck (c := c.read m) hu)
        · rw [processMessage_confirmable hm hpub htype] at h
          exact m_sendCoapAck (c := c.read m) h
      rwa [← hsame]
    · rw [processMessage_ack hm htype] at h
      obtain ⟨-, rfl⟩ := (processAck_iff (c := c.read m) hc hm.wellFormed).mp h
      split at hget
      · change (c.m.erase m.messageId) k = some message at hget
        rw [Table.erase_apply] at hget
        split at hget
        · cases hget
        · exact hget
      · exact hget

theorem storedTerminated_init (account : Account) : StoredTerminated (init account) := by
  intro k message h
  cases h

theorem terminated_nextMessage (h : e.request = some r) (clientId : CString) :
    Terminated (c.nextMessage r clientId) :=
  ⟨_, Ptr.elems_ref (r.options ++ [stringOption .nodeId clientId]),
    fun o ho => (own_nextMessage h clientId o ho).2⟩

theorem storedTerminated_step (hc : StoredTerminated c) (h : c.step e = .ok t) :
    StoredTerminated t := by
  intro k message hget
  cases hrequest : e.request with
  | some r =>
    rcases step_request (c := c) hrequest with ⟨-, clientId, out, -, hstep⟩ | ⟨-, f, hstep⟩
    · rw [hstep] at h
      cases h
      change (c.m.set _ _) k = some message at hget
      rw [Table.set_apply] at hget
      split at hget
      · cases hget
        exact terminated_nextMessage hrequest clientId
      · exact hc k message hget
    · rw [hstep] at h
      cases h
  | none =>
    cases e with
    | receive data length => exact hc k message (m_receive hc h hget)
    | _ => cases hrequest

theorem storedTerminated_of_run {account : Account} (h : run step (init account) es = .ok c) :
    StoredTerminated c :=
  run_keeps (G := fun _ _ => True) (fun _ _ _ _ hc _ ht => storedTerminated_step hc ht)
    (storedTerminated_init account) (each_of_forall fun _ _ _ => trivial) h

end Client

end IotClient.Coap
