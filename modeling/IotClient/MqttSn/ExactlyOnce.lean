import IotClient.Machine.Channel
import IotClient.MqttSn.Client
import IotClient.MqttSn.RoundTrip

/-!
# Receiving QoS 2 publications

An `Exchange` is the client and a gateway that hands it QoS 2 publications, with the packets in
flight between them. For each message id the gateway sends the PUBLISH until it has the PUBREC,
then PUBREL until it has the PUBCOMP. The client keeps nothing of a PUBLISH, so
`get_pub_pt` is called once for each copy of it that arrives (`receivesRight_iff`), whatever memory
it was decoded into.
-/

namespace IotClient.MqttSn

open Mem Machine

/-! ### Packets of the gateway -/

/-- A QoS 2 publication. -/
structure QosPublish where
  retain : Bool
  topicType : SnTopicType
  topicId : UInt16
  messageId : UInt16
  data : List UInt8
  size_le : data.length + 9 ≤ 65535

/-- The flags byte of a copy. -/
def qosFlags (dup retain : Bool) (topicType : SnTopicType) : UInt8 :=
  (if dup then 128 else 0) + 64 + (if retain then 16 else 0) + topicType.toByte

namespace QosPublish

variable (p : QosPublish) (dup : Bool)

def body : List UInt8 :=
  qosFlags dup p.retain p.topicType ::
    (shortBytes p.topicId ++ (shortBytes p.messageId ++ p.data))

def size : Nat := if p.data.length + 7 ≤ 255 then p.data.length + 7 else p.data.length + 9

/-- The bytes of a copy. -/
def bytes : List UInt8 := lengthHeader p.size ++ SnMessageType.publish.toByte :: p.body dup

/-- What `sn_decode` makes of a copy. -/
def decoded : SnPublish where
  messageId := p.messageId
  topic := {
    id := if p.topicType = .short then .indet else .is p.topicId
    value := .indet
    qos := .is 2
    topicType := .indet }
  data := .ref (CString.ofBytes p.data)
  dup := dup.toNat
  retain := p.retain.toNat

/-- The client can read the PUBLISH: it has a payload. -/
def Legible : Prop := p.data ≠ []

instance : Decidable p.Legible := inferInstanceAs (Decidable (_ ≠ _))

end QosPublish

/-- A packet in flight to the client. -/
inductive GatewayDatagram where
  | publish (p : QosPublish) (dup : Bool)
  | pubrel (messageId : UInt16)

def GatewayDatagram.bytes : GatewayDatagram → List UInt8
  | publish p dup => p.bytes dup
  | pubrel messageId => (Datagram.pubrel messageId).wire

/-! ### The exchange -/

/-- How far the gateway is with a message id. -/
inductive Phase where
  | idle
  | publishing (p : QosPublish)
  | releasing

/-- A handshake is told by its message id and its number among those with this id. -/
abbrev Handshake := UInt16 × Nat

structure Exchange where
  client : Client
  phase : UInt16 → Phase
  /-- the number of handshakes begun under an id -/
  handshakes : UInt16 → Nat
  toClient : List (Handshake × GatewayDatagram)
  toGateway : List SnMessage
  /-- the handshakes of the copies of PUBLISH that arrived -/
  arrived : List Handshake
  /-- the handshakes of the packets that `get_pub_pt` was called for -/
  calls : List Handshake

inductive ExchangeEvent where
  /-- the gateway takes an idle id -/
  | start (p : QosPublish)
  | publishAgain (messageId : UInt16) (dup : Bool)
  | sendPubrel (messageId : UInt16)
  | toClient (i : Nat) (fate : Fate)
  | toGateway (i : Nat) (fate : Fate)
  /-- other code allocates and frees -/
  | memory (contents : UInt16)

/-- `process_sn_rx` -/
def Client.processDatagram (c : Client) (data : List UInt8) : Run Client := do
  c.processSnRx (← snDecode data)

/-- The messages sent in a part of a log. -/
def sentMessages (wire : List (Traffic SnMessage)) : List SnMessage :=
  wire.filterMap fun
    | .sent message => some message
    | _ => none

namespace Exchange

/-- A client in any state, with its logs empty, and no packet in flight. -/
def init (c : Client) : Exchange where
  client := { c with wire := [], notices := [] }
  phase := fun _ => .idle
  handshakes := fun _ => 0
  toClient := []
  toGateway := []
  arrived := []
  calls := []

variable (s : Exchange)

def handshakeOf (messageId : UInt16) : Handshake := (messageId, s.handshakes messageId)

def send (messageId : UInt16) (d : GatewayDatagram) : Exchange :=
  { s with toClient := s.toClient ++ [(s.handshakeOf messageId, d)] }

def withPhase (messageId : UInt16) (phase : Phase) : Exchange :=
  { s with phase := Function.update s.phase messageId phase }

/-- A new handshake, whose PUBLISH is sent. -/
def startHandshake (p : QosPublish) : Exchange :=
  let s := { s with
    handshakes := Function.update s.handshakes p.messageId (s.handshakes p.messageId + 1) }
  (s.withPhase p.messageId (.publishing p)).send p.messageId (.publish p false)

/-- A packet arrives at the client. -/
def clientReads (h : Handshake) (d : GatewayDatagram) : Run Exchange := do
  let c ← s.client.processDatagram d.bytes
  pure { s with
    client := c
    toGateway := s.toGateway ++ sentMessages (c.wire.drop s.client.wire.length)
    arrived := s.arrived ++ match d with
      | .publish .. => [h]
      | .pubrel _ => []
    calls := s.calls ++ List.replicate (c.notices.length - s.client.notices.length) h }

/-- A packet arrives at the gateway. -/
def gatewayReads (message : SnMessage) : Exchange :=
  match message.packet with
  | .ref (.pubrec ⟨messageId⟩) =>
    match s.phase messageId with
    | .publishing _ => s.withPhase messageId .releasing
    | _ => s
  | .ref (.pubcomp ⟨messageId⟩) =>
    match s.phase messageId with
    | .releasing => s.withPhase messageId .idle
    | _ => s
  | _ => s

/-- What is not possible in a state leaves it as it is. -/
def step (s : Exchange) : ExchangeEvent → Run Exchange
  | .start p =>
    match s.phase p.messageId with
    | .idle => pure (s.startHandshake p)
    | _ => pure s
  | .publishAgain messageId dup =>
    match s.phase messageId with
    | .publishing p => pure (s.send messageId (.publish p dup))
    | _ => pure s
  | .sendPubrel messageId =>
    match s.phase messageId with
    | .releasing => pure (s.send messageId (.pubrel messageId))
    | _ => pure s
  | .toClient i fate =>
    let t := { s with toClient := fate.after s.toClient i }
    match fate.arriving s.toClient i with
    | some (h, d) => t.clientReads h d
    | none => pure t
  | .toGateway i fate =>
    let t := { s with toGateway := fate.after s.toGateway i }
    match fate.arriving s.toGateway i with
    | some message => pure (t.gatewayReads message)
    | none => pure t
  | .memory contents => pure { s with client := s.client.withMemory contents }

end Exchange

/-! ### Reading a packet -/

theorem decodeFlag_qosFlags (dup retain : Bool) (topicType : SnTopicType) :
    decodeFlag (qosFlags dup retain topicType) = ⟨dup.toNat, 2, retain.toNat, 0, 0, topicType⟩ := by
  cases dup <;> cases retain <;> cases topicType <;> decide

theorem decodePublish_body {p : QosPublish} {dup : Bool} {buf r : List UInt8} {i : Nat}
    (h : buf.drop i = p.body dup ++ r) : decodePublish buf i (p.body dup).length =
      if p.data = [] then .error .indet else .ok (.ref (.publish (p.decoded dup))) := by
  unfold QosPublish.body at h
  simp only [List.cons_append, List.append_assoc] at h
  have hlength : ((p.body dup).length : Int) = p.data.length + 5 := by
    simp only [QosPublish.body, List.length_cons, List.length_append, length_shortBytes]
    omega
  rw [decodePublish_read hlength h, decodeFlag_qosFlags]
  rfl

theorem snDecode_publish (p : QosPublish) (dup : Bool) : snDecode (p.bytes dup) =
    if p.data = [] then .error .indet else .ok (publishMessage (p.decoded dup)) := by
  have hle := p.size_le
  have hlength : (p.body dup).length = p.data.length + 5 := by
    simp only [QosPublish.body, List.length_cons, List.length_append, length_shortBytes]
    omega
  have hn : p.size ≤ 65535 := by
    unfold QosPublish.size
    split <;> omega
  have hsize : p.size = if p.size ≤ 255 then (p.body dup).length + 2 else (p.body dup).length + 4 := by
    unfold QosPublish.size
    split_ifs <;> omega
  have htype : SnMessageType.publish ∈ SnMessageType.all := by decide
  obtain ⟨i, hdrop, hdecode⟩ := snDecode_framed htype [] hn hsize
  rw [List.append_nil] at hdrop hdecode
  unfold QosPublish.bytes
  rw [hdecode, snDecodeBody, decodePublish_body (r := []) (by rw [List.append_nil]; exact hdrop)]
  by_cases hnil : p.data = []
  · rw [if_pos hnil, if_pos hnil]
    rfl
  · rw [if_neg hnil, if_neg hnil]
    rfl

theorem snDecode_pubrel (messageId : UInt16) :
    snDecode (Datagram.pubrel messageId).wire = .ok (pubrelMessage messageId) := by
  have hsize : (Datagram.pubrel messageId).size = 4 := rfl
  have hdecode := snDecode_wire (.pubrel messageId) (by rw [hsize]; decide) []
  rw [List.append_nil] at hdecode
  exact hdecode

namespace Client

variable {c : Client} {p : QosPublish} {dup : Bool}

/-- The client that has read a PUBLISH, called `get_pub_pt` and sent a PUBREC. -/
def afterPublishRead (c : Client) (p : QosPublish) (dup : Bool) : Client :=
  { c with
    wire := c.wire ++ [.received (publishMessage (p.decoded dup))] ++
      [.sent (pubrecMessage p.messageId)]
    notices := c.notices ++ [.publish (.ref (CString.ofBytes p.data))
      (c.reverseTopicNameMap ((p.decoded dup).topic.id.under c.memory)) 2 p.retain.toNat
      dup.toNat] }

/-- The client that has read a PUBREL and sent a PUBCOMP. -/
def afterPubrelRead (c : Client) (messageId : UInt16) : Client :=
  { c with wire := c.wire ++ [.received (pubrelMessage messageId)] ++
      [.sent (pubcompMessage messageId)] }

theorem processDatagram_publish (h : p.Legible) :
    c.processDatagram (p.bytes dup) = .ok (c.afterPublishRead p dup) := by
  unfold processDatagram
  rw [snDecode_publish, if_neg h, ok_bind]
  rfl

theorem processDatagram_illegible (h : ¬ p.Legible) :
    c.processDatagram (p.bytes dup) = .error .indet := by
  unfold processDatagram
  rw [snDecode_publish, if_pos (not_not.1 h)]
  rfl

theorem processDatagram_pubrel (messageId : UInt16) :
    c.processDatagram (Datagram.pubrel messageId).wire = .ok (c.afterPubrelRead messageId) := by
  unfold processDatagram
  rw [snDecode_pubrel]
  rfl

end Client

/-! ### Steps -/

/-- Each packet of a log is answered, a PUBLISH with a PUBREC and a PUBREL with a PUBCOMP, and
nothing else is sent. -/
inductive Answered : List (Traffic SnMessage) → Prop where
  | nil : Answered []
  | publish {wire : List (Traffic SnMessage)} (h : Answered wire) (p : QosPublish) (dup : Bool) :
    Answered (wire ++ [.received (publishMessage (p.decoded dup))] ++
      [.sent (pubrecMessage p.messageId)])
  | pubrel {wire : List (Traffic SnMessage)} (h : Answered wire) (messageId : UInt16) :
    Answered (wire ++ [.received (pubrelMessage messageId)] ++ [.sent (pubcompMessage messageId)])

namespace Exchange

variable {s t : Exchange} {e : ExchangeEvent} {es : List ExchangeEvent} {h : Handshake}
  {d : GatewayDatagram} {p : QosPublish} {dup : Bool} {messageId : UInt16} {c : Client}

/-- In the step `e` the packet `d` of the handshake `h` arrives at the client. -/
def Reads (s : Exchange) (e : ExchangeEvent) (h : Handshake) (d : GatewayDatagram) : Prop :=
  ∃ i fate, e = .toClient i fate ∧ fate.arriving s.toClient i = some (h, d)

/-- Every packet was answered, and `get_pub_pt` was called at most once for each handshake. -/
def Right (s : Exchange) : Prop := Answered s.client.wire ∧ s.calls.Nodup

/-- The first copy of a PUBLISH to arrive in its handshake, which the client can read. -/
def Kept (s : Exchange) (e : ExchangeEvent) : Prop :=
  ∀ h p dup, Reads s e h (.publish p dup) → p.Legible ∧ h ∉ s.arrived

/-- Nothing arrives at the client. -/
structure Quiet (s t : Exchange) : Prop where
  wire : t.client.wire = s.client.wire
  arrived : t.arrived = s.arrived
  calls : t.calls = s.calls

theorem gatewayReads_eq (s : Exchange) (message : SnMessage) :
    ∃ phase, s.gatewayReads message = { s with phase := phase } := by
  unfold gatewayReads
  split
  · split <;> exact ⟨_, rfl⟩
  · split <;> exact ⟨_, rfl⟩
  · exact ⟨_, rfl⟩

/-- A step in which nothing arrives at the client. -/
theorem step_quiet (hno : ∀ h d, ¬ Reads s e h d) : ∃ t, s.step e = .ok t ∧ Quiet s t := by
  cases e with
  | start p =>
    rw [step]
    split <;> exact ⟨_, rfl, rfl, rfl, rfl⟩
  | publishAgain messageId dup =>
    rw [step]
    split <;> exact ⟨_, rfl, rfl, rfl, rfl⟩
  | sendPubrel messageId =>
    rw [step]
    split <;> exact ⟨_, rfl, rfl, rfl, rfl⟩
  | toClient i fate =>
    rw [step]
    split
    · next h d hget => exact absurd ⟨i, fate, rfl, hget⟩ (hno h d)
    · exact ⟨_, rfl, rfl, rfl, rfl⟩
  | toGateway i fate =>
    rw [step]
    split
    · next message _ =>
      obtain ⟨phase, hphase⟩ := gatewayReads_eq { s with toGateway := fate.after s.toGateway i } message
      rw [hphase]
      exact ⟨_, rfl, rfl, rfl, rfl⟩
    · exact ⟨_, rfl, rfl, rfl, rfl⟩
  | memory contents => exact ⟨_, rfl, rfl, rfl, rfl⟩

theorem step_reads (hr : Reads s e h d) :
    ∃ toClient, s.step e = { s with toClient := toClient }.clientReads h d := by
  obtain ⟨i, fate, rfl, hget⟩ := hr
  refine ⟨fate.after s.toClient i, ?_⟩
  unfold step
  simp only [hget]

theorem step_publish (hr : Reads s e h (.publish p dup)) (hp : p.Legible) :
    ∃ t, s.step e = .ok t ∧ t.client = s.client.afterPublishRead p dup ∧
      t.arrived = s.arrived ++ [h] ∧ t.calls = s.calls ++ [h] := by
  obtain ⟨toClient, hstep⟩ := step_reads hr
  have hone : (s.client.notices ++ [Notice.publish (.ref (CString.ofBytes p.data))
      (s.client.reverseTopicNameMap ((p.decoded dup).topic.id.under s.client.memory)) 2
      p.retain.toNat dup.toNat]).length -
      s.client.notices.length = 1 := by
    rw [List.length_append, Nat.add_sub_cancel_left]
    rfl
  rw [hstep]
  change ∃ t, (s.client.processDatagram (p.bytes dup) >>= _) = .ok t ∧ _
  rw [Client.processDatagram_publish hp]
  refine ⟨_, rfl, rfl, rfl, ?_⟩
  change s.calls ++ List.replicate ((s.client.notices ++ _).length - s.client.notices.length) h = _
  rw [hone]
  rfl

theorem step_illegible (hr : Reads s e h (.publish p dup)) (hp : ¬ p.Legible) :
    s.step e = .error .indet := by
  obtain ⟨toClient, hstep⟩ := step_reads hr
  rw [hstep]
  change (s.client.processDatagram (p.bytes dup) >>= _) = _
  rw [Client.processDatagram_illegible hp]
  rfl

theorem step_pubrel (hr : Reads s e h (.pubrel messageId)) :
    ∃ t, s.step e = .ok t ∧ t.client = s.client.afterPubrelRead messageId ∧
      t.arrived = s.arrived ∧ t.calls = s.calls := by
  obtain ⟨toClient, hstep⟩ := step_reads hr
  rw [hstep]
  change ∃ t, (s.client.processDatagram (Datagram.pubrel messageId).wire >>= _) = .ok t ∧ _
  rw [Client.processDatagram_pubrel]
  refine ⟨_, rfl, rfl, List.append_nil _, ?_⟩
  change s.calls ++ List.replicate (s.client.notices.length - s.client.notices.length) h = _
  rw [Nat.sub_self]
  exact List.append_nil _

/-- In a step at most one packet arrives at the client. -/
theorem Reads.unique {h' : Handshake} {d' : GatewayDatagram} (hr : Reads s e h d)
    (hr' : Reads s e h' d') : h = h' ∧ d = d' := by
  obtain ⟨i, fate, rfl, hget⟩ := hr
  obtain ⟨j, fate', hsame, hget'⟩ := hr'
  cases hsame
  exact Prod.mk.inj (Option.some.inj (hget.symm.trans hget'))

/-- What a step does: it answers what arrives, and calls `get_pub_pt` for a PUBLISH. -/
inductive Outcome (s : Exchange) (e : ExchangeEvent) : Prop where
  | quiet {t : Exchange} (ht : s.step e = .ok t) (hquiet : Quiet s t) (hkept : Kept s e)
  | pubrel {t : Exchange} {messageId : UInt16} (ht : s.step e = .ok t)
    (hclient : t.client = s.client.afterPubrelRead messageId) (harrived : t.arrived = s.arrived)
    (hcalls : t.calls = s.calls) (hkept : Kept s e)
  | publish {t : Exchange} {h : Handshake} {p : QosPublish} {dup : Bool} (ht : s.step e = .ok t)
    (hclient : t.client = s.client.afterPublishRead p dup) (harrived : t.arrived = s.arrived ++ [h])
    (hcalls : t.calls = s.calls ++ [h]) (hkept : Kept s e ↔ h ∉ s.arrived)
  | fault {f : Fault} (ht : s.step e = .error f) (hkept : ¬ Kept s e)

theorem step_outcome (s : Exchange) (e : ExchangeEvent) : Outcome s e := by
  by_cases hreads : ∃ h d, Reads s e h d
  · obtain ⟨h, d, hr⟩ := hreads
    cases d with
    | publish p dup =>
      have hkept : Kept s e ↔ p.Legible ∧ h ∉ s.arrived := by
        constructor
        · intro hk
          exact hk h p dup hr
        · intro hk h' p' dup' hr'
          obtain ⟨rfl, hd⟩ := hr.unique hr'
          cases hd
          exact hk
      by_cases hp : p.Legible
      · obtain ⟨t, ht, hclient, harrived, hcalls⟩ := step_publish hr hp
        exact .publish ht hclient harrived hcalls (hkept.trans (and_iff_right hp))
      · exact .fault (step_illegible hr hp) fun hk => hp (hkept.mp hk).1
    | pubrel messageId =>
      obtain ⟨t, ht, hclient, harrived, hcalls⟩ := step_pubrel hr
      refine .pubrel ht hclient harrived hcalls fun h' p' dup' hr' => ?_
      exact absurd (hr.unique hr').2 (by simp)
  · have hno : ∀ h d, ¬ Reads s e h d := fun h d hr => hreads ⟨h, d, hr⟩
    obtain ⟨t, ht, hquiet⟩ := step_quiet hno
    exact .quiet ht hquiet fun h p dup hr => absurd hr (hno h _)

/-! ### Runs -/

/-- Every step that returns answers what arrived and calls `get_pub_pt` for each PUBLISH. -/
structure Inv (s : Exchange) : Prop where
  answered : Answered s.client.wire
  calls : s.calls = s.arrived

theorem inv_init (c : Client) : Inv (init c) := ⟨.nil, rfl⟩

theorem inv_step (hs : Inv s) (ht : s.step e = .ok t) : Inv t := by
  cases step_outcome s e with
  | quiet ht' hquiet _ =>
    cases ht'.symm.trans ht
    exact ⟨hquiet.wire ▸ hs.answered, hquiet.calls.trans (hs.calls.trans hquiet.arrived.symm)⟩
  | pubrel ht' hclient harrived hcalls _ =>
    cases ht'.symm.trans ht
    refine ⟨?_, hcalls.trans (hs.calls.trans harrived.symm)⟩
    rw [hclient]
    exact .pubrel hs.answered _
  | publish ht' hclient harrived hcalls _ =>
    cases ht'.symm.trans ht
    refine ⟨?_, ?_⟩
    · rw [hclient]
      exact .publish hs.answered _ _
    · rw [hcalls, harrived, hs.calls]
  | fault ht' _ => cases ht'.symm.trans ht

/-- However the packets fare, each that arrives is answered, and `get_pub_pt` is called once for
each PUBLISH. -/
theorem inv_of_run (hrun : run step (init c) es = .ok s) : Inv s :=
  run_keeps (G := fun _ _ => True) (fun _ _ _ _ hs _ ht => inv_step hs ht) (inv_init c)
    (each_of_forall fun _ _ _ => trivial) hrun

theorem step_right_iff (hs : Inv s) (hright : Right s) :
    (∃ t, s.step e = .ok t ∧ Right t) ↔ Kept s e := by
  cases step_outcome s e with
  | quiet ht hquiet hkept =>
    have hinv := inv_step hs ht
    rw [exists_ok_iff ht]
    exact iff_of_true ⟨hinv.answered, hquiet.calls ▸ hright.2⟩ hkept
  | pubrel ht hclient harrived hcalls hkept =>
    have hinv := inv_step hs ht
    rw [exists_ok_iff ht]
    exact iff_of_true ⟨hinv.answered, hcalls ▸ hright.2⟩ hkept
  | @publish t h p dup ht hclient harrived hcalls hkept =>
    have hinv := inv_step hs ht
    have hnodup : t.calls.Nodup ↔ h ∉ s.arrived := by
      rw [hcalls, List.nodup_append_comm, List.singleton_append, List.nodup_cons, hs.calls]
      exact and_iff_left (hs.calls ▸ hright.2)
    rw [exists_ok_iff ht, hkept, ← hnodup]
    exact and_iff_right hinv.answered
  | fault ht hkept => simp [ht, hkept]

/-- Whatever the state of the client at the start, and its memory: in every run each packet is
answered, and no handshake calls `get_pub_pt` twice, if and only if each PUBLISH that arrives is
legible and the first of its handshake. -/
theorem receivesRight_iff (c : Client) (es : List ExchangeEvent) :
    Always step Right (init c) es ↔ Each step Kept (init c) es :=
  always_iff_each (I := Inv) (G := fun _ _ => True) (fun _ _ _ hs _ _ ht _ => inv_step hs ht)
    (fun _ _ hs hright _ => step_right_iff hs hright) (inv_init c) ⟨.nil, List.nodup_nil⟩
    (each_of_forall fun _ _ _ => trivial)

/-- The publication `x` on topic 1 with the message id 7. -/
def publishX : QosPublish := ⟨false, .id, 1, 7, [0x78], by decide⟩

/-- Its PUBLISH is sent twice, and both copies arrive. -/
def resentRun : List ExchangeEvent :=
  [.start publishX, .publishAgain 7 true, .toClient 0 .arrives, .toClient 0 .arrives]

theorem resentRun_not_right : ¬ Always step Right (init (.init .anonymous)) resentRun := by
  intro h
  obtain ⟨t, ht, -, hnodup⟩ := h _ (List.prefix_refl _)
  have hcalls : (run step (init (.init .anonymous)) resentRun).map (·.calls) =
      .ok [(7, 1), (7, 1)] := by decide +kernel
  rw [ht] at hcalls
  rw [show t.calls = [(7, 1), (7, 1)] from Except.ok.inj hcalls] at hnodup
  exact absurd hnodup (by decide)

/-! ### A gateway that sends each PUBLISH once -/

/-- The packet is a copy of the PUBLISH of a handshake. -/
def copyOf (h : Handshake) : Handshake × GatewayDatagram → Bool
  | (h', .publish ..) => h' = h
  | (_, .pubrel _) => false

/-- The gateway publishes what the client can read, and neither it nor the network makes a second
copy of a PUBLISH. -/
def Single (s : Exchange) : ExchangeEvent → Prop
  | .start p => p.Legible
  | .publishAgain .. => False
  | .toClient i fate => fate = .isDoubled → ∀ x, s.toClient[i]? = some x → ∀ h, copyOf h x = false
  | _ => True

/-- The copies of a PUBLISH, in flight or arrived. -/
def copies (s : Exchange) (h : Handshake) : Nat := s.toClient.countP (copyOf h) + s.arrived.count h

structure Once (s : Exchange) : Prop where
  copies_le : ∀ h, s.copies h ≤ 1
  begun : ∀ h, 0 < s.copies h → h.2 ≤ s.handshakes h.1
  legible : ∀ h p dup, (h, .publish p dup) ∈ s.toClient → p.Legible

theorem once_init (c : Client) : Once (init c) :=
  ⟨fun _ => by simp [copies, init], fun _ h => by simp [copies, init] at h, by simp [init]⟩

theorem once_start (hs : Once s) (hp : p.Legible) : Once (s.startHandshake p) := by
  have hcopies (h : Handshake) : (s.startHandshake p).copies h = s.copies h +
      if (p.messageId, s.handshakes p.messageId + 1) = h then 1 else 0 := by
    have hnext : (Function.update s.handshakes p.messageId (s.handshakes p.messageId + 1)) p.messageId =
        s.handshakes p.messageId + 1 := Function.update_self ..
    simp only [startHandshake, send, withPhase, handshakeOf, copies, List.countP_append, hnext,
      List.countP_singleton, copyOf, decide_eq_true_eq]
    omega
  have hfresh : s.copies (p.messageId, s.handshakes p.messageId + 1) = 0 := by
    by_contra hne
    have hle := hs.begun _ (Nat.pos_of_ne_zero hne)
    simp at hle
  have hgrown (messageId : UInt16) :
      s.handshakes messageId ≤ (s.startHandshake p).handshakes messageId := by
    change _ ≤ Function.update s.handshakes p.messageId _ messageId
    rw [Function.update_apply]
    split
    · next heq => rw [heq]; exact Nat.le_succ _
    · exact Nat.le_refl _
  refine ⟨fun h => ?_, fun h hpos => ?_, fun h q dup hmem => ?_⟩
  · rw [hcopies]
    split
    · next heq => rw [← heq, hfresh]
    · exact hs.copies_le h
  · rw [hcopies] at hpos
    split at hpos
    · next heq =>
      rw [← heq]
      change _ ≤ Function.update s.handshakes p.messageId _ p.messageId
      rw [Function.update_self]
    · exact (hs.begun h hpos).trans (hgrown h.1)
  · rcases mem_snoc.mp hmem with hmem | heq
    · exact hs.legible h q dup hmem
    · cases heq
      exact hp

theorem Once.of_copies_le (hs : Once s) (hle : ∀ h, t.copies h ≤ s.copies h)
    (hsame : t.handshakes = s.handshakes)
    (hmem : ∀ h p dup, (h, .publish p dup) ∈ t.toClient → (h, .publish p dup) ∈ s.toClient) :
    Once t := by
  refine ⟨fun h => (hle h).trans (hs.copies_le h), fun h hpos => ?_, fun h p dup hm => ?_⟩
  · rw [hsame]
    exact hs.begun h (hpos.trans_le (hle h))
  · exact hs.legible h p dup (hmem h p dup hm)

/-- What arrives has left the channel. -/
theorem copies_clientReads {fate : Fate} {i : Nat} (harrives : fate.arriving s.toClient i = some (h, d))
    (ht : ({ s with toClient := fate.after s.toClient i } : Exchange).clientReads h d = .ok t) :
    t.toClient = fate.after s.toClient i ∧ t.handshakes = s.handshakes ∧
      ∀ h', t.copies h' = s.copies h' := by
  obtain ⟨c, -, ht⟩ := bind_eq_ok.mp ht
  cases ht
  refine ⟨rfl, rfl, fun h' => ?_⟩
  cases fate with
  | arrives =>
    have hcount := Fate.countP_eraseIdx (p := copyOf h') harrives
    unfold copies
    change (s.toClient.eraseIdx i).countP _ + List.count h' (s.arrived ++ _) = _
    cases d with
    | publish p dup =>
      have hone : List.count h' [h] = if copyOf h' (h, .publish p dup) then 1 else 0 := by
        simp [copyOf, List.count_singleton]
      rw [List.count_append, hone]
      omega
    | pubrel messageId =>
      simp only [copyOf, Bool.false_eq_true, if_false] at hcount
      rw [List.append_nil]
      omega
  | isLost => cases harrives
  | isDoubled => cases harrives

theorem once_step (hs : Once s) (hsingle : Single s e) (ht : s.step e = .ok t) : Once t := by
  cases e with
  | start p =>
    rw [step] at ht
    split at ht
    · cases ht
      exact once_start hs hsingle
    · cases ht
      exact hs
  | publishAgain messageId dup => exact absurd hsingle id
  | sendPubrel messageId =>
    rw [step] at ht
    split at ht
    · cases ht
      refine hs.of_copies_le (fun h => ?_) rfl fun h p dup hmem => ?_
      · simp [copies, send, copyOf]
      · exact (mem_snoc.mp hmem).resolve_right (by simp)
    · cases ht
      exact hs
  | toClient i fate =>
    rw [step] at ht
    split at ht
    · next h d harrives =>
      obtain ⟨htoClient, hhandshakes, hcopies⟩ := copies_clientReads harrives ht
      refine hs.of_copies_le (fun h => (hcopies h).le) hhandshakes fun h p dup hmem => ?_
      rw [htoClient] at hmem
      exact Fate.mem_of_mem_after hmem
    · cases ht
      refine hs.of_copies_le (fun h => ?_) rfl fun h p dup hmem => Fate.mem_of_mem_after hmem
      exact Nat.add_le_add_right
        (Fate.countP_after_le fun x hd hx => hsingle hd x hx h) _
  | toGateway i fate =>
    rw [step] at ht
    split at ht
    · next message _ =>
      obtain ⟨phase, hphase⟩ := gatewayReads_eq { s with toGateway := fate.after s.toGateway i } message
      rw [hphase] at ht
      cases ht
      exact hs.of_copies_le (fun h => Nat.le_refl _) rfl fun h p dup hmem => hmem
    · cases ht
      exact hs.of_copies_le (fun h => Nat.le_refl _) rfl fun h p dup hmem => hmem
  | memory contents =>
    cases ht
    exact hs.of_copies_le (fun h => Nat.le_refl _) rfl fun h p dup hmem => hmem

theorem Once.kept (hs : Once s) : Kept s e := by
  rintro h p dup ⟨i, fate, rfl, harrives⟩
  have hmem : (h, .publish p dup) ∈ s.toClient := by
    cases fate with
    | arrives => exact List.mem_of_getElem? harrives
    | isLost => cases harrives
    | isDoubled => cases harrives
  refine ⟨hs.legible h p dup hmem, fun harrived => ?_⟩
  -- one copy is in flight, and another has arrived
  have hflight : 0 < s.toClient.countP (copyOf h) :=
    List.countP_pos_iff.mpr ⟨_, hmem, by simp [copyOf]⟩
  have hcount := List.count_pos_iff.mpr harrived
  have hle := hs.copies_le h
  unfold copies at hle
  omega

/-- QoS 2 publications are received exactly once from a gateway that never repeats a PUBLISH over
a network that never doubles one. -/
theorem right_of_single (c : Client) (h : Each step Single (init c) es) :
    Always step Right (init c) es := by
  have hall := always_of_each (P := fun s => Inv s ∧ Right s ∧ Once s) (C := Single)
    (fun s e hs hsingle => by
      obtain ⟨t, ht, hright⟩ := (step_right_iff hs.1 hs.2.1).mpr hs.2.2.kept
      exact ⟨t, ht, inv_step hs.1 ht, hright, once_step hs.2.2 hsingle ht⟩)
    ⟨inv_init c, ⟨.nil, List.nodup_nil⟩, once_init c⟩ h
  exact hall.mono fun t ht => ht.2.1

end Exchange

end IotClient.MqttSn
