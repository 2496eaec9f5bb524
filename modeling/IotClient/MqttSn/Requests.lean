import IotClient.MqttSn.MessageIds

/-!
# The requests an MQTT-SN client has outstanding

`awaiting wire` are the requests without a final acknowledgement after the messages of `wire`: a
SUBSCRIBE, UNSUBSCRIBE or REGISTER, a PUBLISH with a QoS other than 0, and a PUBLISH that is
kept back until its REGISTER is acknowledged. `messages_map` should hold exactly these, under
their own ids, and does so in a run if and only if its steps do what `Kept` says.
-/

namespace IotClient.MqttSn

open Mem Machine

/-- The message is stored until it is acknowledged. -/
def awaits (message : SnMessage) : Bool :=
  match message.packet with
  | .ref (.subscribe _) | .ref (.unsubscribe _) | .ref (.register _) => true
  | .ref (.publish sp) => sp.topic.qos ≠ .is 0
  | _ => false

/-- `reply` is the final acknowledgement of `request`; a REGACK is that of its REGISTER and of
the PUBLISH with the id before. -/
def settles (reply request : SnMessage) : Bool :=
  match reply.packet, request.packet with
  | .ref (.suback sa), .ref (.subscribe s) => s.messageId = sa.messageId
  | .ref (.unsuback usa), .ref (.unsubscribe us) => us.messageId = usa.messageId
  | .ref (.regack ra), .ref (.register r) => r.msgId = ra.messageId
  | .ref (.regack ra), .ref (.publish sp) => sp.messageId = ra.messageId - 1
  | .ref (.puback pa), .ref (.publish sp) =>
    sp.topic.qos = .is 1 ∧ sp.messageId = pa.messageId
  | .ref (.pubcomp pc), .ref (.publish sp) =>
    sp.topic.qos = .is 2 ∧ sp.messageId = pc.messageId
  | _, _ => false

def awaitingStep (rs : List SnMessage) : Traffic SnMessage → List SnMessage
  | .sent message => if awaits message then rs ++ [message] else rs
  | .queued message => rs ++ [message]
  | .received reply => rs.filter (!settles reply ·)

def awaiting (wire : List (Traffic SnMessage)) : List SnMessage := wire.foldl awaitingStep []

variable {wire : List (Traffic SnMessage)} {w : Traffic SnMessage} {message reply request : SnMessage}
  {k : UInt16}

theorem awaiting_snoc : awaiting (wire ++ [w]) = awaitingStep (awaiting wire) w := by
  rw [awaiting, List.foldl_append]; rfl

theorem awaiting_sent (h : awaits message = true) :
    awaiting (wire ++ [.sent message]) = awaiting wire ++ [message] :=
  awaiting_snoc.trans (if_pos h)

theorem awaiting_sent_other (h : awaits message = false) :
    awaiting (wire ++ [.sent message]) = awaiting wire :=
  awaiting_snoc.trans (if_neg (by simp [h]))

theorem awaiting_received :
    awaiting (wire ++ [.received reply]) = (awaiting wire).filter (!settles reply ·) :=
  awaiting_snoc

/-- What awaits an answer was sent or kept back. -/
theorem mem_awaiting (h : message ∈ awaiting wire) :
    (.sent message ∈ wire ∧ awaits message = true) ∨ .queued message ∈ wire := by
  induction wire using List.reverseRecOn with
  | nil => cases h
  | append_singleton wire w ih =>
    have hold (hm : message ∈ awaiting wire) :
        (.sent message ∈ wire ++ [w] ∧ awaits message = true) ∨
          .queued message ∈ wire ++ [w] := by
      rcases ih hm with ⟨hs, ha⟩ | hq
      · exact .inl ⟨List.mem_append_left _ hs, ha⟩
      · exact .inr (List.mem_append_left _ hq)
    rw [awaiting_snoc] at h
    cases w with
    | sent m =>
      change message ∈ if awaits m then awaiting wire ++ [m] else awaiting wire at h
      split at h
      · next ha =>
        rw [mem_snoc] at h
        rcases h with h | rfl
        · exact hold h
        · exact .inl ⟨by simp, ha⟩
      · exact hold h
    | queued m =>
      change message ∈ awaiting wire ++ [m] at h
      rw [mem_snoc] at h
      rcases h with h | rfl
      · exact hold h
      · exact .inr (by simp)
    | received m => exact hold (List.mem_filter.1 h).1

/-- The id of the one request a reply is for. -/
def GatewayPacket.answered : GatewayPacket → Option UInt16
  | puback a => some a.messageId
  | pubcomp a => some a.messageId
  | suback a => some a.messageId
  | unsuback a => some a.messageId
  | _ => none

theorem key_of_settles {q : GatewayPacket} (hq : q.answered = some k)
    (h : settles q.message message = true) : requestKey message = some k := by
  obtain ⟨type, packet⟩ := message
  cases q <;> cases hq <;> cases packet with
  | ref packet =>
    cases packet <;> first | cases h | simp_all [settles, GatewayPacket.message, requestKey]
  | _ => cases h

namespace Client

/-- The map holds exactly the requests that await an answer, each under its own id. -/
def MapRight (c : Client) : Prop := c.messagesMap.Holds requestKey (awaiting c.wire)

/-- What keeps the map right. -/
def Kept (c : Client) : Event → Prop
  -- the topic is registered, so no REGISTER is sent
  | .sendMessage p => c.topicIdOf p.topicName ≠ 0
  -- the SUBSCRIBE that is found is accepted, and has the name of its topic
  | .receive (.suback a) => ∀ topic messageId,
    c.messagesMap a.messageId = some (subscribeMessage topic messageId) →
      a.code = 0 ∧ ∃ name, topic.value = .ref name
  -- the request is found
  | .receive (.pubcomp a) => c.messagesMap a.messageId ≠ none
  | .receive (.unsuback a) => c.messagesMap a.messageId ≠ none
  | _ => True

structure Inv (c : Client) : Prop where
  wire : WireInv c
  not_queued : ∀ message, .queued message ∉ c.wire

variable {c t : Client}

theorem Inv.sent (hc : Inv c) (h : message ∈ awaiting c.wire) :
    .sent message ∈ c.wire ∧ awaits message = true :=
  (mem_awaiting h).resolve_right (hc.not_queued message)

theorem Inv.not_register (hc : Inv c) {topicName : CString} {msgId : UInt16} :
    .sent (registerMessage topicName msgId) ∉ c.wire := by
  intro h
  obtain ⟨p, hp⟩ := hc.wire.explained _ h
  exact hc.not_queued _ hp

/-- The request that was sent with an id is the only one. -/
theorem Inv.eq_of_key (hc : Inv c) (hm : message ∈ awaiting c.wire)
    (hk : requestKey message = some k) (hr : .sent request ∈ c.wire)
    (hkr : requestKey request = some k) : message = request :=
  Traffic.sent.inj (hc.wire.ids.unique _ (hc.sent hm).1 _ hr k hk hkr)

/-- What the map holds under the id of a request that was sent is the request. -/
theorem MapRight.eq_of_get (hm : MapRight c) (hc : Inv c) (h : c.messagesMap k = some message)
    (hr : .sent request ∈ c.wire) (hkr : requestKey request = some k) : message = request := by
  obtain ⟨hmem, hk⟩ := (hm k message).1 h
  exact hc.eq_of_key hmem hk hr hkr

/-! ### A new request -/

/-- `t` is `c` after `message` was sent with the next id, and stored. -/
structure Adds (c t : Client) (message : SnMessage) : Prop where
  key : requestKey message = some c.nextId
  awaits : awaits message = true
  explained : Explained c.wire (.sent message)
  messagesMap : t.messagesMap = c.messagesMap.set c.nextId message
  wire : t.wire = c.wire ++ [.sent message]
  count : t.currentPacketNumber = c.currentPacketNumber + 1

theorem Adds.inv (h : Adds c t message) (hc : Inv c) (hlt : t.currentPacketNumber < 65536) :
    Inv t := by
  refine ⟨hc.wire.snoc_next h.wire h.count hlt h.key h.explained, fun m hm => ?_⟩
  rw [h.wire, mem_snoc] at hm
  exact hc.not_queued m (hm.resolve_right (by simp))

theorem Adds.mapRight (h : Adds c t message) (hc : Inv c) (hlt : t.currentPacketNumber < 65536)
    (hm : MapRight c) : MapRight t := by
  have hcount := h.count
  unfold MapRight
  rw [h.wire, awaiting_sent h.awaits, h.messagesMap]
  exact Table.Holds.add hm h.key fun r hr =>
    hc.wire.ne_next (by omega) (hc.sent hr).1

/-! ### An answer -/

/-- The answered requests are those with the id of the request the reply is for. -/
theorem settles_iff (hc : Inv c) (hr : .sent request ∈ c.wire)
    (hk : requestKey request = some k) (hs : settles reply request = true)
    (hkey : ∀ r, settles reply r = true → requestKey r = some k) :
    ∀ r ∈ awaiting c.wire, settles reply r = true ↔ requestKey r = some k := by
  intro r hmem
  refine ⟨hkey r, fun hkr => ?_⟩
  rw [hc.eq_of_key hmem hkr hr hk]
  exact hs

theorem mapRight_remove (hc : Inv c) (hm : MapRight c) (hr : .sent request ∈ c.wire)
    (hk : requestKey request = some k) (hs : settles reply request = true)
    (hkey : ∀ r, settles reply r = true → requestKey r = some k)
    (hmap : t.messagesMap = c.messagesMap.erase k) (hw : t.wire = c.wire ++ [.received reply]) :
    MapRight t := by
  unfold MapRight
  rw [hmap, hw, awaiting_received]
  exact hm.remove (settles_iff hc hr hk hs hkey)

theorem Inv.snoc_none (hc : Inv c) (hw : t.wire = c.wire ++ [w])
    (hcount : t.currentPacketNumber = c.currentPacketNumber) (hid : ownId w = none)
    (hexp : Explained c.wire w) (hq : ∀ m, w ≠ .queued m) : Inv t := by
  refine ⟨hc.wire.snoc_none hw hcount hid hexp, fun m hm => ?_⟩
  rw [hw, mem_snoc] at hm
  exact hc.not_queued m (hm.resolve_right fun h => hq m h.symm)

theorem Inv.received (hc : Inv c) (hw : t.wire = c.wire ++ [.received reply])
    (hcount : t.currentPacketNumber = c.currentPacketNumber) : Inv t :=
  hc.snoc_none hw hcount rfl trivial (by simp)

/-- A reply that settles nothing. -/
theorem mapRight_received (hm : MapRight c) (hs : ∀ r, settles reply r = false)
    (hmap : t.messagesMap = c.messagesMap) (hw : t.wire = c.wire ++ [.received reply]) :
    MapRight t := by
  have hsame : (awaiting c.wire).filter (!settles reply ·) = awaiting c.wire := by
    rw [List.filter_eq_self]
    intro r _
    simp [hs r]
  rwa [MapRight, hmap, hw, awaiting_received, hsame]

theorem mapRight_sent (hm : MapRight c) (ha : awaits message = false)
    (hmap : t.messagesMap = c.messagesMap) (hw : t.wire = c.wire ++ [.sent message]) :
    MapRight t := by
  rwa [MapRight, hmap, hw, awaiting_sent_other ha]

/-! ### The steps -/

/-- What a step does to the map: it keeps it right, or it does not. -/
inductive Outcome (c : Client) (e : Event) : Prop where
  | right {t : Client} (hkept : Kept c e) (ht : step c e = .ok t) (hright : MapRight t)
    (hinv : Inv t)
  | wrong (hkept : ¬ Kept c e) (hwrong : ∀ t, step c e = .ok t → ¬ MapRight t)

variable {topicName : CString} {qos : Nat} {p : Publication}

theorem subscribe_outcome (hc : Inv c) (hm : MapRight c)
    (hfew : FewIds c (.sendSubscribe topicName qos)) :
    Outcome c (.sendSubscribe topicName qos) := by
  have hlt := hfew _ step_subscribe
  set message := subscribeMessage (c.requestTopic topicName (.is qos)) c.nextId
  have hadds : Adds c (c.afterRequest message) message := ⟨rfl, rfl, trivial, rfl, rfl, rfl⟩
  exact .right trivial step_subscribe (hadds.mapRight hc (by omega) hm) (hadds.inv hc (by omega))

theorem unsubscribe_outcome (hc : Inv c) (hm : MapRight c)
    (hfew : FewIds c (.sendUnsubscribe topicName)) : Outcome c (.sendUnsubscribe topicName) := by
  have hlt := hfew _ step_unsubscribe
  set message := unsubscribeMessage (c.requestTopic topicName .indet) c.nextId
  have hadds : Adds c (c.afterRequest message) message :=
    ⟨rfl, rfl, ⟨c, topicName, rfl⟩, rfl, rfl, rfl⟩
  exact .right trivial step_unsubscribe (hadds.mapRight hc (by omega) hm) (hadds.inv hc (by omega))

/-- A PUBLISH on a topic that is registered. -/
theorem publish_outcome (hc : Inv c) (hm : MapRight c) (h : c.topicIdOf p.topicName ≠ 0)
    (hfew : FewIds c (.sendMessage p)) : Outcome c (.sendMessage p) := by
  set snPublish := p.packet (c.topicIdOf p.topicName) c.nextId
  have hlt : (c.countPacket.afterPublish snPublish p.qos).currentPacketNumber < 65535 :=
    hfew _ (step_publish h)
  have hcount : Inv c.countPacket := ⟨hc.wire.countPacket, hc.not_queued⟩
  by_cases hq : p.qos = 0
  · have hw : (c.countPacket.afterPublish snPublish p.qos).wire = c.wire ++
      [.sent (publishMessage { snPublish with messageId := c.countPacket.nextId })] := rfl
    refine .right h (step_publish h) (mapRight_sent hm ?_ (if_pos hq) hw) ?_
    · simp [awaits, publishMessage, snPublish, Publication.packet, hq]
    · have hlt' : (c.countPacket.afterPublish snPublish p.qos).currentPacketNumber < 65536 := by
        omega
      refine ⟨hcount.wire.snoc_next hw rfl hlt' rfl trivial, fun m hmem => ?_⟩
      rw [hw, mem_snoc] at hmem
      exact hc.not_queued m (hmem.resolve_right (by simp))
  · have hadds : Adds c.countPacket (c.countPacket.afterPublish snPublish p.qos)
        (publishMessage { snPublish with messageId := c.countPacket.nextId }) := by
      refine ⟨rfl, ?_, trivial, if_neg hq, rfl, rfl⟩
      simp [awaits, publishMessage, snPublish, Publication.packet, hq]
    exact .right h (step_publish h) (hadds.mapRight hcount (by omega) hm)
      (hadds.inv hcount (by omega))

/-- A REGISTER is stored under 0. -/
theorem keep_outcome (hc : Inv c) (h : c.topicIdOf p.topicName = 0)
    (hfew : FewIds c (.sendMessage p)) : Outcome c (.sendMessage p) := by
  refine .wrong (fun hkept => hkept h) fun t ht hright => ?_
  have hlt := hfew t ht
  obtain rfl := Except.ok.inj ((step_keep h).symm.trans ht)
  have h0 := hc.wire.ids.nonneg
  have hget : (c.afterKeep p).messagesMap 0 =
      some (registerMessage p.topicName c.countPacket.nextId) :=
    Table.set_self (c.messagesMap.set c.nextId (c.keptMessage p)) 0 _
  have hkey : c.countPacket.nextId = 0 := Option.some.inj ((hright 0 _).1 hget).2
  have hnat : (c.countPacket.nextId.toNat : Int) = c.currentPacketNumber + 1 + 1 := by
    change c.currentPacketNumber + 1 + 1 < 65535 at hlt
    exact short_toNat_ofInt (n := c.currentPacketNumber + 1 + 1) (by omega) (by omega)
  rw [hkey] at hnat
  simp at hnat
  omega

/-- A reply to a request that awaits it, whose entry is removed. -/
theorem right_remove (hc : Inv c) (hm : MapRight c) {q : GatewayPacket}
    (hq : q.answered = some k) (hkept : Kept c (.receive q)) (hr : .sent request ∈ c.wire)
    (hk : requestKey request = some k) (hs : settles q.message request = true)
    (ht : step c (.receive q) = .ok t) (hmap : t.messagesMap = c.messagesMap.erase k)
    (hw : t.wire = c.wire ++ [.received q.message])
    (hcount : t.currentPacketNumber = c.currentPacketNumber) : Outcome c (.receive q) := by
  refine .right hkept ht ?_ (hc.received hw hcount)
  exact mapRight_remove hc hm hr hk hs (fun _ => key_of_settles hq) hmap hw

theorem puback_outcome (hc : Inv c) (hm : MapRight c) {a : SnPuback}
    (hans : Answers c (.receive (.puback a))) : Outcome c (.receive (.puback a)) := by
  obtain ⟨snPublish, hsent, hid, hqos⟩ := hans
  refine right_remove hc hm rfl trivial hsent (congrArg some hid) ?_ step_puback rfl rfl rfl
  simp [settles, GatewayPacket.message, publishMessage, hid, hqos]

theorem pubcomp_outcome (hc : Inv c) (hm : MapRight c) {a : SnPubcomp}
    (hans : Answers c (.receive (.pubcomp a))) : Outcome c (.receive (.pubcomp a)) := by
  obtain ⟨snPublish, hsent, hid, hqos⟩ := hc.wire.explained _ hans
  have hkey : requestKey (publishMessage snPublish) = some a.messageId := congrArg some hid
  cases h : c.messagesMap a.messageId with
  | none =>
    refine .wrong (fun hkept => hkept h) fun t ht => ?_
    rw [step_pubcomp_none h] at ht
    cases ht
  | some message =>
    obtain rfl := hm.eq_of_get hc h hsent hkey
    have hkept : Kept c (.receive (.pubcomp a)) := by simp [Kept, h]
    refine right_remove hc hm rfl hkept hsent hkey ?_ (step_pubcomp_some h) ?_ rfl rfl
    · simp [settles, GatewayPacket.message, publishMessage, hid, hqos]
    · exact congrArg c.messagesMap.erase hid

theorem unsuback_outcome (hc : Inv c) (hm : MapRight c) {a : SnUnsuback}
    (hans : Answers c (.receive (.unsuback a))) : Outcome c (.receive (.unsuback a)) := by
  obtain ⟨topic, hsent⟩ := hans
  obtain ⟨d, topicName, htopic⟩ := hc.wire.explained _ hsent
  obtain rfl := Ptr.ref.inj htopic
  cases h : c.messagesMap a.messageId with
  | none =>
    refine .wrong (fun hkept => hkept h) fun t ht => ?_
    rw [step_unsuback_none h] at ht
    cases ht
  | some message =>
    obtain rfl := hm.eq_of_get hc h hsent rfl
    have hkept : Kept c (.receive (.unsuback a)) := by simp [Kept, h]
    refine right_remove hc hm rfl hkept hsent rfl ?_ (step_unsuback_some h) rfl rfl rfl
    simp [settles, GatewayPacket.message, unsubscribeMessage]

/-- A SUBACK that finds its SUBSCRIBE. -/
theorem suback_found (hc : Inv c) (hm : MapRight c) {a : SnSuback} {topic : SnTopic}
    (hsent : .sent (subscribeMessage topic a.messageId) ∈ c.wire)
    (h : c.messagesMap a.messageId = some (subscribeMessage topic a.messageId)) :
    Outcome c (.receive (.suback a)) := by
  have hs : settles (GatewayPacket.suback a).message (subscribeMessage topic a.messageId) := by
    simp [settles, GatewayPacket.message, subscribeMessage]
  by_cases hcode : a.code = 0
  · cases hv : topic.value with
    | ref name =>
      have hkept : Kept c (.receive (.suback a)) := by
        intro topic' messageId h'
        cases h.symm.trans h'
        exact ⟨hcode, name, hv⟩
      have ht := step_suback_accepted hcode h
      rw [hv, addTopic_ref] at ht
      exact right_remove hc hm rfl hkept hsent rfl hs ht rfl rfl rfl
    | _ =>
      refine .wrong (fun hkept => ?_) fun t ht => ?_
      · obtain ⟨-, name, hname⟩ := hkept _ _ h
        exact nomatch hv.symm.trans hname
      · rw [step_suback_accepted hcode h, hv] at ht
        cases ht
  · refine .wrong (fun hkept => hcode (hkept _ _ h).1) fun t ht hright => ?_
    obtain rfl := Except.ok.inj ((step_suback_rejected hcode).symm.trans ht)
    -- the entry stays, but its request was answered
    have hmem := ((hright a.messageId (subscribeMessage topic a.messageId)).1 h).1
    change _ ∈ awaiting (c.wire ++ [.received (GatewayPacket.suback a).message]) at hmem
    rw [awaiting_received, List.mem_filter, hs] at hmem
    cases hmem.2

theorem suback_outcome (hc : Inv c) (hm : MapRight c) {a : SnSuback}
    (hans : Answers c (.receive (.suback a))) : Outcome c (.receive (.suback a)) := by
  obtain ⟨topic, hsent⟩ := hans
  cases h : c.messagesMap a.messageId with
  | none =>
    have hkept : Kept c (.receive (.suback a)) := fun _ _ h' => nomatch h.symm.trans h'
    refine right_remove hc hm rfl hkept hsent rfl ?_ (step_suback_none h) ?_ rfl rfl
    · simp [settles, GatewayPacket.message, subscribeMessage]
    · exact (Table.erase_of_none h).symm
  | some message =>
    obtain rfl := hm.eq_of_get hc h hsent rfl
    exact suback_found hc hm hsent h

/-- A PUBREC, which a PUBREL answers. -/
theorem pubrec_outcome (hc : Inv c) (hm : MapRight c) {a : SnPubrec}
    (hans : Answers c (.receive (.pubrec a))) : Outcome c (.receive (.pubrec a)) := by
  obtain ⟨snPublish, hsent, hid, hqos⟩ := hans
  have hread : Inv (c.afterRead (GatewayPacket.pubrec a).message) := hc.received rfl rfl
  have hright : MapRight (c.afterRead (GatewayPacket.pubrec a).message) :=
    mapRight_received hm (fun _ => rfl) rfl rfl
  refine .right trivial step_pubrec (mapRight_sent hright rfl rfl rfl) ?_
  exact hread.snoc_none rfl rfl rfl ⟨snPublish, List.mem_append_left _ hsent, hid, hqos⟩ (by simp)

theorem register_outcome (hc : Inv c) (hm : MapRight c) {topicId msgId : UInt16} :
    Outcome c (.receive (.register topicId msgId topicName)) := by
  set reply := (GatewayPacket.register topicId msgId topicName).message with hreply
  have hread : Inv ((c.afterRead reply).withTopic topicName topicId) := hc.received rfl rfl
  have hright : MapRight ((c.afterRead reply).withTopic topicName topicId) :=
    mapRight_received hm (fun _ => rfl) rfl rfl
  exact .right trivial step_register (mapRight_sent hright rfl rfl rfl)
    (hread.snoc_none rfl rfl rfl trivial (by simp))

theorem step_outcome {e : Event} (hc : Inv c) (hm : MapRight c) (hfew : FewIds c e)
    (hans : Answers c e) : Outcome c e := by
  cases e with
  | sendSubscribe topicName qos => exact subscribe_outcome hc hm hfew
  | sendUnsubscribe topicName => exact unsubscribe_outcome hc hm hfew
  | sendMessage p =>
    by_cases h : c.topicIdOf p.topicName = 0
    · exact keep_outcome hc h hfew
    · exact publish_outcome hc hm h hfew
  | receive q =>
    cases q with
    | register topicId msgId topicName => exact register_outcome hc hm
    | regack a =>
      obtain ⟨topicName, hsent⟩ := hans
      exact absurd hsent hc.not_register
    | puback a => exact puback_outcome hc hm hans
    | pubrec a => exact pubrec_outcome hc hm hans
    | pubcomp a => exact pubcomp_outcome hc hm hans
    | suback a => exact suback_outcome hc hm hans
    | unsuback a => exact unsuback_outcome hc hm hans

/-! ### Runs -/

theorem Outcome.iff {e : Event} (h : Outcome c e) :
    (∃ t, step c e = .ok t ∧ MapRight t) ↔ Kept c e := by
  cases h with
  | right hkept ht hright => exact iff_of_true ⟨_, ht, hright⟩ hkept
  | wrong hkept hwrong =>
    refine iff_of_false ?_ hkept
    rintro ⟨t, ht, hright⟩
    exact hwrong t ht hright

theorem Outcome.inv {e : Event} (h : Outcome c e) (ht : step c e = .ok t) (hright : MapRight t) :
    Inv t := by
  cases h with
  | right _ ht' _ hinv =>
    obtain rfl := Except.ok.inj (ht'.symm.trans ht)
    exact hinv
  | wrong _ hwrong => exact absurd hright (hwrong t ht)

/-- After every step of a session the map holds exactly the requests that await an answer if
and only if every step keeps it. -/
theorem messagesMapRight_iff_kept (hc : Fresh c) (es : List Event) (hfew : Each step FewIds c es)
    (hans : Each step Answers c es) : Always step MapRight c es ↔ Each step Kept c es := by
  refine always_iff_each (I := Inv)
    (fun _ _ _ hi hm h ht hright => (step_outcome hi hm h.1 h.2).inv ht hright)
    (fun _ _ hi hm h => (step_outcome hi hm h.1 h.2).iff) ?_ ?_ (hfew.and hans)
  · exact ⟨hc.wireInv, by rw [hc.wire]; simp⟩
  · unfold MapRight
    rw [hc.messagesMap, hc.wire]
    exact Table.holds_empty

/-- A SUBSCRIBE for `t` that the gateway rejects. -/
def rejectedRun : List Event :=
  [.sendSubscribe (.ofBytes [0x74]) 1, .receive (.suback ⟨0, 1, 3, 0⟩)]

theorem answers_rejectedRun : Each step Answers (init .anonymous) rejectedRun := by
  refine each_cons.2 ⟨trivial, ?_⟩
  rintro _ ⟨⟩
  exact each_cons.2 ⟨⟨_, List.mem_singleton.2 rfl⟩, fun _ _ => each_nil⟩

theorem messagesMapRight_iff_kept_rejectedRun :
    Each step FewIds (init .anonymous) rejectedRun ∧
      Each step Answers (init .anonymous) rejectedRun ∧
      (Always step MapRight (init .anonymous) rejectedRun ↔
        Each step Kept (init .anonymous) rejectedRun) := by
  have hfew : Each step FewIds (init .anonymous) rejectedRun := by decide
  exact ⟨hfew, answers_rejectedRun, messagesMapRight_iff_kept (fresh_init .anonymous) rejectedRun hfew
    answers_rejectedRun⟩

/-- The SUBSCRIBE stays in the map. -/
theorem rejectedRun_not_mapRight :
    Each step Answers (init .anonymous) rejectedRun ∧
      ¬ Always step MapRight (init .anonymous) rejectedRun := by
  refine ⟨answers_rejectedRun, fun h => ?_⟩
  obtain ⟨t, ht, hright⟩ := h _ (List.prefix_refl _)
  obtain rfl := Except.ok.inj ht
  have hmem := (hright 1 (subscribeMessage ⟨.indet, .ref (.ofBytes [0x74]), .is 1, .is .named⟩
    1)).1 (by decide)
  exact absurd hmem.1 (by decide)

end Client

end IotClient.MqttSn
