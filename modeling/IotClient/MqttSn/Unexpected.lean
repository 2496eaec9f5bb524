import IotClient.MqttSn.Requests

/-!
# Acknowledgements that no request awaits

`outstanding wire` are the requests that were sent and have no final acknowledgement. An
acknowledgement is `Unexpected` when none of them is of its kind and has its id, and `Harmless`
when `process_sn_rx` returns with the three maps as they were. In every state a client can reach
the acknowledgements that `Spares` describes are the harmless ones (`unexpected_harmless_iff`). A
DISCONNECT ends a run: it frees the maps and does not get further.
-/

namespace IotClient.MqttSn

open Mem Machine

/-- `reply` acknowledges `request`: it is of the kind that belongs to it, and has its id. -/
def acknowledges (reply request : SnMessage) : Bool :=
  match reply.packet, request.packet with
  | .ref (.regack ra), .ref (.register r) => r.msgId = ra.messageId
  | .ref (.suback sa), .ref (.subscribe s) => s.messageId = sa.messageId
  | .ref (.unsuback usa), .ref (.unsubscribe us) => us.messageId = usa.messageId
  | .ref (.puback pa), .ref (.publish sp) =>
    sp.topic.qos = .is 1 ∧ sp.messageId = pa.messageId
  | .ref (.pubrec pr), .ref (.publish sp) =>
    sp.topic.qos = .is 2 ∧ sp.messageId = pr.messageId
  | .ref (.pubcomp pc), .ref (.publish sp) =>
    sp.topic.qos = .is 2 ∧ sp.messageId = pc.messageId
  | _, _ => false

/-- `request` is done with `reply`. A PUBREC leaves its PUBLISH to the PUBCOMP. -/
def concludes (reply request : SnMessage) : Bool :=
  match reply.packet with
  | .ref (.pubrec _) => false
  | _ => acknowledges reply request

def outstandingStep (rs : List SnMessage) : Traffic SnMessage → List SnMessage
  | .sent message => if awaits message then rs ++ [message] else rs
  | .queued _ => rs
  | .received reply => rs.filter (!concludes reply ·)

/-- The requests without a final acknowledgement. A PUBLISH that is kept back was not sent. -/
def outstanding (wire : List (Traffic SnMessage)) : List SnMessage :=
  wire.foldl outstandingStep []

/-- A call of the application or the ping timer, a message from the gateway, or an allocation of
other code. -/
inductive Act where
  | sendConnect (account : Account)
  | sendSubscribe (topicName : CString) (qos : Nat)
  | sendUnsubscribe (topicName : CString)
  | sendMessage (p : Publication)
  | sendPing
  | receive (message : SnMessage) (h : message.messageType ≠ .disconnect)
  | memory (contents : UInt16)

def GatewayPacket.IsAck : GatewayPacket → Prop
  | register .. => False
  | regack _ | puback _ | pubrec _ | pubcomp _ | suback _ | unsuback _ => True

theorem GatewayPacket.not_disconnect (q : GatewayPacket) : q.message.messageType ≠ .disconnect := by
  cases q <;> exact SnMessageType.noConfusion

def GatewayPacket.arrives (q : GatewayPacket) : Act := .receive q.message q.not_disconnect

namespace Client

def act (c : Client) : Act → Run Client
  | .sendConnect account => c.sendSnConnect account
  | .sendSubscribe topicName qos => c.sendSnSubscribe topicName qos
  | .sendUnsubscribe topicName => c.sendSnUnsubscribe topicName
  | .sendMessage p => c.sendSnMessage p
  | .sendPing => pure c.snSendPing
  | .receive message _ => c.processSnRx message
  | .memory contents => pure (c.withMemory contents)

/-- An acknowledgement that no outstanding request awaits. -/
def Unexpected (c : Client) (q : GatewayPacket) : Prop :=
  q.IsAck ∧ ∀ r ∈ outstanding c.wire, acknowledges q.message r = false

/-- `process_sn_rx` returns, with the maps unchanged. -/
def Harmless (c : Client) (q : GatewayPacket) : Prop :=
  ∃ t, c.processSnRx q.message = .ok t ∧ t.messagesMap = c.messagesMap ∧
    t.topicNameMap = c.topicNameMap ∧ t.reverseTopicNameMap = c.reverseTopicNameMap

/-- The acknowledgements whose handlers leave the maps alone. -/
def Spares (c : Client) : GatewayPacket → Prop
  -- nothing is found under the id that is looked up
  | .regack a => c.messagesMap (a.messageId - 1) = none
  | .puback a => c.messagesMap a.messageId = none
  -- what is found is read only when the SUBSCRIBE was accepted
  | .suback a => c.messagesMap a.messageId = none ∨ a.code ≠ 0
  -- nothing is looked up
  | .pubrec _ => True
  -- what is looked up is dereferenced, found or not
  | .pubcomp _ | .unsuback _ | .register .. => False

/-! ### What a handler does to the maps -/

variable {c s t : Client} {m : Table UInt16 SnMessage} {k l : UInt16} {message : SnMessage}
  {snPublish : SnPublish}

theorem castPublish_eq_ok (h : castPublish message = .ok snPublish) :
    message.packet = .ref (.publish snPublish) := by
  obtain ⟨packet, hpacket, h⟩ := bind_eq_ok.1 h
  cases hp : message.packet with
  | ref p =>
    rw [hp] at hpacket
    cases hpacket
    cases packet <;> cases h
    rfl
  | _ =>
    rw [hp] at hpacket
    cases hpacket

theorem castUnsubscribe_eq_ok {us : SnUnsubscribe} (h : castUnsubscribe message = .ok us) :
    message.packet = .ref (.unsubscribe us) := by
  obtain ⟨packet, hpacket, h⟩ := bind_eq_ok.1 h
  cases hp : message.packet with
  | ref p =>
    rw [hp] at hpacket
    cases hpacket
    cases packet <;> cases h
    rfl
  | _ =>
    rw [hp] at hpacket
    cases hpacket

/-! ### What the map holds in a run -/

/-- A stored PUBLISH or UNSUBSCRIBE has the id it is stored under. -/
structure OwnKey (k : UInt16) (message : SnMessage) : Prop where
  publish : ∀ sp, message.packet = .ref (.publish sp) → sp.messageId = k
  unsubscribe : ∀ us, message.packet = .ref (.unsubscribe us) → us.messageId = k

def Filed (m : Table UInt16 SnMessage) : Prop := ∀ k message, m k = some message → OwnKey k message

theorem ownKey_publish : OwnKey snPublish.messageId (publishMessage snPublish) where
  publish sp h := by cases h; rfl
  unsubscribe us h := by cases h

theorem ownKey_unsubscribe {topic : SnTopic} : OwnKey k (unsubscribeMessage topic k) where
  publish sp h := by cases h
  unsubscribe us h := by cases h; rfl

theorem ownKey_subscribe {topic : SnTopic} : OwnKey k (subscribeMessage topic l) where
  publish sp h := by cases h
  unsubscribe us h := by cases h

theorem ownKey_register {topicName : CString} : OwnKey k (registerMessage topicName l) where
  publish sp h := by cases h
  unsubscribe us h := by cases h

theorem ownKey_connect {account : Account} : OwnKey k (connectMessage account) where
  publish sp h := by cases h
  unsubscribe us h := by cases h

theorem filed_empty : Filed .empty := by
  intro k message h
  cases h

theorem Filed.set (hm : Filed m) (h : OwnKey k message) : Filed (m.set k message) := by
  intro l message' hl
  rw [Table.set_apply] at hl
  split at hl
  · next heq =>
    cases hl
    rw [heq]
    exact h
  · exact hm l message' hl

theorem Filed.erase (hm : Filed m) : Filed (m.erase k) := by
  intro l message hl
  rw [Table.erase_apply] at hl
  split at hl
  · cases hl
  · exact hm l message hl

theorem sendSnPublish_filed (hc : Filed c.messagesMap) (h : c.sendSnPublish snPublish = .ok t) :
    Filed t.messagesMap := by
  unfold sendSnPublish at h
  obtain ⟨qos, -, h⟩ := bind_eq_ok.1 h
  split at h
  · cases h
    exact hc
  · cases h
    exact hc.set ownKey_publish

theorem addTopic_messagesMap {name : Ptr CString} (h : c.addTopic name k = .ok t) :
    t.messagesMap = c.messagesMap := by
  obtain ⟨topicName, -, h⟩ := bind_eq_ok.1 h
  cases h
  rfl

theorem processConnack_filed (hc : Filed c.messagesMap) (h : c.processConnack message = .ok t) :
    Filed t.messagesMap := by
  obtain ⟨d, hd, hrest⟩ := bind_eq_ok.1 h
  obtain ⟨-, rfl⟩ := snStopConnectTimer_eq_ok.1 hd
  obtain ⟨snCa, -, hrest⟩ := bind_eq_ok.1 hrest
  split at hrest
  · cases hrest
    exact filed_empty
  · cases hrest
    exact hc.erase

theorem processRegister_filed (hc : Filed c.messagesMap) (h : c.processRegister message = .ok t) :
    Filed t.messagesMap := by
  obtain ⟨snRegister, -, h⟩ := bind_eq_ok.1 h
  obtain ⟨d, hd, h⟩ := bind_eq_ok.1 h
  cases h
  change Filed d.messagesMap
  rwa [addTopic_messagesMap hd]

/-- What a REGACK does when it finds a message: it clears two entries in the end. -/
theorem processRegack_some {ra : SnRegAck} (hra : castRegack message = .ok ra)
    {queued : SnMessage} (hq : c.messagesMap (ra.messageId - 1) = some queued)
    (h : c.processRegack message = .ok t) :
    ∃ d : Client, t = d.clearRegister ra.messageId ∧
      (Filed c.messagesMap → Filed d.messagesMap) := by
  unfold processRegack at h
  rw [hra, ok_bind, hq] at h
  dsimp only at h
  split at h
  · obtain ⟨snPublish, -, h⟩ := bind_eq_ok.1 h
    obtain ⟨b, hb, h⟩ := bind_eq_ok.1 h
    obtain ⟨d, hd, h⟩ := bind_eq_ok.1 h
    cases h
    refine ⟨d, rfl, fun hc => sendSnPublish_filed ?_ hd⟩
    rwa [addTopic_messagesMap hb]
  · cases h
    exact ⟨c, rfl, id⟩

theorem processRegack_filed (hc : Filed c.messagesMap) (h : c.processRegack message = .ok t) :
    Filed t.messagesMap := by
  obtain ⟨ra, hra, hrest⟩ := bind_eq_ok.1 h
  cases hq : c.messagesMap (ra.messageId - 1) with
  | none =>
    rw [hq] at hrest
    cases hrest
    exact hc
  | some queued =>
    obtain ⟨d, rfl, hd⟩ := processRegack_some hra hq h
    exact (hd hc).erase.erase

theorem processPublish_messagesMap (h : c.processPublish message = .ok t) :
    t.messagesMap = c.messagesMap := by
  obtain ⟨snP, -, h⟩ := bind_eq_ok.1 h
  obtain ⟨qos, -, h⟩ := bind_eq_ok.1 h
  split at h
  · cases h
    rfl
  · split at h <;> cases h <;> rfl

theorem processPuback_filed (hc : Filed c.messagesMap) (h : c.processPuback message = .ok t) :
    Filed t.messagesMap := by
  obtain ⟨snPubAck, -, h⟩ := bind_eq_ok.1 h
  split at h
  · cases h
    exact hc
  · cases h
    exact hc.erase

/-- What a PUBCOMP does when it finds a message: it removes the entry of the PUBLISH. -/
theorem processPubcomp_ok {pc : SnPubcomp} (hpc : castPubcomp message = .ok pc)
    (h : c.processPubcomp message = .ok t) :
    ∃ found sp, c.messagesMap pc.messageId = some found ∧ found.packet = .ref (.publish sp) ∧
      t = c.snRemoveMessageFromMap sp.messageId := by
  unfold processPubcomp at h
  rw [hpc, ok_bind] at h
  split at h
  · cases h
  · next found hfound =>
    obtain ⟨sp, hsp, h⟩ := bind_eq_ok.1 h
    cases h
    exact ⟨found, sp, hfound, castPublish_eq_ok hsp, rfl⟩

/-- What an UNSUBACK does when it finds a message: it removes the entry of the UNSUBSCRIBE. -/
theorem processUnsuback_ok {usa : SnUnsuback} (husa : castUnsuback message = .ok usa)
    (h : c.processUnsuback message = .ok t) :
    ∃ found us, c.messagesMap usa.messageId = some found ∧ found.packet = .ref (.unsubscribe us) ∧
      t = c.snRemoveMessageFromMap us.messageId := by
  unfold processUnsuback at h
  rw [husa, ok_bind] at h
  split at h
  · cases h
  · next found hfound =>
    obtain ⟨us, hus, h⟩ := bind_eq_ok.1 h
    obtain ⟨topic, -, h⟩ := bind_eq_ok.1 h
    obtain ⟨type, -, h⟩ := bind_eq_ok.1 h
    refine ⟨found, us, hfound, castUnsubscribe_eq_ok hus, ?_⟩
    split at h
    · obtain ⟨name, -, h⟩ := bind_eq_ok.1 h
      cases h
      rfl
    · obtain ⟨id, -, h⟩ := bind_eq_ok.1 h
      cases h
      rfl

theorem processSuback_filed (hc : Filed c.messagesMap) (h : c.processSuback message = .ok t) :
    Filed t.messagesMap := by
  obtain ⟨sa, -, h⟩ := bind_eq_ok.1 h
  split at h
  · cases h
    exact hc
  · split at h
    · obtain ⟨s, -, h⟩ := bind_eq_ok.1 h
      obtain ⟨topic, -, h⟩ := bind_eq_ok.1 h
      obtain ⟨d, hd, h⟩ := bind_eq_ok.1 h
      cases h
      refine Filed.erase ?_
      rwa [addTopic_messagesMap hd]
    · cases h
      exact hc

theorem processPubcomp_filed (hc : Filed c.messagesMap) (h : c.processPubcomp message = .ok t) :
    Filed t.messagesMap := by
  obtain ⟨pc, hpc, -⟩ := bind_eq_ok.1 h
  obtain ⟨found, sp, -, -, rfl⟩ := processPubcomp_ok hpc h
  exact hc.erase

theorem processUnsuback_filed (hc : Filed c.messagesMap) (h : c.processUnsuback message = .ok t) :
    Filed t.messagesMap := by
  obtain ⟨usa, husa, -⟩ := bind_eq_ok.1 h
  obtain ⟨found, us, -, -, rfl⟩ := processUnsuback_ok husa h
  exact hc.erase

theorem processSnRx_filed (hc : Filed c.messagesMap) (hm : message.messageType ≠ .disconnect)
    (h : c.processSnRx message = .ok t) : Filed t.messagesMap := by
  have hread : Filed (c.afterRead message).messagesMap := hc
  unfold processSnRx at h
  cases htype : message.messageType with
  | connack =>
    rw [htype] at h
    exact processConnack_filed hread h
  | register =>
    rw [htype] at h
    exact processRegister_filed hread h
  | regack =>
    rw [htype] at h
    exact processRegack_filed hread h
  | publish =>
    rw [htype] at h
    rwa [processPublish_messagesMap h]
  | puback =>
    rw [htype] at h
    exact processPuback_filed hread h
  | pubcomp =>
    rw [htype] at h
    exact processPubcomp_filed hread h
  | pubrec | pubrel =>
    rw [htype] at h
    obtain ⟨reply, -, h⟩ := bind_eq_ok.1 h
    cases h
    exact hc
  | suback =>
    rw [htype] at h
    exact processSuback_filed hread h
  | unsuback =>
    rw [htype] at h
    exact processUnsuback_filed hread h
  | disconnect => exact absurd htype hm
  | _ =>
    rw [htype] at h
    cases h
    exact hc

theorem act_filed {a : Act} (hc : Filed c.messagesMap) (h : act c a = .ok t) :
    Filed t.messagesMap := by
  cases a with
  | sendConnect account =>
    cases h
    exact filed_empty.set ownKey_connect
  | sendSubscribe topicName qos =>
    cases h
    exact hc.set ownKey_subscribe
  | sendUnsubscribe topicName =>
    cases h
    exact hc.set ownKey_unsubscribe
  | sendMessage p =>
    by_cases hid : c.topicIdOf p.topicName = 0
    · obtain rfl := Except.ok.inj ((step_keep hid).symm.trans h)
      have hkept : OwnKey (p.packet 0 c.nextId).messageId (publishMessage (p.packet 0 c.nextId)) :=
        ownKey_publish
      exact (hc.set hkept).set ownKey_register
    · refine sendSnPublish_filed ?_ ((if_neg hid).symm.trans h)
      exact hc
  | sendPing =>
    cases h
    exact hc
  | receive message hm => exact processSnRx_filed hc hm h
  | memory contents =>
    cases h
    exact hc

theorem run_filed {as : List Act} (hs : Fresh s) (h : run act s as = .ok c) :
    Filed c.messagesMap := by
  refine run_keeps (P := fun c => Filed c.messagesMap) (G := fun _ _ => True)
    (fun _ _ _ _ hc _ => act_filed hc) ?_ (each_of_forall fun _ _ _ => trivial) h
  rw [hs.messagesMap]
  exact filed_empty

/-! ### The harmless acknowledgements -/

theorem regack_harmless_iff {a : SnRegAck} :
    Harmless c (.regack a) ↔ c.messagesMap (a.messageId - 1) = none := by
  constructor
  · rintro ⟨t, ht, hmap, -⟩
    cases hq : c.messagesMap (a.messageId - 1) with
    | none => rfl
    | some queued =>
      obtain ⟨d, rfl, -⟩ :=
        processRegack_some (c := c.afterRead (GatewayPacket.regack a).message) castRegack_message
          hq ht
      -- the entry that was found is gone
      have hgone : (d.clearRegister a.messageId).messagesMap (a.messageId - 1) = none := by
        change ((d.messagesMap.erase (a.messageId - 1)).erase a.messageId) _ = none
        rw [Table.erase_apply]
        split
        · rfl
        · exact Table.erase_self _ _
      rw [hmap, hq] at hgone
      exact hgone
  · intro h
    exact ⟨_, step_regack_none h, rfl, rfl, rfl⟩

theorem puback_harmless_iff {a : SnPuback} :
    Harmless c (.puback a) ↔ c.messagesMap a.messageId = none := by
  constructor
  · rintro ⟨t, ht, hmap, -⟩
    obtain rfl := Except.ok.inj (step_puback.symm.trans ht)
    rw [← hmap]
    exact Table.erase_self _ _
  · intro h
    exact ⟨_, step_puback, Table.erase_of_none h, rfl, rfl⟩

theorem suback_harmless_iff {a : SnSuback} :
    Harmless c (.suback a) ↔ c.messagesMap a.messageId = none ∨ a.code ≠ 0 := by
  constructor
  · rintro ⟨t, ht, hmap, -⟩
    refine or_iff_not_imp_right.2 fun hcode => ?_
    rw [not_not] at hcode
    cases hq : c.messagesMap a.messageId with
    | none => rfl
    | some found =>
      change (c.afterRead (GatewayPacket.suback a).message).processSuback _ = _ at ht
      unfold processSuback at ht
      rw [castSuback_message, ok_bind,
        show (c.afterRead (GatewayPacket.suback a).message).messagesMap a.messageId = some found
          from hq] at ht
      dsimp only at ht
      rw [if_pos hcode] at ht
      obtain ⟨s, -, ht⟩ := bind_eq_ok.1 ht
      obtain ⟨topic, -, ht⟩ := bind_eq_ok.1 ht
      obtain ⟨d, -, ht⟩ := bind_eq_ok.1 ht
      cases ht
      rw [← hq, ← hmap]
      exact Table.erase_self _ _
  · rintro (h | hcode)
    · exact ⟨_, step_suback_none h, rfl, rfl, rfl⟩
    · exact ⟨_, step_suback_rejected hcode, rfl, rfl, rfl⟩

/-- The entry a PUBCOMP finds is under the id of the PUBLISH, so it is removed. -/
theorem pubcomp_not_harmless (hc : Filed c.messagesMap) {a : SnPubcomp} :
    ¬ Harmless c (.pubcomp a) := by
  rintro ⟨t, ht, hmap, -⟩
  obtain ⟨found, sp, hfound, hpacket, rfl⟩ :=
    processPubcomp_ok (c := c.afterRead (GatewayPacket.pubcomp a).message) castPubcomp_message ht
  have hgone := congrFun hmap a.messageId
  change (c.messagesMap.erase sp.messageId) a.messageId = _ at hgone
  rw [(hc _ _ hfound).publish sp hpacket, Table.erase_self] at hgone
  cases hgone.trans hfound

theorem unsuback_not_harmless (hc : Filed c.messagesMap) {a : SnUnsuback} :
    ¬ Harmless c (.unsuback a) := by
  rintro ⟨t, ht, hmap, -⟩
  obtain ⟨found, us, hfound, hpacket, rfl⟩ :=
    processUnsuback_ok (c := c.afterRead (GatewayPacket.unsuback a).message) castUnsuback_message ht
  have hgone := congrFun hmap a.messageId
  change (c.messagesMap.erase us.messageId) a.messageId = _ at hgone
  rw [(hc _ _ hfound).unsubscribe us hpacket, Table.erase_self] at hgone
  cases hgone.trans hfound

theorem harmless_iff_spares (hc : Filed c.messagesMap) {q : GatewayPacket} (hq : q.IsAck) :
    Harmless c q ↔ Spares c q := by
  cases q with
  | register topicId msgId topicName => exact hq.elim
  | regack a => exact regack_harmless_iff
  | puback a => exact puback_harmless_iff
  | pubrec a => exact iff_of_true ⟨_, step_pubrec, rfl, rfl, rfl⟩ trivial
  | pubcomp a => exact iff_of_false (pubcomp_not_harmless hc) id
  | suback a => exact suback_harmless_iff
  | unsuback a => exact iff_of_false (unsuback_not_harmless hc) id

/-- In every state that a client can reach, an unexpected acknowledgement changes nothing if and
only if its handler spares the maps. -/
theorem unexpected_harmless_iff {as : List Act} (hs : Fresh s) (h : run act s as = .ok c)
    (q : GatewayPacket) : (Unexpected c q → Harmless c q) ↔ (Unexpected c q → Spares c q) :=
  forall_congr' fun hq => harmless_iff_spares (run_filed hs h) hq.1

/-- A QoS 2 PUBLISH on the topic `t`, the second id of its call, whose handshake is completed. -/
def completedRun : List Act :=
  [(GatewayPacket.register 5 9 (.ofBytes [0x74])).arrives,
    .sendMessage ⟨.ofBytes [0x68], .ofBytes [0x74], 2, 0, 0⟩,
    (GatewayPacket.pubrec ⟨2⟩).arrives, (GatewayPacket.pubcomp ⟨2⟩).arrives]

/-- The PUBACK of another session is spared. -/
theorem unexpected_harmless_iff_completedRun :
    ∃ c, Fresh (init .anonymous) ∧ run act (init .anonymous) completedRun = .ok c ∧
      Unexpected c (.puback ⟨5, 4, 0⟩) ∧ Spares c (.puback ⟨5, 4, 0⟩) ∧
      ((Unexpected c (.puback ⟨5, 4, 0⟩) → Harmless c (.puback ⟨5, 4, 0⟩)) ↔
        (Unexpected c (.puback ⟨5, 4, 0⟩) → Spares c (.puback ⟨5, 4, 0⟩))) := by
  have hrun : ∃ c, run act (init .anonymous) completedRun = .ok c ∧
      Unexpected c (.puback ⟨5, 4, 0⟩) ∧ Spares c (.puback ⟨5, 4, 0⟩) :=
    ⟨_, rfl, ⟨trivial, by decide⟩, rfl⟩
  obtain ⟨c, hc, hunexpected, hspares⟩ := hrun
  exact ⟨c, fresh_init .anonymous, hc, hunexpected, hspares,
    unexpected_harmless_iff (fresh_init .anonymous) hc (.puback ⟨5, 4, 0⟩)⟩

/-- A duplicate of the PUBCOMP finds nothing, and `NULL` is dereferenced. -/
theorem duplicate_not_harmless :
    ¬ ∀ (account : Account) (as : List Act) (c : Client) (q : GatewayPacket),
      run act (init account) as = .ok c → Unexpected c q → Harmless c q := by
  intro h
  obtain ⟨t, ht, -⟩ := h .anonymous completedRun _ (.pubcomp ⟨2⟩) rfl ⟨trivial, by decide⟩
  cases ht

end Client

end IotClient.MqttSn
