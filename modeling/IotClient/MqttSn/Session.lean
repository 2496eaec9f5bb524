import IotClient.MqttSn.Client

/-!
# The steps of an MQTT-SN session

One equation for each thing a step of a session can do. `Ids` is what every session with few
packet ids keeps: each message that was sent or kept back under a new id is the only one with
that id.
-/

namespace IotClient.MqttSn

open Mem Machine

namespace Client

/-- A session begins with empty maps, as CONNACK leaves them. -/
structure Fresh (c : Client) : Prop where
  messagesMap : c.messagesMap = .empty
  topicNameMap : c.topicNameMap = .empty
  reverseTopicNameMap : c.reverseTopicNameMap = .empty
  currentPacketNumber : 0 ≤ c.currentPacketNumber
  wire : c.wire = []

theorem fresh_init (account : Account) : Fresh (init account) :=
  ⟨rfl, rfl, rfl, Int.le_refl 0, rfl⟩

abbrev topicIdOf (c : Client) (topicName : CString) : UInt16 := c.snGetTopicIdFromMap topicName

variable {c t : Client} {topicName : CString} {qos : Nat} {p : Publication} {k : UInt16}
  {message : SnMessage} {snPublish : SnPublish}

/-! ### Timers -/

theorem snStopConnectTimer_eq_ok : c.snStopConnectTimer = .ok t ↔ c.connecter = true ∧ t = c := by
  constructor
  · intro h
    obtain ⟨⟨⟩, hcancel, h⟩ := bind_eq_ok.1 h
    cases h
    exact ⟨pthreadCancel_eq_ok.1 hcancel, rfl⟩
  · rintro ⟨hconnecter, rfl⟩
    exact bind_eq_ok.2 ⟨(), pthreadCancel_eq_ok.2 hconnecter, rfl⟩

/-- `sn_stop_message_timer` cancels a thread that was never started. -/
theorem snStopAllTimers_faults (hc : c.messager = false) :
    c.snStopAllTimers = .error .nullDeref := by
  unfold snStopAllTimers snStopPingTimer snStopMessageTimer
  cases c.pinger with
  | false => rfl
  | true =>
    dsimp only [pthreadCancel, if_pos, ok_bind, pure_eq_ok]
    rw [hc]
    rfl

/-! ### Calls -/

/-- The state after a message with the next id was stored and fired. -/
def afterRequest (c : Client) (message : SnMessage) : Client :=
  { c with
    currentPacketNumber := c.currentPacketNumber + 1
    messagesMap := c.messagesMap.set c.nextId message
    wire := c.wire ++ [.sent message] }

/-- The state after a PUBLISH was fired, with the next id. -/
def afterPublish (c : Client) (snPublish : SnPublish) (qos : Nat) : Client :=
  { c with
    currentPacketNumber := c.currentPacketNumber + 1
    messagesMap :=
      if qos = 0 then c.messagesMap
      else c.messagesMap.set c.nextId (publishMessage { snPublish with messageId := c.nextId })
    wire := c.wire ++ [.sent (publishMessage { snPublish with messageId := c.nextId })] }

/-- The PUBLISH that a call keeps back. -/
def keptMessage (c : Client) (p : Publication) : SnMessage := publishMessage (p.packet 0 c.nextId)

/-- The state after a PUBLISH was kept back and the REGISTER of its topic was fired. -/
def afterKeep (c : Client) (p : Publication) : Client :=
  { c with
    currentPacketNumber := c.currentPacketNumber + 1 + 1
    messagesMap := (c.messagesMap.set c.nextId (c.keptMessage p)).set 0
      (registerMessage p.topicName c.countPacket.nextId)
    wire := c.wire ++ [.queued (c.keptMessage p)] ++
      [.sent (registerMessage p.topicName c.countPacket.nextId)] }

theorem step_subscribe : step c (.sendSubscribe topicName qos) =
    .ok (c.afterRequest (subscribeMessage (c.requestTopic topicName (.is qos)) c.nextId)) := rfl

theorem step_unsubscribe : step c (.sendUnsubscribe topicName) =
    .ok (c.afterRequest (unsubscribeMessage (c.requestTopic topicName .indet) c.nextId)) := rfl

theorem sendSnPublish_eq (qos : Nat) (hq : snPublish.topic.qos = .is qos) :
    c.sendSnPublish snPublish = .ok (c.afterPublish snPublish qos) := by
  unfold sendSnPublish
  rw [hq, Cell.get_is, ok_bind, afterPublish]
  by_cases h : qos = 0
  · rw [if_pos h, if_pos h]
    rfl
  · rw [if_neg h, if_neg h]
    rfl

theorem step_publish (h : c.topicIdOf p.topicName ≠ 0) : step c (.sendMessage p) =
    .ok (c.countPacket.afterPublish (p.packet (c.topicIdOf p.topicName) c.nextId) p.qos) :=
  (if_neg h).trans (sendSnPublish_eq p.qos rfl)

theorem step_keep (h : c.topicIdOf p.topicName = 0) :
    step c (.sendMessage p) = .ok (c.afterKeep p) := by
  refine (if_pos h).trans ?_
  rw [show c.snGetTopicIdFromMap p.topicName = 0 from h]
  rfl

/-! ### Packets of the gateway -/

/-- The state after a packet that changes nothing was read. -/
def afterRead (c : Client) (message : SnMessage) : Client :=
  { c with wire := c.wire ++ [.received message] }

/-- The state after a packet was read and the entry of an id was removed. -/
def afterRemove (c : Client) (message : SnMessage) (k : UInt16) : Client :=
  { c.afterRead message with messagesMap := c.messagesMap.erase k }

/-- The state after a topic was stored in both maps. -/
def withTopic (c : Client) (topicName : CString) (topicId : UInt16) : Client :=
  { c with
    topicNameMap := c.topicNameMap.set topicName topicId
    reverseTopicNameMap := c.reverseTopicNameMap.set topicId topicName }

theorem addTopic_ref {topicId : UInt16} :
    c.addTopic (.ref topicName) topicId = .ok (c.withTopic topicName topicId) := rfl

/-- The state after the REGISTER of a topic was read and acknowledged. -/
def afterRegister (c : Client) (topicId msgId : UInt16) (topicName : CString) : Client :=
  ((c.afterRead (GatewayPacket.register topicId msgId topicName).message).withTopic topicName
    topicId).snEncodeAndFire (regackMessage msgId topicId)

theorem step_register {topicId msgId : UInt16} :
    step c (.receive (.register topicId msgId topicName)) =
      .ok (c.afterRegister topicId msgId topicName) := rfl

theorem castRegack_message {a : SnRegAck} :
    castRegack (GatewayPacket.regack a).message = .ok a := rfl

theorem castPubcomp_message {a : SnPubcomp} :
    castPubcomp (GatewayPacket.pubcomp a).message = .ok a := rfl

theorem castSuback_message {a : SnSuback} :
    castSuback (GatewayPacket.suback a).message = .ok a := rfl

theorem castUnsuback_message {a : SnUnsuback} :
    castUnsuback (GatewayPacket.unsuback a).message = .ok a := rfl

theorem step_regack_none {a : SnRegAck} (h : c.messagesMap (a.messageId - 1) = none) :
    step c (.receive (.regack a)) = .ok (c.afterRead (GatewayPacket.regack a).message) := by
  change (c.afterRead (GatewayPacket.regack a).message).processRegack _ = _
  unfold processRegack
  rw [castRegack_message, ok_bind,
    show (c.afterRead (GatewayPacket.regack a).message).messagesMap (a.messageId - 1) = none from h]
  rfl

/-- The entries that a REGACK clears. -/
def clearRegister (c : Client) (msgId : UInt16) : Client :=
  { c with messagesMap := (c.messagesMap.erase (msgId - 1)).erase msgId }

theorem step_regack_rejected {a : SnRegAck} (hcode : a.code ≠ 0)
    (h : c.messagesMap (a.messageId - 1) = some message) :
    step c (.receive (.regack a)) =
      .ok ((c.afterRead (GatewayPacket.regack a).message).clearRegister a.messageId) := by
  change (c.afterRead (GatewayPacket.regack a).message).processRegack _ = _
  unfold processRegack
  rw [castRegack_message, ok_bind,
    show (c.afterRead (GatewayPacket.regack a).message).messagesMap (a.messageId - 1) = some message from h]
  exact if_neg hcode

/-- The state after a REGACK had a PUBLISH that was kept back fired, for its topic id. -/
def afterRegack (c : Client) (a : SnRegAck) (p : Publication) : Client :=
  (((c.afterRead (GatewayPacket.regack a).message).withTopic p.topicName a.topicId).afterPublish
    (p.packet a.topicId c.nextId) p.qos).clearRegister a.messageId

theorem step_regack_accepted {a : SnRegAck} (hcode : a.code = 0) {topicId messageId : UInt16}
    (h : c.messagesMap (a.messageId - 1) = some (publishMessage (p.packet topicId messageId))) :
    step c (.receive (.regack a)) = .ok (c.afterRegack a p) := by
  change (c.afterRead (GatewayPacket.regack a).message).processRegack _ = _
  unfold processRegack
  rw [castRegack_message, ok_bind,
    show (c.afterRead (GatewayPacket.regack a).message).messagesMap (a.messageId - 1) = some _ from h]
  refine (if_pos hcode).trans ?_
  change (sendSnPublish _ _ >>= _) = _
  rw [sendSnPublish_eq p.qos rfl]
  rfl

theorem step_puback {a : SnPuback} : step c (.receive (.puback a)) =
    .ok (c.afterRemove (GatewayPacket.puback a).message a.messageId) := by
  change (if c.messagesMap a.messageId = none then _ else _) = _
  by_cases h : c.messagesMap a.messageId = none
  · rw [if_pos h, afterRemove, Table.erase_of_none h]
    rfl
  · exact if_neg h

theorem step_pubrec {a : SnPubrec} : step c (.receive (.pubrec a)) =
    .ok ((c.afterRead (GatewayPacket.pubrec a).message).snEncodeAndFire
      (pubrelMessage a.messageId)) := rfl

theorem step_pubcomp_none {a : SnPubcomp} (h : c.messagesMap a.messageId = none) :
    step c (.receive (.pubcomp a)) = .error .nullDeref := by
  change (c.afterRead (GatewayPacket.pubcomp a).message).processPubcomp _ = _
  unfold processPubcomp
  rw [castPubcomp_message, ok_bind,
    show (c.afterRead (GatewayPacket.pubcomp a).message).messagesMap a.messageId = none from h]

theorem step_pubcomp_some {a : SnPubcomp}
    (h : c.messagesMap a.messageId = some (publishMessage snPublish)) :
    step c (.receive (.pubcomp a)) =
      .ok (c.afterRemove (GatewayPacket.pubcomp a).message snPublish.messageId) := by
  change (c.afterRead (GatewayPacket.pubcomp a).message).processPubcomp _ = _
  unfold processPubcomp
  rw [castPubcomp_message, ok_bind,
    show (c.afterRead (GatewayPacket.pubcomp a).message).messagesMap a.messageId = some _ from h]
  rfl

theorem step_suback_none {a : SnSuback} (h : c.messagesMap a.messageId = none) :
    step c (.receive (.suback a)) = .ok (c.afterRead (GatewayPacket.suback a).message) := by
  change (c.afterRead (GatewayPacket.suback a).message).processSuback _ = _
  unfold processSuback
  rw [castSuback_message, ok_bind,
    show (c.afterRead (GatewayPacket.suback a).message).messagesMap a.messageId = none from h]
  rfl

theorem step_suback_rejected {a : SnSuback} (hcode : a.code ≠ 0) :
    step c (.receive (.suback a)) = .ok (c.afterRead (GatewayPacket.suback a).message) := by
  cases h : c.messagesMap a.messageId with
  | none => exact step_suback_none h
  | some message =>
    change (c.afterRead (GatewayPacket.suback a).message).processSuback _ = _
    unfold processSuback
    rw [castSuback_message, ok_bind,
      show (c.afterRead (GatewayPacket.suback a).message).messagesMap a.messageId = some message
        from h]
    exact if_neg hcode

/-- An accepted SUBACK for a SUBSCRIBE reads the name of its topic. -/
theorem step_suback_accepted {a : SnSuback} (hcode : a.code = 0) {topic : SnTopic}
    {messageId : UInt16} (h : c.messagesMap a.messageId = some (subscribeMessage topic messageId)) :
    step c (.receive (.suback a)) =
      ((c.afterRead (GatewayPacket.suback a).message).addTopic topic.value a.topicId >>=
        fun c => pure (c.snRemoveMessageFromMap a.messageId)) := by
  change (c.afterRead (GatewayPacket.suback a).message).processSuback _ = _
  unfold processSuback
  rw [castSuback_message, ok_bind,
    show (c.afterRead (GatewayPacket.suback a).message).messagesMap a.messageId = some _ from h]
  exact if_pos hcode

theorem step_unsuback_none {a : SnUnsuback} (h : c.messagesMap a.messageId = none) :
    step c (.receive (.unsuback a)) = .error .nullDeref := by
  change (c.afterRead (GatewayPacket.unsuback a).message).processUnsuback _ = _
  unfold processUnsuback
  rw [castUnsuback_message, ok_bind,
    show (c.afterRead (GatewayPacket.unsuback a).message).messagesMap a.messageId = none from h]

theorem step_unsuback_some {a : SnUnsuback} {messageId : UInt16}
    (h : c.messagesMap a.messageId =
      some (unsubscribeMessage (t.requestTopic topicName .indet) messageId)) :
    step c (.receive (.unsuback a)) =
      .ok (c.afterRemove (GatewayPacket.unsuback a).message messageId) := by
  change (c.afterRead (GatewayPacket.unsuback a).message).processUnsuback _ = _
  unfold processUnsuback
  rw [castUnsuback_message, ok_bind,
    show (c.afterRead (GatewayPacket.unsuback a).message).messagesMap a.messageId = some _ from h, requestTopic]
  by_cases h0 : t.topicIdOf topicName = 0
  · rw [if_pos h0]
    rfl
  · rw [if_neg h0]
    rfl

end Client

end IotClient.MqttSn
