import IotClient.MqttSn.RoundTrip
import IotClient.MqttSn.Session
import IotClient.Net.Logging

/-!
# An MQTT-SN client on its net service

`logging` is the client without encryption: `sn_encode_and_fire` writes frames to the net service
and `process_sn_rx` reads datagrams. Its calls are those of the application and the work of the two
timer threads; a round of `connect_task` may come at any time here. In every run the messages
fired become frames that are sent in order (`session_in_order_sn`). No DISCONNECT is among them, and
none that was received: `sn_stop_message_timer` cancels a thread that nothing starts
(`no_disconnect`).
-/

namespace IotClient.MqttSn

open Mem Machine Net

/-- A call of the application, a ping, a round of `connect_task` over the messages `ids`, or an
allocation of other code. -/
inductive UdpCall where
  | connect (account : Account)
  | subscribe (topicName : CString) (qos : Nat)
  | unsubscribe (topicName : CString)
  | message (p : Publication)
  | disconnect
  | ping
  | connectTask (ids : List UInt16)
  | memory (contents : UInt16)

/-- A round fires every message it comes to, also one that is kept back. -/
def connectTask (c : Client) (ids : List UInt16) : Client :=
  (ids.filterMap c.messagesMap).foldl Client.snEncodeAndFire c

def UdpCall.run (c : Client) : UdpCall → Run Client
  | connect account => c.sendSnConnect account
  | subscribe topicName qos => c.sendSnSubscribe topicName qos
  | unsubscribe topicName => c.sendSnUnsubscribe topicName
  | message p => c.sendSnMessage p
  | disconnect => c.sendSnDisconnect
  | ping => pure c.snSendPing
  | connectTask ids => pure (MqttSn.connectTask c ids)
  | memory contents => pure (c.withMemory contents)

/-- What `sn_encode_and_fire` passes to `write_to_net`. -/
def frame (message : SnMessage) : Run (List UInt8) := do
  let length ← snGetLength message
  blockBytes (← snEncode message length)

/-- `process_sn_rx` -/
def receive (c : Client) (data : List UInt8) : Run Client := do
  c.processSnRx (← snDecode data)

/-! ### The log of the client -/

/-- No DISCONNECT was fired, stored or read, and the message timer was not started. -/
structure NoDisconnect (c : Client) : Prop where
  messager : c.messager = false
  sent : ∀ m ∈ sentOf c.wire, m.messageType ≠ .disconnect
  received : ∀ m ∈ receivedOf c.wire, m.messageType ≠ .disconnect
  stored : ∀ k m, c.messagesMap k = some m → m.messageType ≠ .disconnect

theorem noDisconnect_init (account : Account) : NoDisconnect (.init account) where
  messager := rfl
  sent m hm := by cases hm
  received m hm := by cases hm
  stored k m hm := by cases hm

/-- From `c` to `t` messages were fired, and no first DISCONNECT. -/
structure Talks (c t : Client) : Prop where
  fires : Fires Client.wire c t
  noDisconnect : NoDisconnect c → NoDisconnect t

section Talks

variable {c d t : Client} {message : SnMessage}

namespace Talks

theorem of_stored (hwire : t.wire = c.wire) (hmessager : t.messager = c.messager)
    (hstored : ∀ k m, t.messagesMap k = some m → c.messagesMap k = some m) : Talks c t where
  fires := .of_wire hwire
  noDisconnect hc :=
    { messager := hmessager.trans hc.messager
      sent := by
        rw [hwire]
        exact hc.sent
      received := by
        rw [hwire]
        exact hc.received
      stored k m hm := hc.stored k m (hstored k m hm) }

theorem refl (c : Client) : Talks c c := of_stored rfl rfl fun _ _ => id

theorem trans (h : Talks c d) (h' : Talks d t) : Talks c t :=
  ⟨h.fires.trans h'.fires, fun hc => h'.noDisconnect (h.noDisconnect hc)⟩

end Talks

theorem NoDisconnect.fire (hc : NoDisconnect c) (h : message.messageType ≠ .disconnect) :
    NoDisconnect (c.snEncodeAndFire message) where
  messager := hc.messager
  sent m hm := by
    change m ∈ sentOf (c.wire ++ [.sent message]) at hm
    rw [sentOf_append] at hm
    rcases mem_snoc.1 hm with hm | rfl
    · exact hc.sent m hm
    · exact h
  received m hm := by
    change m ∈ receivedOf (c.wire ++ [.sent message]) at hm
    rw [receivedOf_append, receivedOf_sent, List.append_nil] at hm
    exact hc.received m hm
  stored := hc.stored

theorem fires_encodeAndFire (message : SnMessage) :
    Fires Client.wire c (c.snEncodeAndFire message) :=
  ⟨[.sent message], rfl, rfl⟩

theorem talks_fire (h : message.messageType ≠ .disconnect) : Talks c (c.snEncodeAndFire message) :=
  ⟨fires_encodeAndFire message, fun hc => hc.fire h⟩

theorem talks_queued (message : SnMessage) :
    Talks c { c with wire := c.wire ++ [.queued message] } where
  fires := ⟨[.queued message], rfl, rfl⟩
  noDisconnect hc :=
    { messager := hc.messager
      sent := by
        rw [sentOf_append, sentOf_queued, List.append_nil]
        exact hc.sent
      received := by
        rw [receivedOf_append, receivedOf_queued, List.append_nil]
        exact hc.received
      stored := hc.stored }

theorem talks_addMessage (hmessage : message.messageType ≠ .disconnect)
    (h : c.snAddMessageInMap message = .ok t) : Talks c t := by
  obtain ⟨packetId, -, h⟩ := bind_eq_ok.1 h
  cases h
  refine ⟨.of_wire rfl, fun hc => ⟨hc.messager, hc.sent, hc.received, fun k m hm => ?_⟩⟩
  change (c.messagesMap.set packetId message) k = some m at hm
  rw [Table.set_apply] at hm
  split at hm
  · cases hm
    exact hmessage
  · exact hc.stored k m hm

theorem talks_remove (packetId : UInt16) : Talks c (c.snRemoveMessageFromMap packetId) := by
  refine .of_stored rfl rfl fun k m hm => ?_
  change (c.messagesMap.erase packetId) k = some m at hm
  rw [Table.erase_apply] at hm
  split at hm
  · cases hm
  · exact hm

/-- Nothing is stored in an empty map. -/
theorem talks_empty (hwire : t.wire = c.wire) (hmessager : t.messager = c.messager)
    (hempty : t.messagesMap = .empty) : Talks c t := by
  refine .of_stored hwire hmessager fun k m hm => ?_
  rw [hempty] at hm
  cases hm

theorem talks_addTopic {topicName : Ptr CString} {topicId : UInt16}
    (h : c.addTopic topicName topicId = .ok t) : Talks c t := by
  obtain ⟨name, -, h⟩ := bind_eq_ok.1 h
  cases h
  exact .of_stored rfl rfl fun _ _ => id

theorem talks_notify (notice : Notice) : Talks c (c.notify notice) :=
  .of_stored rfl rfl fun _ _ => id

theorem talks_countPacket : Talks c c.countPacket := .of_stored rfl rfl fun _ _ => id

/-- A message is stored, then fired. -/
theorem talks_stored (hmessage : message.messageType ≠ .disconnect)
    (h : (c.snAddMessageInMap message >>= fun d => pure (d.snEncodeAndFire message)) = .ok t) :
    Talks c t := by
  obtain ⟨d, hd, h⟩ := bind_eq_ok.1 h
  cases h
  exact (talks_addMessage hmessage hd).trans (talks_fire hmessage)

theorem talks_publish {snPublish : SnPublish} (h : c.sendSnPublish snPublish = .ok t) :
    Talks c t := by
  obtain ⟨qos, -, h⟩ := bind_eq_ok.1 h
  have hpublish : (publishMessage { snPublish with messageId := c.nextId }).messageType ≠
      .disconnect := nofun
  have hfire : Talks c (c.countPacket.snEncodeAndFire
      (publishMessage { snPublish with messageId := c.nextId })) :=
    talks_countPacket.trans (talks_fire hpublish)
  split at h
  · cases h
    exact hfire
  · exact hfire.trans (talks_addMessage hpublish h)

theorem talks_register {topicName : CString} (h : c.sendSnRegister topicName = .ok t) :
    Talks c t :=
  talks_countPacket.trans (talks_stored (by nofun) h)

theorem talks_message {p : Publication} (h : c.sendSnMessage p = .ok t) : Talks c t := by
  unfold Client.sendSnMessage at h
  dsimp only at h
  split at h
  · obtain ⟨d, hd, h⟩ := bind_eq_ok.1 h
    have hkept := (talks_queued _).trans (talks_addMessage (by nofun) hd)
    exact talks_countPacket.trans (hkept.trans (talks_register h))
  · exact talks_countPacket.trans (talks_publish h)

/-- A round of `connect_task` fires what is stored. -/
theorem talks_connectTask (ids : List UInt16) : Talks c (connectTask c ids) := by
  have hfired : ∀ m ∈ ids.filterMap c.messagesMap, ∃ k, c.messagesMap k = some m := by
    intro m hm
    obtain ⟨k, -, hk⟩ := List.mem_filterMap.1 hm
    exact ⟨k, hk⟩
  unfold connectTask
  revert hfired
  generalize ids.filterMap c.messagesMap = messages
  intro hfired
  have hfold : ∀ d : Client, d.messagesMap = c.messagesMap →
      Talks d (messages.foldl Client.snEncodeAndFire d) := by
    induction messages with
    | nil => exact fun d _ => .refl d
    | cons message messages ih =>
      intro d hd
      have hrest := ih (fun m hm => hfired m (List.mem_cons_of_mem _ hm))
        (d.snEncodeAndFire message) hd
      refine ⟨(fires_encodeAndFire message).trans hrest.fires, fun hno => ?_⟩
      obtain ⟨k, hk⟩ := hfired message List.mem_cons_self
      exact hrest.noDisconnect (hno.fire (hno.stored k message (by rw [hd, hk])))
  exact hfold c rfl

/-- `send_sn_disconnect` does not get to the DISCONNECT. -/
theorem disconnect_faults (hc : c.messager = false) :
    c.sendSnDisconnect = .error .nullDeref := by
  unfold Client.sendSnDisconnect
  rw [Client.snStopAllTimers_faults hc]
  rfl

/-- `sn_stop_all_timers` where the message timer was started. -/
theorem talks_stopAllTimers (h : c.snStopAllTimers = .ok t) : Talks c t := by
  obtain ⟨d, hd, h⟩ := bind_eq_ok.1 h
  obtain ⟨-, -, hd⟩ := bind_eq_ok.1 hd
  obtain ⟨-, -, h⟩ := bind_eq_ok.1 h
  cases hd
  cases h
  exact talks_empty rfl rfl rfl

theorem call_talks {call : UdpCall} (h : call.run c = .ok t) : Talks c t := by
  cases call with
  | connect account =>
    have hconnect : (connectMessage account).messageType ≠ .disconnect := nofun
    have hset : Talks c { c with delayInSeconds := account.keepAlive, account := account } :=
      .of_stored rfl rfl fun _ _ => id
    have hstart (d : Client) : Talks d d.snStartConnectTimer := talks_empty rfl rfl rfl
    exact ((hset.trans (talks_fire hconnect)).trans (hstart _)).trans (talks_addMessage hconnect h)
  | subscribe topicName qos => exact talks_countPacket.trans (talks_stored (by nofun) h)
  | unsubscribe topicName => exact talks_countPacket.trans (talks_stored (by nofun) h)
  | message p => exact talks_message h
  | disconnect =>
    refine ⟨?_, fun hc => ?_⟩
    · obtain ⟨d, hd, h⟩ := bind_eq_ok.1 h
      cases h
      exact (talks_stopAllTimers hd).fires.trans ⟨[.sent (disconnectMessage d.account)], rfl, rfl⟩
    · cases (disconnect_faults hc.messager).symm.trans h
  | ping =>
    cases h
    exact talks_fire (by nofun)
  | connectTask ids =>
    cases h
    exact talks_connectTask ids
  | memory contents =>
    cases h
    exact .of_stored rfl rfl fun _ _ => id

theorem talks_connack (h : c.processConnack message = .ok t) : Talks c t := by
  obtain ⟨d, hd, hrest⟩ := bind_eq_ok.1 h
  obtain ⟨-, rfl⟩ := Client.snStopConnectTimer_eq_ok.1 hd
  obtain ⟨snCa, -, hrest⟩ := bind_eq_ok.1 hrest
  split at hrest
  · cases hrest
    exact talks_empty rfl rfl rfl
  · cases hrest
    exact talks_remove 0

theorem talks_processRegister (h : c.processRegister message = .ok t) : Talks c t := by
  obtain ⟨snRegister, -, h⟩ := bind_eq_ok.1 h
  obtain ⟨d, hd, h⟩ := bind_eq_ok.1 h
  cases h
  exact (talks_addTopic hd).trans (talks_fire (by nofun))

theorem talks_regack (h : c.processRegack message = .ok t) : Talks c t := by
  obtain ⟨snRegAck, -, h⟩ := bind_eq_ok.1 h
  split at h
  · cases h
    exact .refl c
  · have hremoved (d : Client) (packetId packetId' : UInt16) :
        Talks d ((d.snRemoveMessageFromMap packetId).snRemoveMessageFromMap packetId') :=
      (talks_remove packetId).trans (talks_remove packetId')
    split at h
    · obtain ⟨snPublish, -, h⟩ := bind_eq_ok.1 h
      obtain ⟨d, hd, h⟩ := bind_eq_ok.1 h
      obtain ⟨e, he, h⟩ := bind_eq_ok.1 h
      cases h
      exact ((talks_addTopic hd).trans (talks_publish he)).trans (hremoved e _ _)
    · cases h
      exact hremoved c _ _

theorem talks_processPublish (h : c.processPublish message = .ok t) : Talks c t := by
  obtain ⟨snP, -, h⟩ := bind_eq_ok.1 h
  obtain ⟨qos, -, h⟩ := bind_eq_ok.1 h
  split at h
  · cases h
    exact (talks_notify _).trans (talks_fire (by nofun))
  · split at h
    · cases h
      exact (talks_notify _).trans (talks_fire (by nofun))
    · cases h
      exact talks_notify _

theorem talks_puback (h : c.processPuback message = .ok t) : Talks c t := by
  obtain ⟨snPubAck, -, h⟩ := bind_eq_ok.1 h
  split at h
  · cases h
    exact .refl c
  · cases h
    exact talks_remove _

theorem talks_pubcomp (h : c.processPubcomp message = .ok t) : Talks c t := by
  obtain ⟨snPubComp, -, h⟩ := bind_eq_ok.1 h
  split at h
  · cases h
  · obtain ⟨snP, -, h⟩ := bind_eq_ok.1 h
    cases h
    exact talks_remove _

theorem talks_suback (h : c.processSuback message = .ok t) : Talks c t := by
  obtain ⟨snSuback, -, h⟩ := bind_eq_ok.1 h
  split at h
  · cases h
    exact .refl c
  · split at h
    · obtain ⟨s, -, h⟩ := bind_eq_ok.1 h
      obtain ⟨topic, -, h⟩ := bind_eq_ok.1 h
      obtain ⟨d, hd, h⟩ := bind_eq_ok.1 h
      cases h
      exact (talks_addTopic hd).trans (talks_remove _)
    · cases h
      exact .refl c

theorem talks_unsuback (h : c.processUnsuback message = .ok t) : Talks c t := by
  obtain ⟨snUnsuback, -, h⟩ := bind_eq_ok.1 h
  split at h
  · cases h
  · obtain ⟨snUn, -, h⟩ := bind_eq_ok.1 h
    obtain ⟨topic, -, h⟩ := bind_eq_ok.1 h
    obtain ⟨topicType, -, h⟩ := bind_eq_ok.1 h
    split at h <;> obtain ⟨_, -, h⟩ := bind_eq_ok.1 h <;> cases h <;> exact talks_remove _

/-- A message is logged, then answered. -/
theorem rx_talks (h : c.processSnRx message = .ok t) : Talks (c.afterRead message) t := by
  unfold Client.processSnRx at h
  dsimp only at h
  split at h
  · exact talks_connack h
  · cases h
    exact talks_fire (by nofun)
  · cases h
    exact talks_fire (by nofun)
  · exact talks_processRegister h
  · exact talks_regack h
  · exact talks_processPublish h
  · exact talks_puback h
  · exact talks_pubcomp h
  · obtain ⟨snPubrec, -, h⟩ := bind_eq_ok.1 h
    cases h
    exact talks_fire (by nofun)
  · obtain ⟨snPubrel, -, h⟩ := bind_eq_ok.1 h
    cases h
    exact talks_fire (by nofun)
  · exact talks_suback h
  · exact talks_unsuback h
  · exact talks_stopAllTimers h
  all_goals
    cases h
    exact .refl _

/-- What is read and handled is no DISCONNECT. -/
theorem NoDisconnect.read (hc : NoDisconnect c) (h : c.processSnRx message = .ok t) :
    NoDisconnect t := by
  have hmessage : message.messageType ≠ .disconnect := by
    intro hdisconnect
    unfold Client.processSnRx at h
    rw [hdisconnect] at h
    cases (Client.snStopAllTimers_faults (c := c.afterRead message) hc.messager).symm.trans h
  refine (rx_talks h).noDisconnect ⟨hc.messager, ?_, ?_, hc.stored⟩
  · change ∀ m ∈ sentOf (c.wire ++ [.received message]), _
    rw [sentOf_append, sentOf_received, List.append_nil]
    exact hc.sent
  · change ∀ m ∈ receivedOf (c.wire ++ [.received message]), _
    rw [receivedOf_append]
    intro m hm
    rcases mem_snoc.1 hm with hm | rfl
    · exact hc.received m hm
    · exact hmessage

theorem receive_logs {data : List UInt8} (h : receive c data = .ok t) : ∃ xs m,
    t.wire = c.wire ++ xs ∧ some <$> snDecode data = .ok m ∧ receivedOf xs = m.toList := by
  obtain ⟨message, hdecode, h⟩ := bind_eq_ok.1 h
  obtain ⟨xs, hwire, hxs⟩ := (rx_talks h).fires
  refine ⟨.received message :: xs, some message, ?_, ?_, ?_⟩
  · rw [hwire]
    exact List.append_assoc ..
  · rw [hdecode]
    rfl
  · exact congrArg (message :: ·) hxs

end Talks

/-! ### Runs -/

def logging : Logging Client UdpCall SnMessage where
  wire := Client.wire
  frame := frame
  reads data m := some <$> snDecode data = .ok m
  call := UdpCall.run
  receive := receive
  call_logs h := (call_talks h).fires
  receive_logs := receive_logs

variable {account : Account} {resolved created : Bool} {es fs : List (NetEvent UdpCall)}
  {n t : NetService Client}

/-- The client never disconnects, and survives no DISCONNECT of the gateway: in every state of every
run `send_sn_disconnect` crashes, before it fires anything. -/
theorem no_disconnect
    (h : run (NetService.step logging.listener)
      (initNetService (.init account) resolved created).1 es = .ok t) :
    NetService.step logging.listener t (.call .disconnect) = .error .nullDeref ∧
    (∀ m ∈ sentOf t.app.wire, m.messageType ≠ .disconnect) ∧
    ∀ m ∈ receivedOf t.app.wire, m.messageType ≠ .disconnect := by
  have hinit : (initNetService (.init account : Client) resolved created).1.app = .init account := by
    cases resolved <;> cases created <;> rfl
  have hstable : Stable logging.listener fun n : NetService Client => NoDisconnect n.app := by
    refine .of_app ?_ ?_
    · intro c e r hc hr
      obtain ⟨d, hd, hr⟩ := bind_eq_ok.1 hr
      obtain ⟨frames, -, hr⟩ := bind_eq_ok.1 hr
      cases hr
      exact (call_talks hd).noDisconnect hc
    · intro c data r hc hr
      obtain ⟨d, hd, hr⟩ := bind_eq_ok.1 hr
      obtain ⟨frames, -, hr⟩ := bind_eq_ok.1 hr
      obtain ⟨message, -, hd⟩ := bind_eq_ok.1 hd
      cases hr
      exact hc.read hd
  have ht : NoDisconnect t.app := hstable.run (hinit ▸ noDisconnect_init account) h
  refine ⟨?_, ht.sent, ht.received⟩
  change ((t.app.sendSnDisconnect >>= _) >>= _) = _
  rw [disconnect_faults ht.messager]
  rfl

/-- A CONNECT, which the first update sends. -/
def connectEvents : List (NetEvent UdpCall) :=
  [.call (.connect { Account.anonymous with clientId := some (.ofBytes [0x63]) }), .select,
    .handle ⟨⟨false, true, false⟩, true, [], false, .all⟩]

theorem no_disconnect_connectEvents : ∃ t,
    run (NetService.step logging.listener) (initNetService (.init .anonymous) true true).1
      connectEvents = .ok t ∧
    NetService.step logging.listener t (.call .disconnect) = .error .nullDeref ∧
    (∀ m ∈ sentOf t.app.wire, m.messageType ≠ .disconnect) ∧
    ∀ m ∈ receivedOf t.app.wire, m.messageType ≠ .disconnect :=
  ⟨_, rfl, @no_disconnect .anonymous true true connectEvents _ rfl⟩

/-- When two messages wait for an update they leave as one datagram, of which a peer that reads
datagrams as `process_sn_rx` does reads only the first. -/
theorem merged_read {u : Update} {d : Datagram} {rest : List UInt8}
    (hes : ∀ e ∈ es, e.Smooth) (hu : u.Smooth)
    (hn : run (NetService.step logging.listener) (initNetService (.init account) true true).1 es =
      .ok n)
    (hw : n.worker = .selecting) (ht : NetService.step logging.listener n (.handle u) = .ok t)
    (hd : d.size ≤ 65535)
    (hbuffer : n.s.writeBuffer ++ (t.written.drop n.written.length).flatten = d.wire ++ rest) :
    t.sent = n.sent ++ [d.wire ++ rest] ∧
      snDecode (d.wire ++ rest) = .ok ⟨d.type, d.decoded⟩ := by
  obtain ⟨⟨answers, hsends⟩, -⟩ := handle_polled (run_up (up_init _) hes hn) hu hw ht
  rw [hsends.written, List.drop_left] at hbuffer
  have hne : d.wire ++ rest ≠ [] := by simp [Datagram.wire]
  refine ⟨?_, snDecode_wire d hd rest⟩
  rw [hsends.sent, hbuffer, datagram, if_neg hne]

/-- Two PUBRECs arrive between two updates. -/
def pubrecUpdate : Update :=
  ⟨⟨true, true, false⟩, true, [[4, 0x0f, 0, 1], [4, 0x0f, 0, 2]], false, .all⟩

theorem merged_read_pubrecUpdate : ∃ n t,
    run (NetService.step logging.listener) (initNetService (.init .anonymous) true true).1
      (connectEvents ++ [.select]) = .ok n ∧
    NetService.step logging.listener n (.handle pubrecUpdate) = .ok t ∧
    t.sent = n.sent ++ [(Datagram.pubrel 1).wire ++ (Datagram.pubrel 2).wire] ∧
      snDecode ((Datagram.pubrel 1).wire ++ (Datagram.pubrel 2).wire) =
        .ok ⟨.pubrel, (Datagram.pubrel 1).decoded⟩ := by
  refine ⟨_, _, rfl, rfl, ?_⟩
  refine @merged_read .anonymous (connectEvents ++ [.select]) _ _ pubrecUpdate (.pubrel 1)
    (Datagram.pubrel 2).wire ?_ ⟨rfl, rfl, rfl, by decide, rfl⟩ rfl rfl rfl (by decide) rfl
  intro e he
  simp only [connectEvents, List.cons_append, List.nil_append, List.mem_cons, List.not_mem_nil,
    or_false] at he
  rcases he with rfl | rfl | rfl | rfl
  · trivial
  · trivial
  · exact ⟨rfl, rfl, rfl, List.not_mem_nil, rfl⟩
  · trivial

end IotClient.MqttSn
