import IotClient.Mqtt.Sending
import IotClient.Ws.Readable

/-!
# Input of any contents

What `process_rx` does with the bytes of a TCP connection and the texts of a WebSocket. `Sound`
says that it stays inside its input, uses no pointer that is `NULL` or was not set, and does no
more than read, unless every field of the message was set from the input. In every state that a
client reaches it is sound on exactly the input that `Fits` (`sound_iff`): a message that was
rejected is looked at all the same, and whatever ends the connection cancels a thread that nothing
starts.
-/

namespace IotClient.Mqtt

open Mem Json Machine Ws

/-- What `process_rx` is handed. -/
inductive Received where
  | tcp (data : List UInt8) (two_le : 2 ≤ data.length)
  | webSocket (text : List UInt8)

/-- The message `process_rx` decodes; `none` is `NULL`. -/
def Received.message (lib : Jansson) : Received → Run (Option Message)
  | tcp data _ => do pure (some (← decode data))
  | webSocket text => wsDecode lib text

/-- `process_rx` -/
def Client.processReceived (lib : Jansson) (c : Client) (r : Received) : Run Client := do
  match ← r.message lib with
  | some message => c.processRx message
  | none => .error .nullDeref

/-- Every field of the message was set, from bytes or members of the input. -/
def Received.Supplies (lib : Jansson) : Received → Message → Prop
  | tcp _ _, message => message.Assigned
  | webSocket text, message =>
    message.Assigned ∧ ∀ type, message.messageType = .is type → Supplied (lib.loads text) type

/-- The state after a message was read that nothing is done about. -/
def Client.afterRead (c : Client) (message : Message) : Client :=
  { c with wire := c.wire ++ [.received message] }

/-- The message was set from the input, or `process_rx` does nothing but read it. -/
def Sound (lib : Jansson) (c : Client) (r : Received) : Prop :=
  ∃ message t, r.message lib = .ok (some message) ∧ c.processReceived lib r = .ok t ∧
    (r.Supplies lib message ∨ t = c.afterRead message)

/-- The input has a type, and what the branch of the type needs; a CONNACK needs a CONNECT that was
sent. -/
def Received.Fits (lib : Jansson) (c : Client) : Received → Prop
  | tcp data _ => ∃ type, MessageType.ofByte (data.getD 0 0 >>> 4 &&& 0xf) = some type ∧
    PacketFits data type ∧ (type = .connack → c.connecter = true)
  | webSocket text => ∃ j type, lib.loads text = some j ∧
    MessageType.ofValue (enumValue (integerValue (objectGet (some j) "packet"))) = some type ∧
      MembersFit (some j) type ∧ (type = .connack → c.connecter = true)

/-- What comes to a client. -/
inductive Input where
  | call (f : Call)
  | receive (r : Received)

def Client.input (lib : Jansson) (c : Client) : Input → Run Client
  | .call f => f.run c
  | .receive r => c.processReceived lib r

/-! ### What is done about a type -/

/-- Nothing is done about the type. -/
def MessageType.Idle : MessageType → Prop
  | publish | puback | pubrec | pubrel | pubcomp | suback | unsuback | pingresp => True
  | _ => False

/-- The type ends the connection. -/
def MessageType.Closing : MessageType → Prop
  | connect | subscribe | unsubscribe | pingreq | disconnect => True
  | _ => False

variable {lib : Jansson} {c : Client} {r : Received} {message : Message} {type : MessageType}

theorem processRx_idle (h : message.messageType = .is type) (hidle : type.Idle) :
    c.processRx message = .ok (c.afterRead message) := by
  unfold Client.processRx
  rw [h, Cell.get_is, ok_bind]
  cases type <;> first | rfl | exact hidle.elim

/-- `stop_message_timer` cancels a thread that was never started. -/
theorem sendDisconnect_faults (hc : c.messager = false) : ¬ Returns c.sendDisconnect := by
  rintro ⟨t, h⟩
  obtain ⟨d, hd, -⟩ := bind_eq_ok.1 h
  obtain ⟨u, hu, hd⟩ := bind_eq_ok.1 hd
  obtain ⟨-, -, hu⟩ := bind_eq_ok.1 hu
  cases hu
  obtain ⟨⟨⟩, hcancel, -⟩ := bind_eq_ok.1 hd
  have hmessager : c.messager = true := pthreadCancel_eq_ok.1 hcancel
  rw [hc] at hmessager
  cases hmessager

theorem processRx_closing (hc : c.messager = false) (h : message.messageType = .is type)
    (hclosing : type.Closing) : ¬ Returns (c.processRx message) := by
  have hfault : ¬ Returns (c.afterRead message).sendDisconnect := sendDisconnect_faults hc
  unfold Client.processRx
  rw [h, Cell.get_is, ok_bind]
  cases type <;> first | exact hfault | exact hclosing.elim

/-- A CONNACK that was handled. -/
theorem processRx_connack_ok {t : Client} (h : message.messageType = .is .connack)
    (ht : c.processRx message = .ok t) :
    c.connecter = true ∧ ∃ ca, message = ⟨.is .connack, .ref (.connack ca)⟩ := by
  unfold Client.processRx at ht
  rw [h, Cell.get_is, ok_bind] at ht
  obtain ⟨d, hd, ht⟩ := bind_eq_ok.1 ht
  have hconn := connecter_of_stop hd
  obtain ⟨packet, hpacket, ht⟩ := bind_eq_ok.1 ht
  obtain ⟨ca, hca, -⟩ := bind_eq_ok.1 ht
  obtain ⟨messageType, p⟩ := message
  obtain rfl : messageType = .is .connack := h
  obtain rfl : p = .ref packet := Ptr.deref_eq_ok.1 hpacket
  cases packet <;> cases hca
  exact ⟨hconn, ca, rfl⟩

theorem afterConnack_ne (ca : Connack) : c.afterConnack message ca ≠ c.afterRead message := by
  intro h
  have hnotices := (afterConnack_eq c message ca).2.2.2.2
  rw [h] at hnotices
  have hlen := congrArg List.length hnotices
  simp [Client.afterRead] at hlen

theorem processReceived_some (h : r.message lib = .ok (some message)) :
    c.processReceived lib r = c.processRx message := by
  unfold Client.processReceived
  rw [h, ok_bind]

/-! ### Reachable states -/

theorem messager_processRx {t : Client} (hc : c.messager = false)
    (h : c.processRx message = .ok t) : t.messager = false := by
  obtain ⟨type, htype, -⟩ := bind_eq_ok.1 h
  have htype : message.messageType = .is type := Cell.get_eq_ok.1 htype
  by_cases hidle : type.Idle
  · rw [processRx_idle htype hidle] at h
    cases h
    exact hc
  by_cases hclosing : type.Closing
  · exact absurd ⟨t, h⟩ (processRx_closing hc htype hclosing)
  obtain rfl : type = .connack := by
    cases type <;> first | rfl | exact absurd trivial hidle | exact absurd trivial hclosing
  obtain ⟨hconn, ca, hca⟩ := processRx_connack_ok htype h
  rw [processRx_connack hconn hca] at h
  cases h
  unfold Client.afterConnack
  split <;> exact hc

/-- Nothing starts a `message_resend_task`. -/
theorem messager_input {i : Input} {t : Client} (hc : c.messager = false)
    (h : c.input lib i = .ok t) : t.messager = false := by
  cases i with
  | call f =>
    cases f with
    | sendPublish content topicName qos retain dup =>
      unfold Client.input Call.run Client.sendPublish at h
      dsimp only at h
      split at h <;> cases h <;> exact hc
    | _ =>
      cases h
      exact hc
  | receive r =>
    obtain ⟨message, -, h⟩ := bind_eq_ok.1 h
    cases message with
    | none => cases h
    | some message => exact messager_processRx hc h

theorem messager_run {is : List Input} (h : run (Client.input lib) .init is = .ok c) :
    c.messager = false :=
  run_keeps (P := fun c => c.messager = false) (G := fun _ _ => True)
    (fun _ _ _ _ hc _ ht => messager_input hc ht) rfl (each_of_forall fun _ _ _ => trivial) h

/-! ### Sound input, by the type -/

/-- The messages of the input have a given type. -/
def Received.Typed (lib : Jansson) (r : Received) (type : MessageType) : Prop :=
  ∀ message, r.message lib = .ok (some message) → message.messageType = .is type

/-- Nothing is done about the message. -/
theorem sound_idle_iff (htype : r.Typed lib type) (hidle : type.Idle) :
    Sound lib c r ↔ ∃ message, r.message lib = .ok (some message) := by
  constructor
  · rintro ⟨message, t, h, -⟩
    exact ⟨message, h⟩
  · rintro ⟨message, h⟩
    exact ⟨message, _, h, (processReceived_some h).trans (processRx_idle (htype message h) hidle),
      .inr rfl⟩

/-- The message ends the connection. -/
theorem not_sound_closing (hc : c.messager = false) (htype : r.Typed lib type)
    (hclosing : type.Closing) : ¬ Sound lib c r := by
  rintro ⟨message, t, h, ht, -⟩
  rw [processReceived_some h] at ht
  exact processRx_closing hc (htype message h) hclosing ⟨t, ht⟩

/-- The message is handled, when it has a packet and a CONNECT was sent. -/
theorem sound_connack_iff (htype : r.Typed lib .connack) :
    Sound lib c r ↔ (∃ message, r.message lib = .ok (some message) ∧
      (∃ ca, message = ⟨.is .connack, .ref (.connack ca)⟩) ∧ r.Supplies lib message) ∧
        c.connecter = true := by
  constructor
  · rintro ⟨message, t, h, ht, hset⟩
    rw [processReceived_some h] at ht
    obtain ⟨hconn, ca, hca⟩ := processRx_connack_ok (htype message h) ht
    rw [processRx_connack hconn hca] at ht
    obtain rfl := Except.ok.inj ht
    exact ⟨⟨message, h, ⟨ca, hca⟩, hset.resolve_right (afterConnack_ne ca)⟩, hconn⟩
  · rintro ⟨⟨message, h, ⟨ca, hca⟩, hset⟩, hconn⟩
    exact ⟨message, _, h, (processReceived_some h).trans (processRx_connack hconn hca), .inl hset⟩

/-- No other type needs the `connect_task`. -/
theorem sound_other {P : Prop} (hne : type ≠ .connack) (h : Sound lib c r ↔ P) :
    Sound lib c r ↔ P ∧ (type = .connack → c.connecter = true) :=
  h.trans (and_iff_left fun heq => absurd heq hne).symm

/-- A message without a type. -/
theorem not_sound_untyped (h : r.message lib = .ok (some ⟨.indet, .indet⟩)) : ¬ Sound lib c r := by
  rintro ⟨message, t, -, ht, -⟩
  rw [processReceived_some h] at ht
  cases ht

/-! ### Bytes -/

theorem tcp_message {data : List UInt8} {h2 : 2 ≤ data.length} :
    (Received.tcp data h2).message lib = .ok (some message) ↔ decode data = .ok message := by
  show (decode data >>= _) = _ ↔ _
  cases decode data with
  | error e => exact iff_of_false (fun h => by cases h) (fun h => by cases h)
  | ok m => exact ⟨fun h => congrArg _ (Option.some.inj (Except.ok.inj h)),
      fun h => congrArg _ (congrArg _ (Except.ok.inj h))⟩

section Bytes

variable {data : List UInt8} {h2 : 2 ≤ data.length}

theorem decode_untyped (h2 : 2 ≤ data.length)
    (h : MessageType.ofByte (data.getD 0 0 >>> 4 &&& 0xf) = none) :
    decode data = .ok ⟨.indet, .indet⟩ := by
  unfold decode
  rw [rd_getD (by omega), ok_bind, h]
  rfl

theorem decode_typed (h2 : 2 ≤ data.length)
    (h : MessageType.ofByte (data.getD 0 0 >>> 4 &&& 0xf) = some type) :
    decode data = decodeType data (data.getD 0 0) type := by
  unfold decode
  rw [rd_getD (by omega), ok_bind, h]

/-- The message of a type that nothing is done about. -/
theorem sound_tcp_idle
    (htype : ∀ message, decode data = .ok message → message.messageType = .is type)
    (hidle : type.Idle) : Sound lib c (.tcp data h2) ↔ Returns (decode data) := by
  rw [sound_idle_iff (fun message h => htype message (tcp_message.1 h)) hidle]
  exact exists_congr fun _ => tcp_message

theorem not_sound_tcp_closing (hc : c.messager = false)
    (htype : ∀ message, decode data = .ok message → message.messageType = .is type)
    (hclosing : type.Closing) : ¬ Sound lib c (.tcp data h2) :=
  not_sound_closing hc (fun message h => htype message (tcp_message.1 h)) hclosing

theorem sound_tcp_connack (hdecode : decode data = decodeConnack data) :
    Sound lib c (.tcp data h2) ↔ ConnackFits data ∧ c.connecter = true := by
  have htype : ∀ m, decode data = .ok m → m.messageType = .is .connack := by
    intro m hm
    obtain rfl | ⟨ca, rfl⟩ := decodeConnack_ok (hdecode.symm.trans hm) <;> rfl
  rw [sound_connack_iff fun m hm => htype m (tcp_message.1 hm), ← decodeConnack_assigned]
  refine and_congr_left fun _ => exists_congr fun m => ?_
  rw [tcp_message, hdecode]
  refine and_congr_right fun hm => ⟨And.right, fun hset => ⟨?_, hset⟩⟩
  refine (decodeConnack_ok hm).resolve_left ?_
  rintro rfl
  exact rejected_not_assigned id hset

theorem sound_tcp_typed (hc : c.messager = false)
    (h : MessageType.ofByte (data.getD 0 0 >>> 4 &&& 0xf) = some type) :
    Sound lib c (.tcp data h2) ↔ PacketFits data type ∧ (type = .connack → c.connecter = true) := by
  have hdecode := decode_typed h2 h
  have hid {type : MessageType} {packet : UInt16 → Packet}
      (hread : decode data = decodeId type packet data) (hidle : type.Idle) :
      Sound lib c (.tcp data h2) ↔ 4 ≤ data.length := by
    rw [sound_tcp_idle (fun m hm => decodeId_messageType (hread.symm.trans hm)) hidle, hread]
    exact decodeId_returns
  have hclose (hclosing : type.Closing)
      (htype : ∀ m, decode data = .ok m → m.messageType = .is type) :
      Sound lib c (.tcp data h2) ↔ False :=
    iff_of_false (not_sound_tcp_closing hc htype hclosing) id
  -- the types without a packet
  have hbare {type : MessageType} (h : decode data = .ok ⟨.is type, .indet⟩) :
      ∀ m, decode data = .ok m → m.messageType = .is type := by
    intro m hm
    cases h.symm.trans hm
    rfl
  cases type with
  | connect =>
    refine sound_other nofun (hclose trivial fun m hm => ?_)
    rw [decodeConnect_ok (hdecode.symm.trans hm)]
    rfl
  | connack =>
    exact (sound_tcp_connack hdecode).trans
      (and_congr_right' ⟨fun hconn _ => hconn, fun hconn => hconn rfl⟩)
  | publish =>
    refine sound_other nofun ?_
    rw [sound_tcp_idle (fun m hm => decodePublish_messageType (hdecode.symm.trans hm)) trivial,
      hdecode]
    exact decodePublish_returns h2
  | puback => exact sound_other nofun (hid hdecode trivial)
  | pubrec => exact sound_other nofun (hid hdecode trivial)
  | pubrel => exact sound_other nofun (hid hdecode trivial)
  | pubcomp => exact sound_other nofun (hid hdecode trivial)
  | unsuback => exact sound_other nofun (hid hdecode trivial)
  | suback =>
    refine sound_other nofun ?_
    rw [sound_tcp_idle (fun m hm => decodeSuback_messageType (hdecode.symm.trans hm)) trivial,
      hdecode]
    exact decodeSuback_returns h2
  | subscribe =>
    exact sound_other nofun (hclose trivial fun m hm =>
      decodeSubscribe_messageType (hdecode.symm.trans hm))
  | unsubscribe =>
    exact sound_other nofun (hclose trivial fun m hm =>
      decodeUnsubscribe_messageType (hdecode.symm.trans hm))
  | pingreq => exact sound_other nofun (hclose trivial (hbare hdecode))
  | pingresp =>
    refine sound_other nofun ?_
    rw [sound_tcp_idle (hbare hdecode) trivial]
    exact iff_of_true ⟨_, hdecode⟩ trivial
  | disconnect => exact sound_other nofun (hclose trivial (hbare hdecode))

end Bytes

/-! ### Texts -/

section Texts

variable {text : List UInt8} {j : Value}

theorem wsDecode_typed (hj : lib.loads text = some j)
    (h : MessageType.ofValue (enumValue (integerValue (objectGet (some j) "packet"))) = some type) :
    (Received.webSocket text).message lib = Ws.decodeType (some j) type := by
  show wsDecode lib text = _
  unfold wsDecode
  rw [hj]
  dsimp only
  rw [h]

theorem supplies_webSocket (hj : lib.loads text = some j) (h : message.messageType = .is type) :
    (Received.webSocket text).Supplies lib message ↔
      message.Assigned ∧ Supplied (some j) type := by
  refine and_congr_right fun _ => ?_
  rw [hj, h]
  constructor
  · exact fun hset => hset type rfl
  · rintro hset _ ⟨⟩
    exact hset

theorem sound_webSocket_connack (hj : lib.loads text = some j)
    (hread : (Received.webSocket text).message lib = Ws.decodeType (some j) .connack) :
    Sound lib c (.webSocket text) ↔ MembersFit (some j) .connack ∧ c.connecter = true := by
  have htype : (Received.webSocket text).Typed lib .connack := by
    intro m hm
    obtain ⟨ca, rfl⟩ := Ws.decodeConnack_ok (hread.symm.trans hm)
    rfl
  rw [sound_connack_iff htype]
  refine and_congr_left fun _ => ?_
  constructor
  · rintro ⟨m, hm, -, hset⟩
    obtain ⟨-, hsupplied⟩ := (supplies_webSocket hj (htype m hm)).1 hset
    exact ⟨hsupplied, (decodeConnack_some.1 ⟨m, hread.symm.trans hm⟩).2⟩
  · rintro ⟨hsupplied, hcode⟩
    obtain ⟨b, hb⟩ := hsupplied.1
    obtain ⟨m, hm⟩ := decodeConnack_some.2 ⟨by rw [hb]; simp, hcode⟩
    obtain ⟨ca, rfl⟩ := Ws.decodeConnack_ok hm
    refine ⟨_, hread.trans hm, ⟨ca, rfl⟩, ?_⟩
    exact (supplies_webSocket hj rfl).2 ⟨(assigned_ref id).2 trivial, hsupplied⟩

theorem sound_webSocket_typed (hc : c.messager = false) (hj : lib.loads text = some j)
    (h : MessageType.ofValue (enumValue (integerValue (objectGet (some j) "packet"))) = some type) :
    Sound lib c (.webSocket text) ↔
      MembersFit (some j) type ∧ (type = .connack → c.connecter = true) := by
  have hread := wsDecode_typed hj h
  have hid {type : MessageType} {packet : Packet}
      (h : (Received.webSocket text).message lib = .ok (some ⟨.is type, .ref packet⟩))
      (hidle : type.Idle) : Sound lib c (.webSocket text) ↔ True := by
    refine iff_of_true ((sound_idle_iff (fun m hm => ?_) hidle).2 ⟨_, h⟩) trivial
    cases h.symm.trans hm
    rfl
  have hclose (hclosing : type.Closing) (htype : (Received.webSocket text).Typed lib type) :
      Sound lib c (.webSocket text) ↔ False :=
    iff_of_false (not_sound_closing hc htype hclosing) id
  -- the types without a packet
  have hbare {type : MessageType}
      (h : (Received.webSocket text).message lib = .ok (some ⟨.is type, .indet⟩)) :
      (Received.webSocket text).Typed lib type := by
    intro m hm
    cases h.symm.trans hm
    rfl
  cases type with
  | connect =>
    exact sound_other nofun (hclose trivial fun m hm =>
      Ws.decodeConnect_messageType (hread.symm.trans hm))
  | connack =>
    exact (sound_webSocket_connack hj hread).trans
      (and_congr_right' ⟨fun hconn _ => hconn, fun hconn => hconn rfl⟩)
  | publish =>
    refine sound_other nofun ?_
    rw [sound_idle_iff (fun m hm => Ws.decodePublish_messageType (hread.symm.trans hm)) trivial,
      hread]
    exact decodePublish_some
  | puback => exact sound_other nofun (hid hread trivial)
  | pubrec => exact sound_other nofun (hid hread trivial)
  | pubrel => exact sound_other nofun (hid hread trivial)
  | pubcomp => exact sound_other nofun (hid hread trivial)
  | unsuback => exact sound_other nofun (hid hread trivial)
  | suback =>
    refine sound_other nofun ?_
    rw [sound_idle_iff (fun m hm => Ws.decodeSuback_messageType (hread.symm.trans hm)) trivial,
      hread]
    exact decodeSuback_some
  | subscribe =>
    exact sound_other nofun (hclose trivial fun m hm =>
      Ws.decodeSubscribe_messageType (hread.symm.trans hm))
  | unsubscribe =>
    exact sound_other nofun (hclose trivial fun m hm =>
      Ws.decodeUnsubscribe_messageType (hread.symm.trans hm))
  | pingreq => exact sound_other nofun (hclose trivial (hbare hread))
  | pingresp =>
    refine sound_other nofun ?_
    rw [sound_idle_iff (hbare hread) trivial]
    exact iff_of_true ⟨_, hread⟩ trivial
  | disconnect => exact sound_other nofun (hclose trivial (hbare hread))

end Texts

/-! ### All input -/

/-- In the states of a run `process_rx` is sound on the input that fits. -/
theorem sound_iff (lib : Jansson) {is : List Input} {c : Client}
    (hc : run (Client.input lib) .init is = .ok c) (r : Received) :
    Sound lib c r ↔ r.Fits lib c := by
  have hmessager := messager_run hc
  cases r with
  | tcp data h2 =>
    cases htype : MessageType.ofByte (data.getD 0 0 >>> 4 &&& 0xf) with
    | none =>
      refine iff_of_false (not_sound_untyped (tcp_message.2 (decode_untyped h2 htype))) ?_
      rintro ⟨type, htype', -⟩
      cases htype.symm.trans htype'
    | some type =>
      rw [sound_tcp_typed hmessager htype]
      constructor
      · exact fun hfits => ⟨type, htype, hfits⟩
      · rintro ⟨type', htype', hfits⟩
        cases htype.symm.trans htype'
        exact hfits
  | webSocket text =>
    cases hj : lib.loads text with
    | none =>
      refine iff_of_false ?_ ?_
      · rintro ⟨message, t, h, -⟩
        change wsDecode lib text = _ at h
        unfold wsDecode at h
        rw [hj] at h
        cases h
      · rintro ⟨j, type, hj', -⟩
        cases hj.symm.trans hj'
    | some j =>
      cases htype : MessageType.ofValue
          (enumValue (integerValue (objectGet (some j) "packet"))) with
      | none =>
        refine iff_of_false (not_sound_untyped ?_) ?_
        · show wsDecode lib text = _
          unfold wsDecode
          rw [hj]
          dsimp only
          rw [htype]
          rfl
        · rintro ⟨j', type, hj', htype', -⟩
          cases hj.symm.trans hj'
          cases htype.symm.trans htype'
      | some type =>
        rw [sound_webSocket_typed hmessager hj htype]
        constructor
        · exact fun hfits => ⟨j, type, hj, htype, hfits⟩
        · rintro ⟨j', type', hj', htype', hfits⟩
          cases hj.symm.trans hj'
          cases htype.symm.trans htype'
          exact hfits

/-- A PINGRESP is read, also before anything else. -/
theorem sound_iff_pingresp :
    Sound ⟨fun _ => none, fun _ => none⟩ .init (.tcp [0xd0, 0] (by decide)) ↔
      (Received.tcp [0xd0, 0] (by decide)).Fits ⟨fun _ => none, fun _ => none⟩ .init :=
  @sound_iff ⟨fun _ => none, fun _ => none⟩ [] .init rfl (.tcp [0xd0, 0] (by decide))

/-- A CONNACK with the code 6 is rejected, and its packet is used. -/
theorem connack_not_sound : ∃ c,
    run (Client.input ⟨fun _ => none, fun _ => none⟩) .init [.call (.sendConnect .named)] = .ok c ∧
      c.connecter = true ∧
      ¬ Sound ⟨fun _ => none, fun _ => none⟩ c (.tcp [0x20, 2, 0, 6] (by decide)) := by
  refine ⟨_, rfl, rfl, ?_⟩
  rintro ⟨message, t, -, ht, -⟩
  cases ht

end IotClient.Mqtt
