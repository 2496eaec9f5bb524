import IotClient.Mqtt.Client
import IotClient.Mqtt.FrameSize
import IotClient.Net.Logging
import IotClient.Ws.Parser

/-!
# What `encode_and_fire` makes of a message

Over TCP the client fires the block of `encode`, over WebSockets the text of `ws_encode`. A
message of a call has its text always. It has its block when it is `Encodable`: `get_length` and
`encode` read the strings of a CONNECT, and the length field and the body may need more than the
`get_length` bytes and two that `encode` allocates.
-/

namespace IotClient.Mqtt

open Mem Machine Net
open Ws (Jansson wsEncode)

/-- `encode_and_fire`, up to the block or the text that it fires. -/
def encodeFired (lib : Jansson) (protocol : Protocol) (message : Message) : Run Unit :=
  if protocol = .mqtt then do
    let length ← getLength message
    let _ ← encode message length
  else do
    let _ ← wsEncode lib message

/-- The client is now in state `t`, and makes what it has fired since it was `c`. -/
def Client.encodeSent (lib : Jansson) (protocol : Protocol) (c t : Client) : Run Client := do
  (sentOf (t.wire.drop c.wire.length)).forM (encodeFired lib protocol)
  pure t

/-- A step, with what is fired. -/
def sendingStep (lib : Jansson) (protocol : Protocol) (c : Client) (e : Event) : Run Client := do
  c.encodeSent lib protocol (← step c e)

/-! ### Messages that can be encoded -/

/-- The length field and a body of `written` bytes fit behind the first of `length + 2` bytes. -/
def InBlock (length written : Nat) : Prop := (lengthBytes length).length + written ≤ length + 1

/-- The bytes that `encode` writes of a string of `n` bytes and its length, which has 16 bits. -/
def stringSize (n : Nat) : Nat := fieldSize (n % 65536)

/-- The bytes that `encode` writes behind the length field of a call's message. -/
def writtenSize : Message → Nat
  | ⟨.is .connect, .ref (.connect c)⟩ =>
    12 + lengthOf c.clientId % 65536 +
      (if c.willFlag ≠ 0 then
        stringSize (lengthOf c.will.topic.topicName) + stringSize (lengthOf c.will.content)
        else 0) +
      stringSize (lengthOf c.username) + stringSize (lengthOf c.password)
  | ⟨.is .publish, .ref (.publish p)⟩ =>
    stringSize (lengthOf p.topic.topicName) + (if p.packetId ≠ .is 0 then 2 else 0) +
      lengthOf p.content
  | ⟨.is .subscribe, .ref (.subscribe ⟨.ref ts, _, _⟩)⟩ =>
    2 + (ts.map fun t => stringSize (lengthOf t.topicName)).sum + if ts = [] then 0 else 1
  | ⟨.is .unsubscribe, .ref (.unsubscribe ⟨_, .ref ts, _⟩)⟩ =>
    2 + (ts.map fun t => stringSize (lengthOf t.topicName)).sum
  | _ => 0

/-- A CONNECT has a client id, a user name and a password. -/
def HasStrings (m : Message) : Prop :=
  match m.packet with
  | .ref (.connect c) => IsString c.clientId ∧ IsString c.username ∧ IsString c.password
  | _ => True

/-- Over TCP the strings of the message are there, and its frame fits into the block. -/
def Encodable (protocol : Protocol) (m : Message) : Prop :=
  protocol = .mqtt → HasStrings m ∧ InBlock (bodySize m) (writtenSize m)

section Encodable

variable {lib : Jansson} {m : Message} {l n : Nat} {x : UInt8} {body : List UInt8}

theorem emittedBlock_returns {out : List UInt8} :
    Returns (emittedBlock n out) ↔ out.length ≤ n := by
  unfold emittedBlock
  split
  case isTrue h => exact iff_of_true (returns_ok _) h
  case isFalse h => exact iff_of_false (not_returns_error _) h

/-- A message of which the frame is known. -/
theorem encodeFired_of_frame (hl : getLength m = .ok l)
    (he : encode m l = emittedBlock (l + 2) (x :: (lengthBytes l ++ body))) :
    Returns (encodeFired lib .mqtt m) ↔ InBlock l body.length := by
  unfold encodeFired InBlock
  rw [if_pos rfl, hl, ok_bind, he]
  refine (returns_bind_ok fun _ => returns_ok _).trans (emittedBlock_returns.trans ?_)
  rw [List.length_cons, List.length_append]
  omega

theorem encodeFired_ws {protocol : Protocol} (hp : protocol ≠ .mqtt) (h : Returns (wsEncode lib m)) :
    Returns (encodeFired lib protocol m) := by
  unfold encodeFired
  rw [if_neg hp]
  exact (returns_bind_ok fun _ => returns_ok _).2 h

theorem length_stringField_size (s : CString) : (stringField s).length = stringSize s.bytes.length :=
  length_stringField_mod s

/-! ### CONNECT -/

theorem isString_of_strlen {p : Ptr CString} (h : strlen p = .ok n) : IsString p := by
  cases p with
  | ref s => exact ⟨s, rfl⟩
  | _ => cases h

/-- `get_length` reads the strings of a CONNECT. -/
theorem hasStrings_of_getLength {c : Connect}
    (h : getLength ⟨.is .connect, .ref (.connect c)⟩ = .ok l) :
    HasStrings ⟨.is .connect, .ref (.connect c)⟩ := by
  have hrest {length : Nat} (h : (do
      let u ← strlen c.username
      let p ← strlen c.password
      pure ((length + if u ≠ 0 then u + 2 else 0) + if p ≠ 0 then p + 2 else 0)) = .ok l) :
      IsString c.username ∧ IsString c.password := by
    obtain ⟨username, huser, h⟩ := bind_eq_ok.1 h
    obtain ⟨password, hpass, -⟩ := bind_eq_ok.1 h
    exact ⟨isString_of_strlen huser, isString_of_strlen hpass⟩
  unfold getLength at h
  simp only [Cell.get_is, Ptr.deref_ref, ok_bind, Packet.asConnect] at h
  obtain ⟨clientId, hid, h⟩ := bind_eq_ok.1 h
  refine ⟨isString_of_strlen hid, ?_⟩
  split at h
  · obtain ⟨content, -, h⟩ := bind_eq_ok.1 h
    obtain ⟨topicName, -, h⟩ := bind_eq_ok.1 h
    obtain ⟨length, -, h⟩ := bind_eq_ok.1 h
    exact hrest h
  · obtain ⟨length, -, h⟩ := bind_eq_ok.1 h
    exact hrest h

/-- The strings of a call's CONNECT, whose will is there when its flag is set. -/
theorem connectStrings (account : Account) (h : HasStrings (connectMessage account)) :
    ∃ c : Connect, connectMessage account = ⟨.is .connect, .ref (.connect c)⟩ ∧
      c.will.topic.qos = .is account.qos ∧ Nonempty (ConnectStrings c) := by
  obtain ⟨⟨clientId, hid⟩, ⟨username, huser⟩, ⟨password, hpass⟩⟩ := h
  refine ⟨_, rfl, rfl, ?_⟩
  by_cases hwill : account.will ≠ none ∧ account.willTopic ≠ none
  · obtain ⟨⟨content, hcontent⟩, ⟨topicName, htopic⟩⟩ :=
      And.imp Option.ne_none_iff_exists'.1 Option.ne_none_iff_exists'.1 hwill
    exact ⟨clientId, username, password, topicName, content, hid, huser, hpass,
      fun _ => congrArg Ptr.ofOption htopic, fun _ => congrArg Ptr.ofOption hcontent⟩
  · have hflag : ¬ (if account.will ≠ none ∧ account.willTopic ≠ none then (1 : Int) else 0) ≠ 0 := by
      rw [if_neg hwill]
      decide
    exact ⟨clientId, username, password, ∅, ∅, hid, huser, hpass,
      fun h => absurd h hflag, fun h => absurd h hflag⟩

theorem jsonString_ofOption (s : Option CString) : Returns (Ws.jsonString (.ofOption s)) := by
  cases s <;> exact returns_ok _

/-- `ws_encode` takes the strings of a CONNECT as they are, `NULL` too. -/
theorem wsEncode_connect (account : Account) : Returns (wsEncode lib (connectMessage account)) := by
  obtain ⟨username, huser⟩ := jsonString_ofOption account.username
  obtain ⟨password, hpass⟩ := jsonString_ofOption account.password
  obtain ⟨clientId, hid⟩ := jsonString_ofOption account.clientId
  have hmembers : Returns (Ws.encodeMessage (connectMessage account)) := by
    simp only [Ws.encodeMessage, connectMessage, Cell.get_is, Ptr.deref_ref, ok_bind,
      Packet.asConnect, Ws.encodeConnect, huser, hpass, hid]
    by_cases hwill : account.will ≠ none ∧ account.willTopic ≠ none
    · obtain ⟨⟨content, hcontent⟩, ⟨topicName, htopic⟩⟩ :=
        And.imp Option.ne_none_iff_exists'.1 Option.ne_none_iff_exists'.1 hwill
      rw [if_pos hwill, if_neg (by decide), hcontent, htopic]
      exact ⟨_, rfl⟩
    · rw [if_neg hwill, if_pos rfl]
      exact returns_ok _
  exact (returns_bind_ok fun _ => returns_ok _).2 hmembers

theorem encodeFired_connect (lib : Jansson) (protocol : Protocol) (account : Account) :
    Returns (encodeFired lib protocol (connectMessage account)) ↔
      Encodable protocol (connectMessage account) := by
  by_cases hp : protocol = .mqtt
  · subst hp
    have hnone (h : ¬ HasStrings (connectMessage account)) :
        ¬ Returns (encodeFired lib .mqtt (connectMessage account)) := by
      unfold encodeFired
      rw [if_pos rfl]
      exact not_returns_bind fun ⟨l, hl⟩ => h (hasStrings_of_getLength hl)
    by_cases hstrings : HasStrings (connectMessage account)
    · obtain ⟨c, hc, hqos, ⟨s⟩⟩ := connectStrings account hstrings
      rw [hc] at hstrings ⊢
      obtain ⟨b, hb⟩ := connectFlags_ok s fun _ => ⟨_, hqos⟩
      rw [encodeFired_of_frame (getLength_connect s)
        ((encode_connect _ c).trans (encodeConnect_block s hb)), length_connectBody]
      have hsize : writtenSize ⟨.is .connect, .ref (.connect c)⟩ =
          12 + s.clientId.bytes.length % 65536 +
            (if c.willFlag ≠ 0 then
              (stringField s.topicName).length + (stringField s.content).length else 0) +
            (stringField s.username).length + (stringField s.password).length := by
        simp only [writtenSize, s.clientId_eq, s.username_eq, s.password_eq, lengthOf_ref,
          length_stringField_size]
        by_cases hw : c.willFlag ≠ 0
        · rw [if_pos hw, if_pos hw, s.topicName_eq hw, s.content_eq hw, lengthOf_ref, lengthOf_ref]
        · rw [if_neg hw, if_neg hw]
      rw [← hsize]
      exact ⟨fun h _ => ⟨hstrings, h⟩, fun h => (h rfl).2⟩
    · exact iff_of_false (hnone hstrings) fun h => hstrings (h rfl).1
  · exact iff_of_true (encodeFired_ws hp (wsEncode_connect account)) fun h => absurd h hp

/-! ### The other messages -/

theorem encodeFired_subscribe (lib : Jansson) (protocol : Protocol) (topicName : CString) (qos : Nat)
    (packetId : UInt16) :
    Returns (encodeFired lib protocol (subscribeMessage topicName qos packetId)) ↔
      Encodable protocol (subscribeMessage topicName qos packetId) := by
  by_cases hp : protocol = .mqtt
  · subst hp
    let s : Subscribe := ⟨.ref (filtersOf [(topicName, qos)]), 1, packetId⟩
    have hlength : getLength ⟨.is .subscribe, .ref (.subscribe s)⟩ = _ := getLength_subscribe rfl rfl
    have hframe : Returns (encodeFired lib .mqtt ⟨.is .subscribe, .ref (.subscribe s)⟩) ↔ _ :=
      encodeFired_of_frame hlength ((encode_subscribe _ s).trans (encodeSubscribe_block rfl rfl))
    refine hframe.trans ?_
    simp only [subscribeBody, List.length_append, length_shortBytes, List.flatMap_cons,
      List.flatMap_nil, List.append_nil, length_stringField_size]
    exact ⟨fun h _ => ⟨trivial, h⟩, fun h => (h rfl).2⟩
  · exact iff_of_true (encodeFired_ws hp ⟨_, rfl⟩) fun h => absurd h hp

theorem encodeFired_unsubscribe (lib : Jansson) (protocol : Protocol) (topicName : CString)
    (packetId : UInt16) :
    Returns (encodeFired lib protocol (unsubscribeMessage topicName packetId)) ↔
      Encodable protocol (unsubscribeMessage topicName packetId) := by
  by_cases hp : protocol = .mqtt
  · subst hp
    let us : Unsubscribe := ⟨.is 1, .ref (topicsOf [(topicName, .indet)]), packetId⟩
    have hlength : getLength ⟨.is .unsubscribe, .ref (.unsubscribe us)⟩ = _ :=
      getLength_unsubscribe rfl rfl
    have hframe : Returns (encodeFired lib .mqtt ⟨.is .unsubscribe, .ref (.unsubscribe us)⟩) ↔ _ :=
      encodeFired_of_frame hlength ((encode_unsubscribe _ us).trans (encodeUnsubscribe_block rfl rfl))
    refine hframe.trans ?_
    simp only [List.length_append, length_shortBytes, List.flatMap_cons, List.flatMap_nil,
      List.append_nil, length_stringField_size]
    exact ⟨fun h _ => ⟨trivial, h⟩, fun h => (h rfl).2⟩
  · exact iff_of_true (encodeFired_ws hp ⟨_, rfl⟩) fun h => absurd h hp

theorem encodeFired_publish (lib : Jansson) (protocol : Protocol) (content topicName : CString)
    (qos : Nat) (retain dup : Int) (packetId : UInt16) :
    Returns (encodeFired lib protocol (publishMessage content topicName qos retain dup packetId)) ↔
      Encodable protocol (publishMessage content topicName qos retain dup packetId) := by
  by_cases hp : protocol = .mqtt
  · subst hp
    let p : Publish := ⟨⟨.ref topicName, .is qos⟩, .ref content, retain, dup, .is packetId⟩
    have hlength : getLength ⟨.is .publish, .ref (.publish p)⟩ = _ :=
      getLength_publish_ref rfl rfl rfl
    have hframe : Returns (encodeFired lib .mqtt ⟨.is .publish, .ref (.publish p)⟩) ↔ _ :=
      encodeFired_of_frame hlength ((encode_publish _ p).trans (encodePublish_block rfl rfl rfl))
    refine hframe.trans ?_
    have hsize : (publishBody topicName content packetId).length =
        stringSize topicName.bytes.length + (if packetId ≠ 0 then 2 else 0) +
          content.bytes.length := by
      rw [publishBody, List.length_append, List.length_append, length_stringField_size]
      split <;> simp only [length_shortBytes, List.length_nil] <;> omega
    have hwritten : writtenSize ⟨.is .publish, .ref (.publish p)⟩ =
        stringSize topicName.bytes.length + (if packetId ≠ 0 then 2 else 0) +
          content.bytes.length := by
      simp only [writtenSize, p, lengthOf_ref, ne_eq, Cell.is.injEq]
    rw [hsize, ← hwritten]
    exact ⟨fun h _ => ⟨trivial, h⟩, fun h => (h rfl).2⟩
  · exact iff_of_true (encodeFired_ws hp ⟨_, rfl⟩) fun h => absurd h hp

end Encodable

/-! ### Steps -/

section Steps

variable {lib : Jansson} {protocol : Protocol} {c t : Client}

theorem forM_encodeFired {ms : List Message} :
    Returns (ms.forM (encodeFired lib protocol)) ↔
      ∀ m ∈ ms, Returns (encodeFired lib protocol m) := by
  induction ms with
  | nil => exact iff_of_true (returns_ok _) (by simp)
  | cons m ms ih =>
    rw [List.forall_mem_cons]
    exact returns_bind fun _ _ => ih

/-- The messages behind a log. -/
theorem encodeSent_eq_ok {xs : List (Traffic Message)} {u : Client} (h : t.wire = c.wire ++ xs) :
    c.encodeSent lib protocol t = .ok u ↔
      (∀ m ∈ sentOf xs, Returns (encodeFired lib protocol m)) ∧ u = t := by
  unfold Client.encodeSent
  rw [h, List.drop_left, ← forM_encodeFired]
  constructor
  · intro hu
    obtain ⟨a, ha, hu⟩ := bind_eq_ok.1 hu
    cases hu
    exact ⟨⟨a, ha⟩, rfl⟩
  · rintro ⟨⟨a, ha⟩, rfl⟩
    rw [ha]
    rfl

/-- One message was sent, of which it is known when it can be encoded. -/
theorem encodeSent_one {m : Message} {u : Client} (h : t.wire = c.wire ++ [.sent m])
    (hm : Returns (encodeFired lib protocol m) ↔ Encodable protocol m) :
    c.encodeSent lib protocol t = .ok u ↔ Encodable protocol m ∧ u = t := by
  have hsent : sentOf [.sent m] = [m] := rfl
  rw [encodeSent_eq_ok h, hsent, List.forall_mem_singleton, hm]

theorem encodeFired_call (lib : Jansson) (f : Call) (packetId : UInt16) :
    Returns (encodeFired lib protocol (f.message packetId)) ↔
      Encodable protocol (f.message packetId) := by
  cases f with
  | sendConnect account => exact encodeFired_connect lib protocol account
  | sendSubscribe topicName qos => exact encodeFired_subscribe lib protocol topicName qos packetId
  | sendUnsubscribe topicName => exact encodeFired_unsubscribe lib protocol topicName packetId
  | sendPublish content topicName qos retain dup =>
    exact encodeFired_publish lib protocol content topicName qos retain dup _

/-- A call logs its message, with the next id when it takes one. -/
theorem call_wire (c : Client) (f : Call) :
    ∃ t, f.run c = .ok t ∧ t.wire = c.wire ++ [.sent (f.message c.nextId)] := by
  cases f with
  | sendConnect account => exact ⟨_, rfl, rfl⟩
  | sendSubscribe topicName qos => exact ⟨_, rfl, rfl⟩
  | sendUnsubscribe topicName => exact ⟨_, rfl, rfl⟩
  | sendPublish content topicName qos retain dup =>
    unfold Call.run Call.message Client.sendPublish
    dsimp only
    by_cases hq : (qos : Nat) ≠ 0
    · rw [if_pos hq, if_pos hq]
      exact ⟨_, rfl, rfl⟩
    · rw [if_neg hq, if_neg hq]
      exact ⟨_, rfl, rfl⟩

theorem sendingStep_call {f : Call} : sendingStep lib protocol c (.call f) = .ok t ↔
    step c (.call f) = .ok t ∧ Encodable protocol (f.message c.nextId) := by
  obtain ⟨u, hu, hw⟩ := call_wire c f
  have hstep : step c (.call f) = .ok u := hu
  unfold sendingStep
  rw [hstep, ok_bind, encodeSent_one hw (encodeFired_call lib f _), Except.ok.injEq]
  exact ⟨fun h => ⟨h.2.symm, h.1⟩, fun h => ⟨h.2, h.1.symm⟩⟩

theorem connecter_of_stop (h : c.stopConnectTimer = .ok t) : c.connecter = true := by
  obtain ⟨⟨⟩, hcancel, -⟩ := bind_eq_ok.1 h
  exact pthreadCancel_eq_ok.1 hcancel

theorem stopConnectTimer_ok (h : c.connecter = true) : c.stopConnectTimer = .ok c := by
  unfold Client.stopConnectTimer
  rw [pthreadCancel_eq_ok.2 h]
  rfl

/-- A CONNACK stops the `connect_task` of the last CONNECT. -/
theorem connecter_of_processRx {p : BrokerPacket} (hp : p.type = .connack)
    (ht : c.processRx p.message = .ok t) : c.connecter = true := by
  cases p with
  | connack sessionPresent code =>
    obtain ⟨type, htype, ht⟩ := bind_eq_ok.1 ht
    cases htype
    obtain ⟨d, hd, -⟩ := bind_eq_ok.1 ht
    have hconn := connecter_of_stop hd
    exact hconn
  | _ => cases hp

/-- The state after a CONNACK, by its code. -/
def Client.afterConnack (c : Client) (message : Message) (ca : Connack) : Client :=
  let c : Client := { c with wire := c.wire ++ [.received message], m := c.m.erase 0 }
  if ca.returnCode = 0 then
    (c.notify .connectionSuccessful).startMqttPingTimer c.delayInSeconds
  else c.notify (.connectionUnsuccessful ca.returnCode)

theorem afterConnack_eq (c : Client) (message : Message) (ca : Connack) :
    (c.afterConnack message ca).m = c.m.erase 0 ∧
      (c.afterConnack message ca).wire = c.wire ++ [.received message] ∧
      (c.afterConnack message ca).currentPacketNumber = c.currentPacketNumber ∧
      (c.afterConnack message ca).connecter = c.connecter ∧
      (c.afterConnack message ca).notices = c.notices ++
        [if ca.returnCode = 0 then .connectionSuccessful else .connectionUnsuccessful ca.returnCode] := by
  unfold Client.afterConnack
  split <;> exact ⟨rfl, rfl, rfl, rfl, rfl⟩

theorem processRx_connack {message : Message} {ca : Connack} (hc : c.connecter = true)
    (h : message = ⟨.is .connack, .ref (.connack ca)⟩) :
    c.processRx message = .ok (c.afterConnack message ca) := by
  subst h
  have hrx : c.processRx ⟨.is .connack, .ref (.connack ca)⟩ = Client.processConnack
      { c with wire := c.wire ++ [.received ⟨.is .connack, .ref (.connack ca)⟩] }
      ⟨.is .connack, .ref (.connack ca)⟩ := rfl
  rw [hrx, Client.processConnack, stopConnectTimer_ok]
  · unfold Client.afterConnack
    by_cases hcode : ca.returnCode = 0
    · rw [if_pos hcode]
      exact if_pos hcode
    · rw [if_neg hcode]
      exact if_neg hcode
  · exact hc

/-- What `process_rx` does with a packet of a broker. -/
theorem processRx_eq (p : BrokerPacket) (h : p.type = .connack → c.connecter = true) :
    ∃ t, c.processRx p.message = .ok t ∧
      t.m = (if p.type = .connack then c.m.erase 0 else c.m) ∧
      t.wire = c.wire ++ [.received p.message] ∧
      t.currentPacketNumber = c.currentPacketNumber := by
  cases p with
  | connack sessionPresent code =>
    obtain ⟨hm, hw, hcount, -⟩ := afterConnack_eq c
      (BrokerPacket.connack sessionPresent code).message ⟨sessionPresent.toNat, code⟩
    exact ⟨_, processRx_connack (h rfl) rfl, hm, hw, hcount⟩
  | _ => exact ⟨_, rfl, rfl, rfl, rfl⟩

/-- The message of a call can be encoded, and no CONNACK comes before the first CONNECT. -/
def Permitted (protocol : Protocol) (c : Client) : Event → Prop
  | .call f => Encodable protocol (f.message c.nextId)
  | .receive p => p.type = .connack → c.connecter = true

theorem sendingStep_eq_ok {e : Event} :
    sendingStep lib protocol c e = .ok t ↔ step c e = .ok t ∧ Permitted protocol c e := by
  cases e with
  | call f => exact sendingStep_call
  | receive p =>
    have hquiet {u : Client} (hw : u.wire = c.wire ++ [.received p.message]) :
        c.encodeSent lib protocol u = .ok u := by
      refine (encodeSent_eq_ok hw).2 ⟨fun m hm => ?_, rfl⟩
      have hsent : sentOf [.received p.message] = [] := rfl
      rw [hsent] at hm
      cases hm
    by_cases h : p.type = .connack → c.connecter = true
    · obtain ⟨u, hu, -, hw, -⟩ := processRx_eq p h
      have hstep : step c (.receive p) = .ok u := hu
      unfold sendingStep
      rw [hstep, ok_bind, hquiet hw]
      exact ⟨fun ht => ⟨ht, h⟩, And.left⟩
    · refine iff_of_false (fun ht => ?_) fun ht => h ht.2
      obtain ⟨u, hu, -⟩ := bind_eq_ok.1 ht
      exact h fun hp => connecter_of_processRx hp hu

end Steps

end IotClient.Mqtt
