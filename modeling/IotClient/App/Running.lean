import IotClient.App.Publishing
import IotClient.MqttSn.OverUdp

/-!
# The application (`app.c`)

`main` opens a connection until one succeeds, then calls `send_connect` once. `connection_success`
starts a thread that sends messages, `connection_unsuccessful` ends the process. A `Program` is
that with the client of its protocol, a `Backend`; packets may come as soon as the connection is
there. `app.c` sets no other pointer of the listener than these two.

Over MQTT the program faults when the gateway is faster than `send_connect` with its CONNACK, or when
a message cannot be encoded, and otherwise never (`Allowed`). It hands over one CONNECT, and nothing
else before a CONNACK has accepted, then its publications with consecutive ids and the settings of
the file; after a CONNACK that refuses it does nothing (`mqtt_session`). Over MQTT-SN a PUBLISH from the
gateway is a call through a pointer that was never set (`no_publish_survived`). The timer threads of
the clients are left out.
-/

namespace IotClient.App

open Mem Machine Net
open Ws (Jansson)

/-- A call of one of the listener's function pointers. -/
inductive Callback where
  | csPt
  | cuPt (cause : Nat)
  | getPubPt
  deriving DecidableEq

/-- The functions of a client, each with the calls that it makes of the listener's pointers. -/
structure Backend (σ ρ : Type) where
  sendConnect : σ → Run (σ × List Callback)
  sendMessage : σ → CString → CString → Run (σ × List Callback)
  /-- what the client does with a packet -/
  receive : σ → ρ → Run (σ × List Callback)

/-- How far `main` is: in its loop, behind it, or behind `send_connect`. -/
inductive Phase where
  | opening | opened | running
  deriving DecidableEq

structure Program (σ : Type) where
  client : σ
  phase : Phase
  /-- the number of `send_message_task`s -/
  tasks : Nat
  exited : Bool

inductive AppEvent (ρ : Type) where
  /-- `open_connection` returns in the loop of `main` -/
  | openConnection (isSuccesful : Bool)
  | sendConnect
  | receive (p : ρ)
  /-- a `send_message_task` has made its text -/
  | sendMessage (content : CString)

def AppEvent.content? {ρ : Type} : AppEvent ρ → Option CString
  | .sendMessage content => some content
  | _ => none

namespace Program

variable {σ ρ : Type} (B : Backend σ ρ) (topicName : Option CString) (s : Program σ)

def callback (s : Program σ) : Callback → Run (Program σ)
  | .csPt => .ok { s with tasks := s.tasks + 1 }
  | .cuPt _ => .ok { s with exited := true }
  | .getPubPt => .error .indet

/-- The client returned, and has made some calls meanwhile. -/
def returned (t : σ × List Callback) : Run (Program σ) :=
  t.2.foldlM callback { s with client := t.1 }

/-- An event of a part that is not there, or not there any more, does nothing. -/
def step : AppEvent ρ → Run (Program σ)
  | .openConnection isSuccesful =>
    .ok (if s.phase = .opening ∧ s.exited = false ∧ isSuccesful = true then
      { s with phase := .opened } else s)
  | .sendConnect =>
    if s.phase = .opened ∧ s.exited = false then do
      returned { s with phase := .running } (← B.sendConnect s.client)
    else .ok s
  | .receive p =>
    if s.phase ≠ .opening ∧ s.exited = false then do s.returned (← B.receive s.client p)
    else .ok s
  | .sendMessage content =>
    if s.tasks ≠ 0 ∧ s.exited = false then do
      s.returned (← B.sendMessage s.client content (← (Ptr.ofOption topicName).deref))
    else .ok s

def init (client : σ) : Program σ := ⟨client, .opening, 0, false⟩

end Program

/-! ### MQTT -/

def mqttCallback : Mqtt.Notice → Callback
  | .connectionSuccessful => .csPt
  | .connectionUnsuccessful cause => .cuPt cause

/-- A client, and its calls since it was `c`. -/
def mqttReturned (c t : Mqtt.Client) : Mqtt.Client × List Callback :=
  (t, (t.notices.drop c.notices.length).map mqttCallback)

/-- The client of MQTT and of MQTT over WebSockets. -/
def mqttBackend (lib : Jansson) (config : Config) (account : Account) :
    Backend Mqtt.Client Mqtt.BrokerPacket where
  sendConnect c := do
    let t ← c.sendConnect account
    pure (mqttReturned c (← c.encodeSent lib account.protocol t))
  sendMessage c content topicName := do
    let t ← c.sendPublish content topicName config.publishQos config.messageRetain config.messageDup
    pure (mqttReturned c (← c.encodeSent lib account.protocol t))
  receive c p := do pure (mqttReturned c (← c.processRx p.message))

/-- The message of the publication with the index `i`. -/
def publication (config : Config) (topicName : CString) (i : Nat) (content : CString) :
    Mqtt.Message :=
  Mqtt.publishMessage content topicName config.publishQos config.messageRetain config.messageDup
    (if config.publishQos ≠ 0 then UInt16.ofInt (i + 1) else 0)

/-- A CONNACK that accepts has arrived. -/
def AcceptedIn (wire : List (Traffic Mqtt.Message)) : Prop :=
  ∃ sessionPresent code, Fin.val code = 0 ∧
    .received (Mqtt.BrokerPacket.connack sessionPresent code).message ∈ wire

theorem AcceptedIn.snoc {wire : List (Traffic Mqtt.Message)} {x : Traffic Mqtt.Message}
    (h : AcceptedIn wire) : AcceptedIn (wire ++ [x]) := by
  obtain ⟨sessionPresent, code, hcode, h⟩ := h
  exact ⟨sessionPresent, code, hcode, List.mem_append_left _ h⟩

/-- What holds in a run that has published `contents`. -/
structure Session (config : Config) (account : Account) (topicName : CString)
    (s : Program Mqtt.Client) (contents : List CString) : Prop where
  sent : sentOf s.client.wire = (if s.phase = .running then [Mqtt.connectMessage account] else []) ++
    contents.mapIdx (publication config topicName)
  count : s.client.currentPacketNumber = if config.publishQos ≠ 0 then contents.length else 0
  connecter : s.client.connecter = true ↔ s.phase = .running
  accepted : s.tasks ≠ 0 → s.phase = .running ∧ AcceptedIn s.client.wire
  waiting : s.phase ≠ .running → contents = []
  ordered : Behind (fun pre message => message = Mqtt.connectMessage account ∨ AcceptedIn pre)
    s.client.wire
  refused : s.exited = true → ∃ pre sessionPresent code, Fin.val code ≠ 0 ∧
    s.client.wire = pre ++ [.received (Mqtt.BrokerPacket.connack sessionPresent code).message]

/-- The next publication of a client. -/
def nextPublication (config : Config) (topicName : CString) (c : Mqtt.Client) (content : CString) :
    Mqtt.Message :=
  Mqtt.publishMessage content topicName config.publishQos config.messageRetain config.messageDup
    (if config.publishQos ≠ 0 then c.nextId else 0)

/-- The event does not make the program fault. -/
def Allowed (config : Config) (account : Account) (topicName : CString) (s : Program Mqtt.Client) :
    AppEvent Mqtt.BrokerPacket → Prop
  | .openConnection _ => True
  | .sendConnect => s.phase = .opened ∧ s.exited = false →
    Mqtt.Encodable account.protocol (Mqtt.connectMessage account)
  | .receive p => s.phase ≠ .opening ∧ s.exited = false → p.type = .connack → s.phase = .running
  | .sendMessage content => s.tasks ≠ 0 ∧ s.exited = false →
    Mqtt.Encodable account.protocol (nextPublication config topicName s.client content)

section Session

variable {lib : Jansson} {config : Config} {account : Account} {topicName : CString}
  {s t : Program Mqtt.Client} {contents : List CString} {c d : Mqtt.Client} {message : Mqtt.Message}

/-! ### The client -/

theorem mqttReturned_quiet (h : d.notices = c.notices) : mqttReturned c d = (d, []) := by
  rw [mqttReturned, h, List.drop_length, List.map_nil]

theorem mqttReturned_notify {notice : Mqtt.Notice} (h : d.notices = c.notices ++ [notice]) :
    mqttReturned c d = (d, [mqttCallback notice]) := by
  rw [mqttReturned, h, List.drop_left, List.map_singleton]

/-- `send_connect` or `send_publish`, which have sent `message`. -/
theorem encoded_iff {r : Mqtt.Client × List Callback} (hw : d.wire = c.wire ++ [.sent message])
    (hn : d.notices = c.notices)
    (hm : Returns (Mqtt.encodeFired lib account.protocol message) ↔
      Mqtt.Encodable account.protocol message) :
    (do pure (mqttReturned c (← c.encodeSent lib account.protocol d)) : Run _) = .ok r ↔
      Mqtt.Encodable account.protocol message ∧ r = (d, []) := by
  constructor
  · intro h
    obtain ⟨u, hu, hr⟩ := bind_eq_ok.1 h
    obtain ⟨hencodable, rfl⟩ := (Mqtt.encodeSent_one hw hm).1 hu
    exact ⟨hencodable, (Except.ok.inj hr).symm.trans (mqttReturned_quiet hn)⟩
  · rintro ⟨hencodable, rfl⟩
    rw [(Mqtt.encodeSent_one hw hm).2 ⟨hencodable, rfl⟩, ok_bind, mqttReturned_quiet hn]
    rfl

theorem connect_ok (lib : Jansson) (config : Config) (account : Account) (c : Mqtt.Client) :
    ∃ d, (∀ r, (mqttBackend lib config account).sendConnect c = .ok r ↔
        Mqtt.Encodable account.protocol (Mqtt.connectMessage account) ∧ r = (d, [])) ∧
      d.wire = c.wire ++ [.sent (Mqtt.connectMessage account)] ∧
      d.currentPacketNumber = c.currentPacketNumber ∧ d.connecter = true :=
  ⟨_, fun _ => encoded_iff rfl rfl (Mqtt.encodeFired_connect _ _ _), rfl, rfl, rfl⟩

theorem publish_ok (lib : Jansson) (config : Config) (account : Account) (topicName : CString)
    (c : Mqtt.Client) (content : CString) :
    ∃ d, (∀ r, (mqttBackend lib config account).sendMessage c content topicName = .ok r ↔
        Mqtt.Encodable account.protocol (nextPublication config topicName c content) ∧
          r = (d, [])) ∧
      d.wire = c.wire ++ [.sent (nextPublication config topicName c content)] ∧
      d.currentPacketNumber =
        (if config.publishQos ≠ 0 then c.currentPacketNumber + 1 else c.currentPacketNumber) ∧
      d.connecter = c.connecter := by
  have hencode (packetId : UInt16) := Mqtt.encodeFired_publish lib account.protocol content
    topicName config.publishQos config.messageRetain config.messageDup packetId
  dsimp only [mqttBackend, Mqtt.Client.sendPublish, nextPublication]
  by_cases hq : config.publishQos ≠ 0
  · rw [if_pos hq, if_pos hq, if_pos hq]
    exact ⟨_, fun _ => encoded_iff rfl rfl (hencode _), rfl, rfl, rfl⟩
  · rw [if_neg hq, if_neg hq, if_neg hq]
    exact ⟨_, fun _ => encoded_iff rfl rfl (hencode _), rfl, rfl, rfl⟩

theorem receive_notify {p : Mqtt.BrokerPacket} {notice : Mqtt.Notice}
    (hrx : c.processRx p.message = .ok d) (h : d.notices = c.notices ++ [notice]) :
    (mqttBackend lib config account).receive c p = .ok (d, [mqttCallback notice]) := by
  dsimp only [mqttBackend]
  rw [hrx]
  exact congrArg Except.ok (mqttReturned_notify h)

/-- A packet is logged; a CONNACK is passed on to the application. -/
theorem receive_ok (lib : Jansson) (config : Config) (account : Account) (c : Mqtt.Client)
    (p : Mqtt.BrokerPacket) (h : p.type = .connack → c.connecter = true) :
    ∃ d calls, (mqttBackend lib config account).receive c p = .ok (d, calls) ∧
      d.wire = c.wire ++ [.received p.message] ∧
      d.currentPacketNumber = c.currentPacketNumber ∧ d.connecter = c.connecter ∧
      (calls = [] ∨
        (∃ sessionPresent code, p = .connack sessionPresent code ∧ code.val = 0 ∧
          calls = [.csPt]) ∨
        ∃ sessionPresent code, p = .connack sessionPresent code ∧ code.val ≠ 0 ∧
          calls = [.cuPt code]) := by
  cases p with
  | connack sessionPresent code =>
    have hrx := Mqtt.processRx_connack (h rfl) (rfl : (Mqtt.BrokerPacket.connack sessionPresent
      code).message = ⟨.is .connack, .ref (.connack ⟨sessionPresent.toNat, code⟩)⟩)
    obtain ⟨-, hw, hcount, hconn, hnotices⟩ := Mqtt.afterConnack_eq c
      (Mqtt.BrokerPacket.connack sessionPresent code).message ⟨sessionPresent.toNat, code⟩
    dsimp only at hnotices
    by_cases hcode : code.val = 0
    · rw [if_pos hcode] at hnotices
      exact ⟨_, [.csPt], receive_notify hrx hnotices, hw, hcount, hconn,
        .inr (.inl ⟨sessionPresent, code, rfl, hcode, rfl⟩)⟩
    · rw [if_neg hcode] at hnotices
      exact ⟨_, [.cuPt code], receive_notify hrx hnotices, hw, hcount, hconn,
        .inr (.inr ⟨sessionPresent, code, rfl, hcode, rfl⟩)⟩
  | _ => exact ⟨_, [], congrArg Except.ok (mqttReturned_quiet rfl), rfl, rfl, rfl, .inl rfl⟩

/-! ### Steps -/

theorem Session.opened (h : Session config account topicName s contents)
    (hs : s.phase = .opening) :
    Session config account topicName { s with phase := .opened } contents where
  sent := by
    have hsent := h.sent
    rw [if_neg (by rw [hs]; simp)] at hsent
    rw [if_neg (by simp)]
    exact hsent
  count := h.count
  connecter := by
    have hconn := h.connecter
    rw [hs] at hconn
    exact hconn.trans (iff_of_false nofun nofun)
  accepted htasks := by
    have hrunning := (h.accepted htasks).1
    rw [hs] at hrunning
    cases hrunning
  waiting _ := h.waiting (by rw [hs]; simp)
  ordered := h.ordered
  refused := h.refused

/-- `main` calls `send_connect`. -/
theorem Session.connect (h : Session config account topicName s contents)
    (hs : s.phase = .opened) (hexited : s.exited = false) (hw : d.wire = s.client.wire ++
      [.sent (Mqtt.connectMessage account)])
    (hcount : d.currentPacketNumber = s.client.currentPacketNumber) (hconn : d.connecter = true) :
    Session config account topicName { s with phase := .running, client := d } contents where
  sent := by
    have hsent := h.sent
    rw [if_neg (by rw [hs]; simp), h.waiting (by rw [hs]; simp)] at hsent
    rw [hw, sentOf_append, hsent, if_pos rfl, h.waiting (by rw [hs]; simp)]
    rfl
  count := hcount.trans h.count
  connecter := iff_of_true hconn rfl
  accepted htasks := by
    have hrunning := (h.accepted htasks).1
    rw [hs] at hrunning
    cases hrunning
  waiting hne := absurd rfl hne
  ordered := by
    rw [hw]
    exact h.ordered.sent (.inl rfl)
  refused hex := by
    rw [hexited] at hex
    cases hex

theorem Session.nextPublication_eq (h : Session config account topicName s contents)
    (content : CString) : nextPublication config topicName s.client content =
      publication config topicName contents.length content := by
  unfold publication nextPublication
  by_cases hq : config.publishQos ≠ 0
  · rw [if_pos hq, if_pos hq, Mqtt.Client.nextId, h.count, if_pos hq]
  · rw [if_neg hq, if_neg hq]

/-- A `send_message_task` hands over a publication. -/
theorem Session.publish (h : Session config account topicName s contents) (htasks : s.tasks ≠ 0)
    (hexited : s.exited = false) {content : CString}
    (hw : d.wire = s.client.wire ++ [.sent (nextPublication config topicName s.client content)])
    (hcount : d.currentPacketNumber = if config.publishQos ≠ 0
      then s.client.currentPacketNumber + 1 else s.client.currentPacketNumber)
    (hconn : d.connecter = s.client.connecter) :
    Session config account topicName { s with client := d } (contents ++ [content]) where
  sent := by
    rw [hw, sentOf_append, sentOf_sent, h.sent, h.nextPublication_eq, List.mapIdx_append,
      List.append_assoc]
    simp
  count := by
    rw [hcount, h.count, List.length_append, List.length_singleton]
    split <;> simp
  connecter := by
    rw [hconn]
    exact h.connecter
  accepted _ := by
    rw [hw]
    exact (h.accepted htasks).imp_right AcceptedIn.snoc
  waiting hne := absurd (h.accepted htasks).1 hne
  ordered := by
    rw [hw]
    exact h.ordered.sent (.inr (h.accepted htasks).2)
  refused hex := by
    rw [hexited] at hex
    cases hex

/-- The client has read a packet, and may have started a `send_message_task` or ended the
process. -/
theorem Session.receive (h : Session config account topicName s contents)
    {p : Mqtt.BrokerPacket} {tasks : Nat} {exited : Bool}
    (hw : d.wire = s.client.wire ++ [.received p.message])
    (hcount : d.currentPacketNumber = s.client.currentPacketNumber)
    (hconn : d.connecter = s.client.connecter)
    (htasks : tasks ≠ 0 → s.tasks ≠ 0 ∨ s.phase = .running ∧ ∃ sessionPresent code,
      p = .connack sessionPresent code ∧ code.val = 0)
    (hexited : exited = true → ∃ sessionPresent code, p = .connack sessionPresent code ∧
      code.val ≠ 0) :
    Session config account topicName
      { s with client := d, tasks := tasks, exited := exited } contents where
  sent := by
    rw [hw, sentOf_append, sentOf_received, List.append_nil]
    exact h.sent
  count := hcount.trans h.count
  connecter := by
    rw [hconn]
    exact h.connecter
  accepted hne := by
    rw [hw]
    rcases htasks hne with hold | ⟨hrunning, sessionPresent, code, rfl, hcode⟩
    · exact (h.accepted hold).imp_right AcceptedIn.snoc
    · exact ⟨hrunning, sessionPresent, code, hcode,
        List.mem_append_right _ (List.mem_singleton.2 rfl)⟩
  waiting := h.waiting
  ordered := by
    rw [hw]
    exact h.ordered.received
  refused hex := by
    obtain ⟨sessionPresent, code, rfl, hne⟩ := hexited hex
    exact ⟨s.client.wire, sessionPresent, code, hne, hw⟩

/-- An event that is allowed does not make the program fault, and a message is published at most
once. -/
theorem Session.step (lib : Jansson) (h : Session config account topicName s contents)
    {e : AppEvent Mqtt.BrokerPacket} (he : Allowed config account topicName s e) :
    ∃ t news, Program.step (mqttBackend lib config account) (some topicName) s e = .ok t ∧
      news.Sublist e.content?.toList ∧
      Session config account topicName t (contents ++ news) := by
  have hstay : Session config account topicName s (contents ++ []) := by
    rw [List.append_nil]
    exact h
  cases e with
  | openConnection isSuccesful =>
    by_cases hs : s.phase = .opening ∧ s.exited = false ∧ isSuccesful = true
    · refine ⟨_, [], congrArg Except.ok (if_pos hs), List.nil_sublist _, ?_⟩
      rw [List.append_nil]
      exact h.opened hs.1
    · exact ⟨s, [], congrArg Except.ok (if_neg hs), List.nil_sublist _, hstay⟩
  | sendConnect =>
    by_cases hs : s.phase = .opened ∧ s.exited = false
    · obtain ⟨d, hd, hw, hcount, hconn⟩ := connect_ok lib config account s.client
      refine ⟨{ s with phase := .running, client := d }, [], ?_, List.nil_sublist _, ?_⟩
      · rw [Program.step, if_pos hs, (hd _).2 ⟨he hs, rfl⟩]
        rfl
      · rw [List.append_nil]
        exact h.connect hs.1 hs.2 hw hcount hconn
    · exact ⟨s, [], if_neg hs, List.nil_sublist _, hstay⟩
  | receive p =>
    by_cases hs : s.phase ≠ .opening ∧ s.exited = false
    · obtain ⟨d, calls, hd, hw, hcount, hconn, hcalls⟩ :=
        receive_ok lib config account s.client p fun hp => h.connecter.2 (he hs hp)
      have hgo : Program.step (mqttBackend lib config account) (some topicName) s (.receive p) =
          s.returned (d, calls) := by
        rw [Program.step, if_pos hs, hd]
        rfl
      have hrun : s.exited = true → ∃ sessionPresent code, p = .connack sessionPresent code ∧
          code.val ≠ 0 := by
        rw [hs.2]
        intro hex
        cases hex
      rcases hcalls with rfl | ⟨sessionPresent, code, hp, hcode, rfl⟩ |
        ⟨sessionPresent, code, hp, hne, rfl⟩
      · refine ⟨{ s with client := d }, [], hgo, List.nil_sublist _, ?_⟩
        rw [List.append_nil]
        exact h.receive hw hcount hconn .inl hrun
      · refine ⟨{ s with client := d, tasks := s.tasks + 1 }, [], hgo, List.nil_sublist _, ?_⟩
        have hrunning := he hs (by rw [hp]; rfl)
        rw [List.append_nil]
        exact h.receive hw hcount hconn
          (fun _ => .inr ⟨hrunning, sessionPresent, code, hp, hcode⟩) hrun
      · refine ⟨{ s with client := d, exited := true }, [], hgo, List.nil_sublist _, ?_⟩
        rw [List.append_nil]
        exact h.receive hw hcount hconn .inl fun _ => ⟨sessionPresent, code, hp, hne⟩
    · exact ⟨s, [], if_neg hs, List.nil_sublist _, hstay⟩
  | sendMessage content =>
    by_cases hs : s.tasks ≠ 0 ∧ s.exited = false
    · obtain ⟨d, hd, hw, hcount, hconn⟩ := publish_ok lib config account topicName s.client content
      refine ⟨{ s with client := d }, [content], ?_, List.Sublist.refl _,
        h.publish hs.1 hs.2 hw hcount hconn⟩
      rw [Program.step, if_pos hs]
      change (mqttBackend lib config account).sendMessage s.client content topicName >>= _ = _
      rw [(hd _).2 ⟨he hs, rfl⟩]
      rfl
    · exact ⟨s, [], if_neg hs, List.nil_sublist _, hstay⟩

/-- What is not allowed makes the program fault. -/
theorem Session.allowed (h : Session config account topicName s contents)
    {e : AppEvent Mqtt.BrokerPacket}
    (ht : Program.step (mqttBackend lib config account) (some topicName) s e = .ok t) :
    Allowed config account topicName s e := by
  cases e with
  | openConnection isSuccesful => trivial
  | sendConnect =>
    intro hs
    rw [Program.step, if_pos hs] at ht
    obtain ⟨r, hr, -⟩ := bind_eq_ok.1 ht
    obtain ⟨d, hd, -⟩ := connect_ok lib config account s.client
    exact ((hd r).1 hr).1
  | receive p =>
    intro hs hp
    rw [Program.step, if_pos hs] at ht
    obtain ⟨r, hr, -⟩ := bind_eq_ok.1 ht
    obtain ⟨d, hd, -⟩ := bind_eq_ok.1 hr
    exact h.connecter.1 (Mqtt.connecter_of_processRx hp hd)
  | sendMessage content =>
    intro hs
    rw [Program.step, if_pos hs] at ht
    change (mqttBackend lib config account).sendMessage s.client content topicName >>= _ = _ at ht
    obtain ⟨r, hr, -⟩ := bind_eq_ok.1 ht
    obtain ⟨d, hd, -⟩ := publish_ok lib config account topicName s.client content
    exact ((hd r).1 hr).1

theorem Session.next (h : Session config account topicName s contents)
    {e : AppEvent Mqtt.BrokerPacket}
    (ht : Program.step (mqttBackend lib config account) (some topicName) s e = .ok t) :
    ∃ news : List CString, news.Sublist e.content?.toList ∧
      Session config account topicName t (contents ++ news) := by
  obtain ⟨u, news, hu, hnews, hsession⟩ := h.step lib (h.allowed ht)
  obtain rfl : t = u := Except.ok.inj (ht.symm.trans hu)
  exact ⟨news, hnews, hsession⟩

theorem Session.run {es : List (AppEvent Mqtt.BrokerPacket)}
    (h : Session config account topicName s contents)
    (ht : Machine.run (Program.step (mqttBackend lib config account) (some topicName)) s es =
      .ok t) :
    ∃ news : List CString, news.Sublist (es.filterMap AppEvent.content?) ∧
      Session config account topicName t (contents ++ news) := by
  induction es generalizing s contents with
  | nil =>
    cases ht
    exact ⟨[], List.nil_sublist _, by rwa [List.append_nil]⟩
  | cons e es ih =>
    obtain ⟨u, hu, ht⟩ := run_cons_eq_ok.1 ht
    obtain ⟨news, hnews, hsession⟩ := h.next hu
    obtain ⟨rest, hrest, hsession⟩ := ih hsession ht
    refine ⟨news ++ rest, ?_, by rwa [← List.append_assoc]⟩
    rw [filterMap_cons_toList]
    exact hnews.append hrest

end Session

/-! ### MQTT-SN -/

def snCallback : MqttSn.Notice → Callback
  | .connectionSuccessful => .csPt
  | .publish .. => .getPubPt

/-- A client, and its calls since it was `c`. -/
def snReturned (c t : MqttSn.Client) : MqttSn.Client × List Callback :=
  (t, (t.notices.drop c.notices.length).map snCallback)

/-- The client of MQTT-SN. What it receives are datagrams. -/
def snBackend (config : Config) (account : Account) : Backend MqttSn.Client (List UInt8) where
  sendConnect c := do pure (snReturned c (← c.sendSnConnect account))
  sendMessage c content topicName := do
    pure (snReturned c (← c.sendSnMessage
      ⟨content, topicName, config.publishQos, config.messageRetain, config.messageDup⟩))
  receive c data := do pure (snReturned c (← MqttSn.receive c data))

section Unset

variable {σ ρ : Type} {s t : Program σ} {r : σ × List Callback}

/-- A client that returned has not called `get_pub_pt`. -/
theorem returned_ok (h : s.returned r = .ok t) : t.client = r.1 ∧ .getPubPt ∉ r.2 := by
  obtain ⟨c, calls⟩ := r
  unfold Program.returned at h
  dsimp only at h ⊢
  generalize hu : ({ s with client := c } : Program σ) = u at h
  have hc : u.client = c := by rw [← hu]
  clear hu
  induction calls generalizing u with
  | nil =>
    cases h
    exact ⟨hc, List.not_mem_nil⟩
  | cons call calls ih =>
    obtain ⟨v, hv, h⟩ := bind_eq_ok.1 h
    cases call with
    | getPubPt => cases hv
    | csPt | cuPt =>
      cases hv
      obtain ⟨ht, hmem⟩ := ih _ h hc
      refine ⟨ht, fun h => ?_⟩
      rcases List.mem_cons.1 h with h | h
      · cases h
      · exact hmem h

variable {config : Config} {account : Account} {topicName : Option CString}

/-- No PUBLISH was read. -/
def NoneRead (s : Program MqttSn.Client) : Prop :=
  ∀ m ∈ receivedOf s.client.wire, m.messageType ≠ .publish

theorem NoneRead.keep {s t : Program MqttSn.Client} (h : NoneRead s)
    (hf : Fires MqttSn.Client.wire s.client t.client) : NoneRead t := by
  obtain ⟨xs, hwire, hxs⟩ := hf
  intro m hm
  rw [hwire, receivedOf_append, hxs, List.append_nil] at hm
  exact h m hm

/-- A PUBLISH is passed on to the application. -/
theorem publish_calls {c d : MqttSn.Client} {message : MqttSn.SnMessage}
    (hm : message.messageType = .publish) (h : c.processSnRx message = .ok d) :
    .getPubPt ∈ (snReturned c d).2 := by
  unfold MqttSn.Client.processSnRx at h
  rw [hm] at h
  obtain ⟨snP, -, h⟩ := bind_eq_ok.1 h
  obtain ⟨qos, -, h⟩ := bind_eq_ok.1 h
  have hn : d.notices = c.notices ++ [.publish snP.data
      (c.reverseTopicNameMap (snP.topic.id.under c.memory)) qos snP.retain snP.dup] := by
    split at h
    · cases h
      rfl
    · split at h <;> cases h <;> rfl
  unfold snReturned
  rw [hn, List.drop_left]
  exact List.mem_singleton.2 rfl

theorem sn_step {s t : Program MqttSn.Client} {e : AppEvent (List UInt8)} (hs : NoneRead s)
    (h : Program.step (snBackend config account) topicName s e = .ok t) : NoneRead t := by
  unfold Program.step at h
  cases e with
  | openConnection isSuccesful =>
    cases h
    split <;> exact hs
  | sendConnect =>
    dsimp only at h
    split at h
    · obtain ⟨r, hr, h⟩ := bind_eq_ok.1 h
      obtain ⟨c, hc, hr⟩ := bind_eq_ok.1 hr
      cases hr
      refine hs.keep ?_
      rw [(returned_ok h).1]
      have hcall : (MqttSn.UdpCall.connect account).run s.client = .ok c := hc
      exact (MqttSn.call_talks hcall).fires
    · cases h
      exact hs
  | receive data =>
    dsimp only at h
    split at h
    · obtain ⟨r, hr, h⟩ := bind_eq_ok.1 h
      obtain ⟨c, hc, hr⟩ := bind_eq_ok.1 hr
      cases hr
      obtain ⟨hclient, hcalls⟩ := returned_ok h
      obtain ⟨message, -, hrx⟩ := bind_eq_ok.1 hc
      obtain ⟨xs, hwire, hxs⟩ := (MqttSn.rx_talks hrx).fires
      have hread : receivedOf t.client.wire = receivedOf s.client.wire ++ [message] := by
        rw [hclient]
        change receivedOf c.wire = _
        rw [hwire, receivedOf_append, hxs, List.append_nil]
        exact receivedOf_append ..
      intro m hm
      rw [hread, mem_snoc] at hm
      rcases hm with hm | rfl
      · exact hs m hm
      · exact fun hpublish => hcalls (publish_calls hpublish hrx)
    · cases h
      exact hs
  | sendMessage content =>
    dsimp only at h
    split at h
    · obtain ⟨name, -, h⟩ := bind_eq_ok.1 h
      obtain ⟨r, hr, h⟩ := bind_eq_ok.1 h
      obtain ⟨c, hc, hr⟩ := bind_eq_ok.1 hr
      cases hr
      refine hs.keep ?_
      rw [(returned_ok h).1]
      have hcall : (MqttSn.UdpCall.message ⟨content, name, config.publishQos,
        config.messageRetain, config.messageDup⟩).run s.client = .ok c := hc
      exact (MqttSn.call_talks hcall).fires
    · cases h
      exact hs

/-- Over MQTT-SN no run goes on behind a PUBLISH that the client reads, whatever `memory` its first
PUBLISH is decoded into. -/
theorem no_publish_survived {memory : UInt16} {es : List (AppEvent (List UInt8))}
    {s : Program MqttSn.Client}
    (h : Machine.run (Program.step (snBackend config account) topicName)
      (.init ((MqttSn.Client.init account).withMemory memory)) es = .ok s) :
    ∀ m ∈ receivedOf s.client.wire, m.messageType ≠ .publish := by
  refine run_keeps (P := NoneRead) (G := fun _ _ => True) (fun _ _ _ _ hs _ => sn_step hs) ?_
    (each_of_forall fun _ _ _ => trivial) h
  rintro m ⟨⟩

end Unset

/-- A session with one publication. -/
def snEvents : List (AppEvent (List UInt8)) :=
  [.openConnection false, .openConnection true, .sendConnect, .receive [0x03, 0x05, 0x00],
    .sendMessage (.ofBytes [0x7b, 0x7d])]

theorem no_publish_survived_snEvents : ∃ s,
    Machine.run (Program.step (snBackend (.initial (Config.heapOf 0)) .named)
      (some (.ofBytes [0x74]))) (.init ((MqttSn.Client.init .named).withMemory 0)) snEvents =
        .ok s ∧
    ∀ m ∈ receivedOf s.client.wire, m.messageType ≠ .publish :=
  ⟨_, rfl, @no_publish_survived (.initial (Config.heapOf 0)) .named
    (some (.ofBytes [0x74])) 0 snEvents _ rfl⟩

end IotClient.App
