import IotClient.Amqp.Client
import IotClient.App.Running
import IotClient.Net.Writing

/-!
# The AMQP handshake (`app.c`, `amqp/amqp_client.c`)

The application over AMQP is a `Program` with the client of `amqp_client.c` and the thread of its
pings. Frames of the peer may come in any order and number. The client sends the protocol header of
SASL once, and pings behind an OPEN; every other frame answers one that was received before
(`amqp_handshake`): the SASL INIT a MECHANISMS, the second protocol header an OUTCOME that is OK, the
OPEN a protocol header of AMQP, the BEGIN an OPEN, and no ATTACH and no TRANSFER is sent before a
BEGIN has arrived, also not one that waited for its link. The thread that waits for the connection is
left out; it sends nothing.
-/

namespace IotClient.App

open Mem Machine Net Amqp

/-- A client, and its calls since it was `c`. -/
def amqpReturned (c t : Amqp.Client) : Amqp.Client × List Callback :=
  (t, .replicate (t.connected - c.connected) .csPt)

/-- The client of AMQP. -/
def amqpBackend (config : Config) : Backend Amqp.Client AmqpHeader where
  -- `start_amqp_connect`
  sendConnect c := pure (amqpReturned c (c.sendAmqpProtoHeader 3))
  sendMessage c content topicName := pure (amqpReturned c
    (c.sendAmqpTransfer content topicName config.messageQos config.messageRetain config.messageDup))
  receive c header := do pure (amqpReturned c (← c.processAmqpRx header))

def HasCode (header : AmqpHeader) (code : HeaderCode) : Prop :=
  ∃ b, header.code = .is b ∧ HeaderCode.ofByte b = some code

/-- The frame that was received lets the client send the other. -/
inductive Answers : AmqpHeader → AmqpHeader → Prop where
  | saslInit {r m : AmqpHeader} (hr : HasCode r .mechanisms) (hm : HasCode m .init) : Answers r m
  | proto {r : AmqpHeader} {outcome : SaslOutcome} (hr : HasCode r .outcome)
    (hpacket : r.packet = .ref (.outcome outcome)) (hok : outcome.outcomeCode = .is 0) :
    Answers r (protoHeader 0)
  | open {r m : AmqpHeader} {proto : AmqpProtoHeader} (hr : HasCode r .proto)
    (hpacket : r.packet = .ref (.proto proto)) (hid : proto.protocolId = .is 0)
    (hm : HasCode m .open) : Answers r m
  | begin {r m : AmqpHeader} (hr : HasCode r .open) (hm : HasCode m .begin) : Answers r m
  | transfer {r m : AmqpHeader} (hr : HasCode r .begin)
    (hm : HasCode m .attach ∨ HasCode m .transfer) : Answers r m
  | disposition {r m : AmqpHeader} (hr : HasCode r .transfer) (hm : HasCode m .disposition) :
    Answers r m
  | close {r m : AmqpHeader} (hr : HasCode r .amqpEnd) (hm : HasCode m .close) : Answers r m

/-- A frame of this kind has arrived. -/
def Arrived (wire : List (Traffic AmqpHeader)) (code : HeaderCode) : Prop :=
  ∃ r, .received r ∈ wire ∧ HasCode r code

/-- A ping behind an OPEN, or an answer to a frame in the log. -/
def Replies (wire : List (Traffic AmqpHeader)) (m : AmqpHeader) : Prop :=
  HasCode m .ping ∧ Arrived wire .open ∨ ∃ r, .received r ∈ wire ∧ Answers r m

/-- A frame that may be sent behind the log: the protocol header of SASL only once. -/
def Due (wire : List (Traffic AmqpHeader)) (m : AmqpHeader) : Prop :=
  m = protoHeader 3 ∧ .sent m ∉ wire ∨ Replies wire m

/-- What a client keeps whatever it is told. -/
structure Handshake (D : List (Traffic AmqpHeader) → AmqpHeader → Prop) (c : Amqp.Client) :
    Prop where
  due : ∀ {wire m}, Replies wire m → D wire m
  behind : Behind D c.wire
  /-- the transfers that wait -/
  queued : ∀ k m, c.mHandler k = some m → HasCode m .transfer ∧ Arrived c.wire .begin

section Handshake

variable {D : List (Traffic AmqpHeader) → AmqpHeader → Prop} {c d t : Amqp.Client}
  {m r : AmqpHeader} {code : HeaderCode}

theorem hasCode_toByte (h : m.code = .is code.toByte) : HasCode m code :=
  ⟨_, h, HeaderCode.ofByte_toByte code⟩

theorem hasCode_frameHeader {channel : Cell Int} {packet : Ptr Packet} :
    HasCode (frameHeader channel code packet) code :=
  hasCode_toByte rfl

theorem Arrived.mono {wire wire' : List (Traffic AmqpHeader)} (h : Arrived wire code)
    (hw : wire <+: wire') : Arrived wire' code := by
  obtain ⟨r, hr, hcode⟩ := h
  exact ⟨r, hw.subset hr, hcode⟩

/-! ### The client -/

/-- A function of the client that tells the application nothing. -/
structure Answered (D : List (Traffic AmqpHeader) → AmqpHeader → Prop) (c t : Amqp.Client) :
    Prop where
  handshake : Handshake D t
  wire : c.wire <+: t.wire
  connected : t.connected = c.connected

theorem Answered.trans (h : Answered D c d) (h' : Answered D d t) : Answered D c t :=
  ⟨h'.handshake, h.wire.trans h'.wire, h'.connected.trans h.connected⟩

theorem Handshake.keep (h : Handshake D c) (hw : t.wire = c.wire)
    (hm : ∀ k m, t.mHandler k = some m → c.mHandler k = some m)
    (hc : t.connected = c.connected) : Answered D c t where
  handshake :=
    ⟨h.due, by rw [hw]; exact h.behind, fun k m hk => by rw [hw]; exact h.queued k m (hm k m hk)⟩
  wire := by rw [hw]
  connected := hc

theorem Handshake.encodeAndFire (h : Handshake D c) (hm : D c.wire m) :
    Answered D c (c.amqpEncodeAndFire m) where
  handshake := by
    refine ⟨h.due, h.behind.sent hm, fun k m hk => ?_⟩
    obtain ⟨hcode, hbegun⟩ := h.queued k m hk
    exact ⟨hcode, hbegun.mono (List.prefix_append _ _)⟩
  wire := List.prefix_append _ _
  connected := rfl

theorem Handshake.fire {packet : Ptr Packet} (h : Handshake D c) (hr : .received r ∈ c.wire)
    (ha : ∀ m, HasCode m code → Answers r m) : Answered D c (c.fire code packet) :=
  h.encodeAndFire (h.due (.inr ⟨r, hr, ha _ hasCode_frameHeader⟩))

/-- A transfer is kept back within a session. -/
theorem Handshake.addMessage {handler : Int} (h : Handshake D c) (hm : HasCode m .transfer)
    (hbegun : Arrived c.wire .begin) : Answered D c (c.amqpAddMessageInMapByHandler handler m) where
  handshake := by
    refine ⟨h.due, h.behind.queued, fun k m' hk => ?_⟩
    have hbegun' : Arrived (c.wire ++ [.queued m]) .begin := hbegun.mono (List.prefix_append _ _)
    change (c.mHandler.set (mapKey handler) m) k = some m' at hk
    rw [Table.set_apply] at hk
    split at hk
    · cases hk
      exact ⟨hm, hbegun'⟩
    · exact ⟨(h.queued k m' hk).1, hbegun'⟩
  wire := List.prefix_append _ _
  connected := rfl

theorem Handshake.received (h : Handshake D c) :
    Answered D c { c with wire := c.wire ++ [.received r] } where
  handshake := by
    refine ⟨h.due, h.behind.received, fun k m hk => ?_⟩
    obtain ⟨hcode, hbegun⟩ := h.queued k m hk
    exact ⟨hcode, hbegun.mono (List.prefix_append _ _)⟩
  wire := List.prefix_append _ _
  connected := rfl

theorem queueTransfer_answered (h : Handshake D c) (hbegun : Arrived c.wire .begin)
    (content topicName : CString) (qos deliveryId : Int) :
    Answered D c (c.queueTransfer content topicName qos deliveryId) := by
  let linked := ({ c with nextHandle := c.nextHandle + 1 }.amqpAddHandlerInMapOutgoing topicName
    c.nextHandle).amqpAddTopicNameInMap c.nextHandle topicName
  let kept := linked.amqpAddMessageInMapByHandler c.nextHandle
    (transferHeader linked.channel content qos deliveryId c.nextHandle)
  have hlinked : Answered D c linked := h.keep rfl (fun _ _ hk => hk) rfl
  have hkept : Answered D linked kept :=
    hlinked.handshake.addMessage hasCode_frameHeader (hbegun.mono hlinked.wire)
  obtain ⟨r, hr, hcode⟩ := hbegun
  have hfired : Answered D kept
      (kept.fire .attach (.ref (.attach (senderAttach topicName c.nextHandle)))) :=
    hkept.handshake.fire ((hlinked.trans hkept).wire.subset hr) fun m hm =>
      .transfer hcode (.inl hm)
  exact (hlinked.trans hkept).trans hfired

theorem transfer_answered (h : Handshake D c) (hbegun : Arrived c.wire .begin) (content topicName : CString)
    (qos retain dup : Int) : Answered D c (c.sendAmqpTransfer content topicName qos retain dup) := by
  have hcounted : Answered D c { c with packetIdCounter := c.packetIdCounter + 1 } :=
    h.keep rfl (fun _ _ hk => hk) rfl
  unfold Client.sendAmqpTransfer
  dsimp only
  split
  · obtain ⟨r, hr, hcode⟩ := hbegun
    refine hcounted.trans (hcounted.handshake.encodeAndFire (h.due (.inr ⟨r, hr, ?_⟩)))
    exact .transfer hcode (.inr hasCode_frameHeader)
  · exact hcounted.trans (queueTransfer_answered hcounted.handshake hbegun ..)

/-- The transfer that waited goes out within the session that it was kept back in. -/
theorem receiverAttach_answered {name : CString} (h : Handshake D c)
    (ht : c.processReceiverAttach name = .ok t) : Answered D c t := by
  have hself : Answered D c c := h.keep rfl (fun _ _ hk => hk) rfl
  unfold Client.processReceiverAttach at ht
  dsimp only at ht
  split at ht
  · split at ht
    · next currentMessage hmessage =>
      obtain ⟨hcode, hbegun⟩ := h.queued _ _ hmessage
      obtain ⟨r, hr, hbegin⟩ := hbegun
      let fired := c.amqpEncodeAndFire currentMessage
      let removed := fired.amqpRemoveMessageFromMapHandler (c.amqpGetHandlerFromMapOutgoing name)
      have hfired : Answered D c fired :=
        h.encodeAndFire (h.due (.inr ⟨r, hr, .transfer hbegin (.inr hcode)⟩))
      have hremoved : Answered D fired removed := by
        refine hfired.handshake.keep rfl (fun k m hk => ?_) rfl
        change (fired.mHandler.erase _) k = some m at hk
        rw [Table.erase_apply] at hk
        split at hk
        · cases hk
        · exact hk
      obtain ⟨transfer, -, ht⟩ := bind_eq_ok.1 ht
      obtain ⟨settled, -, ht⟩ := bind_eq_ok.1 ht
      split at ht
      · cases ht
        exact hfired.trans hremoved
      · obtain ⟨deliveryId, -, ht⟩ := bind_eq_ok.1 ht
        cases ht
        exact (hfired.trans hremoved).trans
          (hremoved.handshake.keep rfl (fun _ _ hk => hk) rfl)
    · cases ht
      exact hself
  · cases ht
    exact hself

theorem senderAttach_answered (h : Handshake D c) (name : CString) (handle : Int) :
    Answered D c (c.processSenderAttach name handle) := by
  unfold Client.processSenderAttach
  dsimp only
  split <;> split <;> exact h.keep rfl (fun _ _ hk => hk) rfl

theorem attach_answered (h : Handshake D c) (ht : c.processAttach r = .ok t) : Answered D c t := by
  obtain ⟨attach, -, ht⟩ := bind_eq_ok.1 ht
  obtain ⟨present, -, ht⟩ := bind_eq_ok.1 ht
  split at ht
  · obtain ⟨role, -, ht⟩ := bind_eq_ok.1 ht
    cases role with
    | receiver =>
      obtain ⟨name, -, ht⟩ := bind_eq_ok.1 ht
      exact receiverAttach_answered h ht
    | sender =>
      obtain ⟨name, -, ht⟩ := bind_eq_ok.1 ht
      obtain ⟨handle, -, ht⟩ := bind_eq_ok.1 ht
      cases ht
      exact senderAttach_answered h name handle
  · cases ht
    exact h.keep rfl (fun _ _ hk => hk) rfl

/-- The contents of a received TRANSFER are only copied. -/
theorem copied {transfer : AmqpTransfer} (ht : (do
    match ← transfer.sections.deref with
    | [] => .error .readOut
    | entry :: _ => do
      let amqpData ← entry.sectionData.deref
      let _ ← copyOut (← amqpData.data.deref) 0 (← amqpData.dataLength.get)
      pure c) = Except.ok t) : t = c := by
  obtain ⟨sections, -, ht⟩ := bind_eq_ok.1 ht
  split at ht
  · cases ht
  · obtain ⟨amqpData, -, ht⟩ := bind_eq_ok.1 ht
    obtain ⟨bytes, -, ht⟩ := bind_eq_ok.1 ht
    obtain ⟨length, -, ht⟩ := bind_eq_ok.1 ht
    obtain ⟨content, -, ht⟩ := bind_eq_ok.1 ht
    cases ht
    rfl

theorem processTransfer_answered (h : Handshake D c) (hr : .received r ∈ c.wire)
    (hcode : HasCode r .transfer) (ht : c.processTransfer r = .ok t) : Answered D c t := by
  obtain ⟨transfer, -, ht⟩ := bind_eq_ok.1 ht
  obtain ⟨settled, -, ht⟩ := bind_eq_ok.1 ht
  dsimp only at ht
  split at ht
  · obtain rfl := copied ht
    exact h.keep rfl (fun _ _ hk => hk) rfl
  · obtain ⟨deliveryId, -, ht⟩ := bind_eq_ok.1 ht
    obtain rfl := copied ht
    exact h.fire hr fun m hm => .disposition hcode hm

theorem disposition_answered (h : Handshake D c) (ht : c.processDisposition r = .ok t) :
    Answered D c t := by
  obtain ⟨disposition, -, ht⟩ := bind_eq_ok.1 ht
  obtain ⟨first, -, ht⟩ := bind_eq_ok.1 ht
  split at ht <;> cases ht <;> exact h.keep rfl (fun _ _ hk => hk) rfl

theorem detach_answered (h : Handshake D c) (ht : c.processDetach r = .ok t) : Answered D c t := by
  obtain ⟨detach, -, ht⟩ := bind_eq_ok.1 ht
  obtain ⟨handle, -, ht⟩ := bind_eq_ok.1 ht
  split at ht <;> cases ht <;> exact h.keep rfl (fun _ _ hk => hk) rfl

theorem saslInit_answered (h : Handshake D c) (hr : .received r ∈ c.wire)
    (hcode : HasCode r .mechanisms) (ht : c.sendAmqpSaslInit r = .ok t) : Answered D c t := by
  obtain ⟨saslMechanisms, -, ht⟩ := bind_eq_ok.1 ht
  dsimp only at ht
  split at ht
  case h_4 => cases ht
  all_goals
    obtain ⟨mechanism, -, ht⟩ := bind_eq_ok.1 ht
    obtain ⟨username, -, ht⟩ := bind_eq_ok.1 ht
    obtain ⟨password, -, ht⟩ := bind_eq_ok.1 ht
    cases ht
    exact h.encodeAndFire (h.due (.inr ⟨r, hr, .saslInit hcode (hasCode_toByte rfl)⟩))

theorem get_eq_ok {α : Type} {x : Cell α} {a : α} (h : x.get = .ok a) : x = .is a := by
  cases x <;> cases h
  rfl

theorem castPacket_eq_ok {α : Type} {cast : Packet → Option α} {a : α}
    (h : castPacket r cast = .ok a) : ∃ packet, r.packet = .ref packet ∧ cast packet = some a := by
  obtain ⟨packet, hpacket, h⟩ := bind_eq_ok.1 h
  refine ⟨packet, ?_, ?_⟩
  · cases hp : r.packet <;> rw [hp] at hpacket <;> cases hpacket
    rfl
  · split at h
    · next p hp =>
      cases h
      exact hp
    · cases h

/-- What the client makes of a frame: it answers, and passes a BEGIN on to the application. -/
theorem rx_answered (h : Handshake D c) (ht : c.processAmqpRx r = .ok t) :
    Handshake D t ∧ c.wire ++ [.received r] <+: t.wire ∧
      (t.connected = c.connected ∨ t.connected = c.connected + 1 ∧ HasCode r .begin) := by
  let d : Amqp.Client := { c with wire := c.wire ++ [.received r] }
  have hd : Handshake D d := h.received.handshake
  have hr : .received r ∈ d.wire := List.mem_append_right _ (List.mem_singleton.2 rfl)
  suffices hx : Answered D d t ∨ HasCode r .begin ∧ t = { d with connected := d.connected + 1 } by
    rcases hx with hx | ⟨hcode, rfl⟩
    · exact ⟨hx.handshake, hx.wire, .inl hx.connected⟩
    · exact ⟨⟨hd.due, hd.behind, hd.queued⟩, List.prefix_refl _, .inr ⟨rfl, hcode⟩⟩
  have hself : Answered D d d := hd.keep rfl (fun _ _ hk => hk) rfl
  obtain ⟨b, hb, ht⟩ := bind_eq_ok.1 ht
  have hcode (code : HeaderCode) (h : HeaderCode.ofByte b = some code) : HasCode r code :=
    ⟨b, get_eq_ok hb, h⟩
  split at ht
  case h_1 hproto =>
    obtain ⟨proto, hcast, ht⟩ := bind_eq_ok.1 ht
    obtain ⟨protocolId, hid, ht⟩ := bind_eq_ok.1 ht
    have hpacket : r.packet = .ref (.proto proto) := by
      obtain ⟨packet, hpacket, hcast⟩ := castPacket_eq_ok hcast
      split at hcast <;> cases hcast
      exact hpacket
    have hchannel : Answered D d { d with channel := r.channel } :=
      hd.keep rfl (fun _ _ hk => hk) rfl
    split at ht
    · next hzero =>
      cases ht
      rw [hzero] at hid
      refine .inl (hchannel.trans (hchannel.handshake.fire hr fun m hm => ?_))
      exact .open (hcode _ hproto) hpacket (get_eq_ok hid) hm
    · cases ht
      exact .inl hself
  case h_2 hopen =>
    cases ht
    have hstarted : Answered D d (d.startAmqpPingTimer (UInt32.ofInt d.account.keepAlive)) :=
      hd.keep rfl (fun k m hk => by cases hk) rfl
    exact .inl (hstarted.trans (hstarted.handshake.fire hr fun m hm => .begin (hcode _ hopen) hm))
  case h_3 hbegin =>
    cases ht
    exact .inr ⟨hcode _ hbegin, rfl⟩
  case h_4 => exact .inl (attach_answered hd ht)
  case h_5 htransfer => exact .inl (processTransfer_answered hd hr (hcode _ htransfer) ht)
  case h_6 => exact .inl (disposition_answered hd ht)
  case h_7 => exact .inl (detach_answered hd ht)
  case h_8 hend =>
    cases ht
    exact .inl (hd.fire hr fun m hm => .close (hcode _ hend) hm)
  case h_9 =>
    cases ht
    exact .inl (hd.keep rfl (fun _ _ hk => hk) rfl)
  case h_10 hmechanisms => exact .inl (saslInit_answered hd hr (hcode _ hmechanisms) ht)
  case h_11 houtcome =>
    obtain ⟨outcome, hcast, ht⟩ := bind_eq_ok.1 ht
    obtain ⟨outcomeCode, hok, ht⟩ := bind_eq_ok.1 ht
    have hpacket : r.packet = .ref (.outcome outcome) := by
      obtain ⟨packet, hpacket, hcast⟩ := castPacket_eq_ok hcast
      split at hcast <;> cases hcast
      exact hpacket
    split at ht
    · next hzero =>
      cases ht
      rw [hzero] at hok
      exact .inl (hd.encodeAndFire
        (hd.due (.inr ⟨r, hr, .proto (hcode _ houtcome) hpacket (get_eq_ok hok)⟩)))
    · cases ht
      exact .inl hself
  all_goals
    cases ht
    exact .inl hself

end Handshake

/-! ### Runs of the program -/

/-- An event of the application, or a ping. -/
inductive AmqpEvent where
  | app (e : AppEvent AmqpHeader)
  | ping

/-- An OPEN was read, and `process_amqp_rx` has started the thread of the pings. -/
def pinging (wire : List (Traffic AmqpHeader)) : Bool :=
  (receivedOf wire).any fun r => r.code = .is HeaderCode.open.toByte

/-- `amqp_ping_task`, when it runs -/
def Program.amqpPing (s : Program Amqp.Client) : Program Amqp.Client :=
  if pinging s.client.wire then { s with client := s.client.sendAmqpPing } else s

/-- The application over AMQP. -/
def amqpStep (config : Config) (topicName : Option CString) (s : Program Amqp.Client) :
    AmqpEvent → Run (Program Amqp.Client)
  | .app e => Program.step (amqpBackend config) topicName s e
  | .ping => pure s.amqpPing

theorem arrived_open {wire : List (Traffic AmqpHeader)} (h : pinging wire = true) :
    Arrived wire .open := by
  obtain ⟨r, hr, hcode⟩ := List.any_eq_true.1 h
  obtain ⟨x, hx, hxr⟩ := List.mem_filterMap.1 hr
  refine ⟨r, ?_, hasCode_toByte (of_decide_eq_true hcode)⟩
  cases x <;> cases hxr
  exact hx

section Runs

variable {config : Config} {account : Account} {topicName : Option CString}

theorem returned_replicate {σ : Type} (s : Program σ) (client : σ) (n : Nat) :
    s.returned (client, .replicate n .csPt) =
      .ok { s with client := client, tasks := s.tasks + n } := by
  unfold Program.returned
  dsimp only
  generalize hu : ({ s with client := client } : Program σ) = u
  have htasks : u.tasks = s.tasks := by rw [← hu]
  have hsame : ({ s with client := client, tasks := s.tasks + n } : Program σ) =
      { u with tasks := u.tasks + n } := by rw [htasks, ← hu]
  rw [hsame]
  clear hu htasks hsame
  induction n generalizing u with
  | zero => rfl
  | succ n ih =>
    rw [List.replicate_succ, List.foldlM_cons]
    change List.foldlM _ _ _ = _
    rw [ih]
    simp only [Except.ok.injEq, Program.mk.injEq, true_and, and_true]
    omega

/-- The invariant of the program: before `send_connect` nothing but answers is sent. -/
def InOrder (s : Program Amqp.Client) : Prop :=
  (if s.phase = .running then Handshake Due s.client else Handshake Replies s.client) ∧
    (s.tasks ≠ 0 → Arrived s.client.wire .begin)

/-- An answer is no protocol header of SASL. -/
theorem replies_ne {wire : List (Traffic AmqpHeader)} {m : AmqpHeader} (h : Replies wire m) :
    m ≠ protoHeader 3 := by
  have hproto {code : HeaderCode} (hcode : HasCode (protoHeader 3) code) : code = .proto := by
    obtain ⟨b, hb, hcode⟩ := hcode
    cases hb
    rw [HeaderCode.ofByte_toByte] at hcode
    cases hcode
    rfl
  rintro rfl
  rcases h with ⟨hping, -⟩ | ⟨r, -, ha⟩
  · cases hproto hping
  · generalize hm : protoHeader 3 = m at ha
    cases ha with
    | saslInit _ hcode | «open» _ _ _ hcode | begin _ hcode | disposition _ hcode
    | close _ hcode =>
      subst hm
      cases hproto hcode
    | transfer _ hcode =>
      subst hm
      rcases hcode with hcode | hcode <;> cases hproto hcode
    | proto => cases hm

/-- The first `send_connect`. -/
theorem Handshake.connect {c : Amqp.Client} (h : Handshake Replies c) :
    Answered Due c (c.sendAmqpProtoHeader 3) := by
  have hdue : Handshake Due c :=
    ⟨.inr, fun pre m post hwire => .inr (h.behind pre m post hwire), h.queued⟩
  refine hdue.encodeAndFire (.inl ⟨rfl, fun hmem => ?_⟩)
  obtain ⟨pre, post, hwire⟩ := List.append_of_mem hmem
  exact replies_ne (h.behind pre _ post hwire) rfl

theorem inOrder_answered {D : List (Traffic AmqpHeader) → AmqpHeader → Prop}
    {s t : Program Amqp.Client} {c : Amqp.Client} (phase : Phase)
    (htasks : s.tasks ≠ 0 → Arrived s.client.wire .begin) (hc : Answered D s.client c)
    (hkeep : Handshake D c →
      if phase = .running then Handshake Due c else Handshake Replies c)
    (ht : Program.returned { s with phase := phase } (amqpReturned s.client c) = .ok t) :
    InOrder t ∧ s.client.wire <+: t.client.wire := by
  rw [amqpReturned, hc.connected, Nat.sub_self, returned_replicate] at ht
  cases ht
  exact ⟨⟨hkeep hc.handshake, fun hne => (htasks hne).mono hc.wire⟩, hc.wire⟩

theorem inOrder_received {D : List (Traffic AmqpHeader) → AmqpHeader → Prop}
    {s t : Program Amqp.Client} {c : Amqp.Client} {r : AmqpHeader}
    (htasks : s.tasks ≠ 0 → Arrived s.client.wire .begin) (h : Handshake D s.client)
    (hc : s.client.processAmqpRx r = .ok c)
    (hkeep : Handshake D c →
      if s.phase = .running then Handshake Due c else Handshake Replies c)
    (ht : Program.returned s (amqpReturned s.client c) = .ok t) :
    InOrder t ∧ s.client.wire <+: t.client.wire := by
  obtain ⟨hc, hwire, hconnected⟩ := rx_answered h hc
  rw [amqpReturned, returned_replicate] at ht
  cases ht
  refine ⟨⟨hkeep hc, fun hne => ?_⟩, (List.prefix_append _ _).trans hwire⟩
  rcases hconnected with hsame | ⟨-, hbegin⟩
  · rw [hsame, Nat.sub_self] at hne
    exact (htasks hne).mono ((List.prefix_append _ _).trans hwire)
  · exact ⟨r, hwire.subset (List.mem_append_right _ (List.mem_singleton.2 rfl)), hbegin⟩

theorem app_step {s t : Program Amqp.Client} {e : AppEvent AmqpHeader} (h : InOrder s)
    (ht : Program.step (amqpBackend config) topicName s e = .ok t) :
    InOrder t ∧ s.client.wire <+: t.client.wire := by
  obtain ⟨hshake, htasks⟩ := h
  unfold Program.step at ht
  cases e with
  | openConnection isSuccesful =>
    cases ht
    split
    · next hs =>
      rw [if_neg (by rw [hs.1]; simp)] at hshake
      exact ⟨⟨hshake, htasks⟩, List.prefix_refl _⟩
    · exact ⟨⟨hshake, htasks⟩, List.prefix_refl _⟩
  | sendConnect =>
    dsimp only at ht
    split at ht
    · next hs =>
      rw [if_neg (by rw [hs.1]; simp)] at hshake
      exact inOrder_answered .running htasks hshake.connect (fun h => h) ht
    · cases ht
      exact ⟨⟨hshake, htasks⟩, List.prefix_refl _⟩
  | receive r =>
    dsimp only at ht
    split at ht
    · obtain ⟨returned, hr, ht⟩ := bind_eq_ok.1 ht
      obtain ⟨c, hc, hr⟩ := bind_eq_ok.1 hr
      cases hr
      split at hshake
      · next hs => exact inOrder_received htasks hshake hc (fun h => by rwa [if_pos hs]) ht
      · next hs => exact inOrder_received htasks hshake hc (fun h => by rwa [if_neg hs]) ht
    · cases ht
      exact ⟨⟨hshake, htasks⟩, List.prefix_refl _⟩
  | sendMessage content =>
    dsimp only at ht
    split at ht
    · next hs =>
      obtain ⟨name, -, ht⟩ := bind_eq_ok.1 ht
      split at hshake
      · next hrun =>
        exact inOrder_answered s.phase htasks (transfer_answered hshake (htasks hs.1) ..)
          (fun h => by rwa [if_pos hrun]) ht
      · next hrun =>
        exact inOrder_answered s.phase htasks (transfer_answered hshake (htasks hs.1) ..)
          (fun h => by rwa [if_neg hrun]) ht
    · cases ht
      exact ⟨⟨hshake, htasks⟩, List.prefix_refl _⟩

/-- A ping is sent by a thread that an OPEN started. -/
theorem ping_step {s : Program Amqp.Client} (h : InOrder s) :
    InOrder (s.amqpPing) ∧ s.client.wire <+: s.amqpPing.client.wire := by
  unfold Program.amqpPing
  split
  · next hopen =>
    have hping {D : List (Traffic AmqpHeader) → AmqpHeader → Prop} (h : Handshake D s.client) :
        Answered D s.client s.client.sendAmqpPing :=
      h.encodeAndFire (h.due (.inl ⟨hasCode_frameHeader, arrived_open hopen⟩))
    obtain ⟨hshake, htasks⟩ := h
    refine ⟨⟨?_, fun hne => (htasks hne).mono (List.prefix_append _ _)⟩, List.prefix_append _ _⟩
    split at hshake
    · next hs =>
      rw [if_pos hs]
      exact (hping hshake).handshake
    · next hs =>
      rw [if_neg hs]
      exact (hping hshake).handshake
  · exact ⟨h, List.prefix_refl _⟩

theorem amqp_step {s t : Program Amqp.Client} {e : AmqpEvent} (h : InOrder s)
    (ht : amqpStep config topicName s e = .ok t) :
    InOrder t ∧ s.client.wire <+: t.client.wire := by
  cases e with
  | app e => exact app_step h ht
  | ping =>
    cases ht
    exact ping_step h

theorem inOrder_init : InOrder (.init (.init account)) := by
  refine ⟨⟨id, behind_nil, fun k m hk => ?_⟩, fun htasks => absurd rfl htasks⟩
  cases hk

theorem InOrder.behind {s : Program Amqp.Client} (h : InOrder s) : Behind Due s.client.wire := by
  obtain ⟨hshake, -⟩ := h
  split at hshake
  · exact hshake.behind
  · exact fun pre m post hwire => .inr (hshake.behind pre m post hwire)

/-- Whatever the peer sends, each frame the client sends but one protocol header and the pings
behind an OPEN answers one that was received. -/
theorem amqp_handshake {es : List AmqpEvent} {s : Program Amqp.Client}
    (h : Machine.run (amqpStep config topicName) (.init (.init account)) es = .ok s) :
    Behind Due s.client.wire :=
  (run_keeps (P := InOrder) (G := fun _ _ => True) (fun _ _ _ _ hs _ ht => (amqp_step hs ht).1)
    inOrder_init (each_of_forall fun _ _ _ => trivial) h).behind

end Runs

/-- A handshake, a ping and a publication. -/
def handshakeEvents : List AmqpEvent :=
  [.app (.openConnection true), .app .sendConnect,
    .app (.receive (frameHeader (.is 0) .mechanisms (.ref (.mechanisms ⟨.null⟩)))),
    .app (.receive (frameHeader (.is 0) .outcome (.ref (.outcome ⟨.is 0, .null⟩)))),
    .app (.receive (protoHeader 0)),
    .app (.receive (frameHeader (.is 0) .open .null)),
    .ping,
    .app (.receive (frameHeader (.is 0) .begin .null)),
    .app (.sendMessage (.ofBytes [0x7b, 0x7d]))]

def saslAccount : Account :=
  { Account.anonymous with
    username := some (.ofBytes [0x75]), password := some (.ofBytes [0x70]) }

theorem amqp_handshake_handshakeEvents : ∃ s,
    Machine.run (amqpStep (.initial (Config.heapOf 0)) (some (.ofBytes [0x74])))
      (.init (.init saslAccount)) handshakeEvents = .ok s ∧
    Behind Due s.client.wire :=
  ⟨_, rfl, @amqp_handshake (.initial (Config.heapOf 0)) saslAccount (some (.ofBytes [0x74]))
    handshakeEvents _ rfl⟩

/-! ### The connection -/

/-- What `amqp_encode_and_fire` passes to `raw_fire`. -/
def amqpFrame (header : AmqpHeader) : Run Outgoing := do
  let (buf, totalLength) ← amqpEncode header
  rawOf buf totalLength

section Connection

variable {config : Config} {account : Account} {topicName : Option CString}

/-- The application over AMQP and its connection. -/
def amqpFiring (config : Config) (topicName : Option CString) :
    Firing (Program Amqp.Client) AmqpEvent AmqpHeader where
  wire s := s.client.wire
  frame := amqpFrame
  protocol := .amqp
  step := amqpStep config topicName
  Keeps := InOrder
  frame_suits h := by
    obtain ⟨r, -, h⟩ := bind_eq_ok.1 h
    exact rawOf_suits (by decide) h
  step_logs := amqp_step

/-- What goes over the connection are frames of the handshake, in its order and none twice. -/
theorem amqp_over_tcp {es : List (LinkEvent AmqpEvent)} {l : Link (Program Amqp.Client)}
    (hreq : Each (amqpFiring config topicName).link Firing.Requested
      ((amqpFiring config topicName).start (.init (.init account))) es)
    (h : Machine.run (amqpFiring config topicName).link
      ((amqpFiring config topicName).start (.init (.init account))) es = .ok l) :
    Behind Due l.client.client.wire ∧ ∃ os,
      (sentOf l.client.client.wire).mapM amqpFrame = .ok os ∧
      l.sender.written.Sublist (os.map Outgoing.bytes) ∧
      (l.pending = [] → l.sender.outstanding = [] →
        l.sender.written.getLast? = (os.map Outgoing.bytes).getLast?) := by
  have hlinked : (amqpFiring config topicName).Linked l :=
    run_keeps (P := (amqpFiring config topicName).Linked) (fun _ _ _ _ hl he ht => hl.step he ht)
      (Firing.linked_start inOrder_init rfl) hreq h
  exact ⟨hlinked.keeps.behind, hlinked.in_order⟩

end Connection

/-- The first protocol header is written. -/
def headerEvents : List (LinkEvent AmqpEvent) :=
  [.client (.app (.openConnection true)), .client (.app .sendConnect), .fire, .writeable]

theorem amqp_over_tcp_headerEvents : ∃ l,
    Machine.run (amqpFiring (.initial (Config.heapOf 0)) (some (.ofBytes [0x74]))).link
      ((amqpFiring (.initial (Config.heapOf 0)) (some (.ofBytes [0x74]))).start
        (.init (.init saslAccount))) headerEvents = .ok l ∧
    Behind Due l.client.client.wire ∧ ∃ os,
      (sentOf l.client.client.wire).mapM amqpFrame = .ok os ∧
      l.sender.written.Sublist (os.map Outgoing.bytes) ∧
      (l.pending = [] → l.sender.outstanding = [] →
        l.sender.written.getLast? = (os.map Outgoing.bytes).getLast?) := by
  refine ⟨_, rfl, @amqp_over_tcp (.initial (Config.heapOf 0)) saslAccount
    (some (.ofBytes [0x74])) headerEvents _ ?_ rfl⟩
  refine each_cons.2 ⟨trivial, ?_⟩
  rintro _ ⟨⟩
  refine each_cons.2 ⟨trivial, ?_⟩
  rintro _ ⟨⟩
  refine each_cons.2 ⟨trivial, ?_⟩
  rintro _ ⟨⟩
  refine each_cons.2 ⟨List.cons_ne_nil _ _, ?_⟩
  rintro _ -
  exact each_nil

end IotClient.App
