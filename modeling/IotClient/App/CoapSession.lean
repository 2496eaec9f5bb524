import IotClient.App.Running
import IotClient.Coap.OverUdp
import IotClient.Coap.Session

/-!
# The application over CoAP (`app.c`, `coap/coap_client.c`)

The application over CoAP is a `Program` with the client of `coap_client.c`, which calls
`connection_success` without waiting for anything. Its publications take the ids 1, 2, 3 and so on,
and no run gets past the 9999th, whose successor has a token that is too long for its array. No run
goes on behind a POST or PUT with a topic either: it is passed to `get_pub_pt`, which `app.c` does
not set (`coap_session`). The pings are left out.
-/

namespace IotClient.App

open Mem Machine Net Coap

/-- A client, and its calls since it was `c`. -/
def coapReturned (c t : Coap.Client) : Coap.Client × List Callback :=
  (t, (t.published.drop c.published.length).map fun _ => .getPubPt)

/-- The client of CoAP. `unset` is the byte that `qos_value` leaves for a number that is no QoS,
`rest` what the array of dyad holds behind each datagram. -/
def coapBackend (config : Config) (unset : UInt8) (rest : ℕ → List UInt8) :
    Backend Coap.Client (List UInt8) where
  -- `coap_connect`
  sendConnect c := pure (c, [.csPt])
  sendMessage c content topicName := do
    pure (coapReturned c (← c.sendCoapMessage content topicName config.messageQos unset))
  receive c data := do pure (coapReturned c (← Coap.receive rest c data))

/-- The requests of a log. -/
def requestsOf (wire : List (Traffic CoapMessage)) : List CoapMessage :=
  (sentOf wire).filter fun m => m.type = CoapType.confirmable.value

/-- The loop of `process_coap_rx` finds no topic. -/
def Untitled (m : CoapMessage) : Prop :=
  ∃ options qos, m.options.elems m.optionsAmount.toNat = .ok options ∧
    findTopic options 0 = .ok (none, qos)

section Client

variable {rest : ℕ → List UInt8} {c d t : Coap.Client} {m : CoapMessage}
  {options : List CoapOption}

theorem requestsOf_append (wire xs : List (Traffic CoapMessage)) :
    requestsOf (wire ++ xs) = requestsOf wire ++ requestsOf xs := by
  rw [requestsOf, sentOf_append, List.filter_append]
  rfl

/-- From `c` to `t` nothing was sent but acknowledgements, and nothing received. -/
structure Acks (c t : Coap.Client) : Prop where
  wire : ∃ xs, t.wire = c.wire ++ xs ∧ requestsOf xs = [] ∧ receivedOf xs = []
  count : t.currentPacketNumber = c.currentPacketNumber
  published : c.published <+: t.published

theorem Acks.refl (c : Coap.Client) : Acks c c :=
  ⟨⟨[], (List.append_nil _).symm, rfl, rfl⟩, rfl, List.prefix_refl _⟩

theorem Acks.trans (h : Acks c d) (h' : Acks d t) : Acks c t := by
  obtain ⟨xs, hxs, hrequests, hreceived⟩ := h.wire
  obtain ⟨ys, hys, hrequests', hreceived'⟩ := h'.wire
  refine ⟨⟨xs ++ ys, by rw [hys, hxs, List.append_assoc], ?_, ?_⟩, h'.count.trans h.count,
    h.published.trans h'.published⟩
  · rw [requestsOf_append, hrequests, hrequests']
    rfl
  · rw [receivedOf_append, hreceived, hreceived']
    rfl

theorem acks_ack {isOk : Bool} (h : c.sendCoapAck m isOk = .ok t) : Acks c t := by
  obtain ⟨nodeId, -, h⟩ := bind_eq_ok.1 h
  obtain ⟨cursor, -, h⟩ := bind_eq_ok.1 h
  cases h
  exact ⟨⟨[.sent (Client.ackMessage m isOk nodeId)], rfl, rfl, rfl⟩, rfl, List.prefix_refl _⟩

theorem acks_remove (packetId : UInt16) : Acks c (c.coapRemoveMessageFromMap packetId) :=
  ⟨⟨[], (List.append_nil _).symm, rfl, rfl⟩, rfl, List.prefix_refl _⟩

theorem acks_processAck (h : c.processAck m options = .ok t) : Acks c t := by
  unfold Client.processAck at h
  split at h
  · obtain ⟨observe, -, h⟩ := bind_eq_ok.1 h
    split at h
    · cases h
      exact .refl c
    · obtain ⟨_, -, h⟩ := bind_eq_ok.1 h
      cases h
      exact acks_remove _
  · split at h <;> cases h
    · exact acks_remove _
    · exact .refl c

theorem acks_processType (h : c.processType m options = .ok t) : Acks c t := by
  unfold Client.processType at h
  split at h
  · exact acks_ack h
  · split at h
    · cases h
      exact acks_remove _
    · split at h
      · exact acks_processAck h
      · split at h <;> cases h
        · exact acks_remove _
        · exact .refl c

/-- A publication with a topic is passed on. -/
theorem acks_processMessage (h : c.processMessage m = .ok t) :
    Acks c t ∧ (Client.Publishes m → Untitled m ∨ c.published.length < t.published.length) := by
  obtain ⟨options, hoptions, h⟩ := bind_eq_ok.1 h
  split at h
  · obtain ⟨⟨topicName, qos⟩, hfound, h⟩ := bind_eq_ok.1 h
    cases topicName with
    | none => exact ⟨acks_ack h, fun _ => .inl ⟨options, qos, hoptions, hfound⟩⟩
    | some topicName =>
      obtain ⟨d, hd, h⟩ := bind_eq_ok.1 h
      have hack : Acks c d := acks_ack hd
      have hpub : Acks d (d.getPub m topicName qos) :=
        ⟨⟨[], (List.append_nil _).symm, rfl, rfl⟩, rfl, List.prefix_append _ _⟩
      have hrest : Acks (d.getPub m topicName qos) t := acks_processType h
      refine ⟨hack.trans (hpub.trans hrest), fun _ => .inr ?_⟩
      have hlen := hrest.published.length_le
      have hlen' := hack.published.length_le
      simp only [Client.getPub, List.length_append, List.length_singleton] at hlen
      omega
  · next hpub => exact ⟨acks_processType h, fun h => absurd h hpub⟩

/-- What a datagram does to the client, unless it is a publication with a topic. -/
theorem receive_read {data : List UInt8} (h : Coap.receive rest c data = .ok t)
    (hquiet : t.published.length ≤ c.published.length) :
    ∃ xs, t.wire = c.wire ++ xs ∧ requestsOf xs = [] ∧
      t.currentPacketNumber = c.currentPacketNumber ∧
      ∀ m ∈ receivedOf xs, Client.Publishes m → Untitled m := by
  obtain ⟨message, -, h⟩ := bind_eq_ok.1 h
  cases message with
  | none =>
    cases h
    exact ⟨[], (List.append_nil _).symm, rfl, rfl, fun m hm => absurd hm List.not_mem_nil⟩
  | some message =>
    obtain ⟨⟨⟨xs, hxs, hrequests, hreceived⟩, hcount, -⟩, hpub⟩ := acks_processMessage h
    refine ⟨.received message :: xs, ?_, ?_, hcount, fun m hm hpublishes => ?_⟩
    · rw [hxs, List.append_assoc]
      rfl
    · exact hrequests
    · change m ∈ message :: receivedOf xs at hm
      rw [hreceived] at hm
      obtain rfl := List.mem_singleton.1 hm
      exact (hpub hpublishes).resolve_right (Nat.not_lt.2 hquiet)

/-- A publication takes the next id, of at most four digits. -/
theorem message_sent {content topicName : CString} {qos : Int} {unset : UInt8}
    (h : c.sendCoapMessage content topicName qos unset = .ok t) :
    ∃ m, t.wire = c.wire ++ [.sent m] ∧ m.type = CoapType.confirmable.value ∧
      m.messageId = UInt16.ofNat (c.currentPacketNumber + 1) ∧
      m.token = .ref (decimal (c.currentPacketNumber + 1)) ∧ m.payload = .ref content ∧
      t.currentPacketNumber = c.currentPacketNumber + 1 ∧
      c.currentPacketNumber + 1 < 10000 ∧ t.published = c.published := by
  obtain ⟨token, htoken, h⟩ := bind_eq_ok.1 h
  obtain ⟨nodeId, -, h⟩ := bind_eq_ok.1 h
  obtain ⟨cursor, -, h⟩ := bind_eq_ok.1 h
  have hfew : c.currentPacketNumber + 1 < 10000 := by
    by_contra hlong
    have herror := Client.tokenOf_long hlong
    rw [show Client.tokenOf (c.currentPacketNumber + 1) = .ok token from htoken] at herror
    cases herror
  obtain rfl : token = decimal (c.currentPacketNumber + 1) :=
    Except.ok.inj (htoken.symm.trans (Client.tokenOf_eq hfew))
  cases h
  exact ⟨_, rfl, rfl, rfl, rfl, rfl, rfl, hfew, rfl⟩

end Client

/-! ### Runs of the program -/

/-- The id, the token and the contents of the publication of number `i`. -/
def numbered (i : ℕ) (content : CString) : UInt16 × Ptr CString × Ptr CString :=
  (UInt16.ofNat (i + 1), .ref (decimal (i + 1)), .ref content)

def summary (m : CoapMessage) : UInt16 × Ptr CString × Ptr CString :=
  (m.messageId, m.token, m.payload)

/-- What the program has done once it has handed over these contents. -/
structure CoapSession (s : Program Coap.Client) (contents : List CString) : Prop where
  requests : (requestsOf s.client.wire).map summary = contents.mapIdx numbered
  count : s.client.currentPacketNumber = contents.length
  few : contents.length ≤ 9999
  untitled : ∀ m ∈ receivedOf s.client.wire, Client.Publishes m → Untitled m

section Runs

variable {config : Config} {unset : UInt8} {rest : ℕ → List UInt8} {account : Account}
  {topicName : Option CString} {s t : Program Coap.Client} {contents : List CString}

theorem coapSession_init : CoapSession (.init (.init account)) [] where
  requests := rfl
  count := rfl
  few := Nat.zero_le _
  untitled _ hm := absurd hm List.not_mem_nil

theorem CoapSession.same (h : CoapSession s contents) (ht : t.client = s.client) :
    CoapSession t contents :=
  ⟨by rw [ht]; exact h.requests, by rw [ht]; exact h.count, h.few, by rw [ht]; exact h.untitled⟩

theorem CoapSession.received (h : CoapSession s contents) {xs : List (Traffic CoapMessage)}
    (hwire : t.client.wire = s.client.wire ++ xs) (hrequests : requestsOf xs = [])
    (hcount : t.client.currentPacketNumber = s.client.currentPacketNumber)
    (hxs : ∀ m ∈ receivedOf xs, Client.Publishes m → Untitled m) : CoapSession t contents where
  requests := by
    rw [hwire, requestsOf_append, hrequests, List.append_nil]
    exact h.requests
  count := hcount.trans h.count
  few := h.few
  untitled m hm := by
    rw [hwire, receivedOf_append, List.mem_append] at hm
    exact hm.elim (h.untitled m) (hxs m)

theorem CoapSession.published (h : CoapSession s contents) {m : CoapMessage} {content : CString}
    (hwire : t.client.wire = s.client.wire ++ [.sent m])
    (htype : m.type = CoapType.confirmable.value)
    (hm : summary m = numbered s.client.currentPacketNumber content)
    (hcount : t.client.currentPacketNumber = s.client.currentPacketNumber + 1)
    (hfew : s.client.currentPacketNumber + 1 < 10000) : CoapSession t (contents ++ [content]) where
  requests := by
    have hone : requestsOf [.sent m] = [m] := List.filter_cons_of_pos (by simpa using htype)
    rw [hwire, requestsOf_append, hone, List.map_append, h.requests, List.mapIdx_append,
      ← h.count, List.map_singleton, hm]
    simp
  count := by
    rw [hcount, h.count, List.length_append, List.length_singleton]
  few := by
    rw [List.length_append, List.length_singleton, ← h.count]
    omega
  untitled m' hm' := by
    rw [hwire, receivedOf_append] at hm'
    exact h.untitled m' (by simpa [receivedOf] using hm')

theorem CoapSession.step (h : CoapSession s contents) {e : AppEvent (List UInt8)}
    (ht : Program.step (coapBackend config unset rest) topicName s e = .ok t) :
    ∃ news, news.Sublist e.content?.toList ∧ CoapSession t (contents ++ news) := by
  suffices hstep : CoapSession t contents ∨
      ∃ content, e = .sendMessage content ∧ CoapSession t (contents ++ [content]) by
    rcases hstep with hstep | ⟨content, rfl, hstep⟩
    · exact ⟨[], List.nil_sublist _, by rwa [List.append_nil]⟩
    · exact ⟨[content], List.Sublist.refl _, hstep⟩
  unfold Program.step at ht
  cases e with
  | openConnection isSuccesful =>
    cases ht
    exact .inl (h.same (by split <;> rfl))
  | sendConnect =>
    dsimp only at ht
    split at ht
    · obtain ⟨r, hr, ht⟩ := bind_eq_ok.1 ht
      cases hr
      exact .inl (h.same (returned_ok ht).1)
    · cases ht
      exact .inl h
  | receive data =>
    dsimp only at ht
    split at ht
    · obtain ⟨r, hr, ht⟩ := bind_eq_ok.1 ht
      obtain ⟨c, hc, hr⟩ := bind_eq_ok.1 hr
      cases hr
      obtain ⟨hclient, hcalls⟩ := returned_ok ht
      have hquiet : c.published.length ≤ s.client.published.length := by
        by_contra hlong
        apply hcalls
        have hne : c.published.drop s.client.published.length ≠ [] := by
          rw [ne_eq, List.drop_eq_nil_iff]
          exact hlong
        obtain ⟨p, hp⟩ := List.exists_mem_of_ne_nil _ hne
        exact List.mem_map.2 ⟨p, hp, rfl⟩
      obtain ⟨xs, hwire, hrequests, hcount, hxs⟩ := receive_read hc hquiet
      have hc' : t.client = c := hclient
      exact .inl (h.received (hc' ▸ hwire) hrequests (hc' ▸ hcount) hxs)
    · cases ht
      exact .inl h
  | sendMessage content =>
    dsimp only at ht
    split at ht
    · obtain ⟨name, -, ht⟩ := bind_eq_ok.1 ht
      obtain ⟨r, hr, ht⟩ := bind_eq_ok.1 ht
      obtain ⟨c, hc, hr⟩ := bind_eq_ok.1 hr
      cases hr
      have hclient : t.client = c := (returned_ok ht).1
      obtain ⟨m, hwire, htype, hid, htoken, hpayload, hcount, hfew, -⟩ := message_sent hc
      have hm : summary m = numbered s.client.currentPacketNumber content := by
        rw [summary, hid, htoken, hpayload]
        rfl
      exact .inr ⟨content, rfl,
        h.published (hclient ▸ hwire) htype hm (hclient ▸ hcount) hfew⟩
    · cases ht
      exact .inl h

theorem CoapSession.run (h : CoapSession s contents) {es : List (AppEvent (List UInt8))}
    (ht : Machine.run (Program.step (coapBackend config unset rest) topicName) s es = .ok t) :
    ∃ news, news.Sublist (es.filterMap AppEvent.content?) ∧ CoapSession t (contents ++ news) := by
  induction es generalizing s contents with
  | nil =>
    cases ht
    exact ⟨[], List.nil_sublist _, by rwa [List.append_nil]⟩
  | cons e es ih =>
    obtain ⟨u, hu, ht⟩ := run_cons_eq_ok.1 ht
    obtain ⟨news, hnews, hsession⟩ := h.step hu
    obtain ⟨news', hnews', hsession⟩ := ih hsession ht
    refine ⟨news ++ news', ?_, by rwa [← List.append_assoc]⟩
    rw [filterMap_cons_toList]
    exact hnews.append hnews'

/-- No run of the application over CoAP gets past its 9999th publication, or behind a publication
that it is sent. -/
theorem coap_session {es : List (AppEvent (List UInt8))}
    (hs : Machine.run (Program.step (coapBackend config unset rest) topicName)
      (.init (.init account)) es = .ok s) :
    ∃ contents, contents.Sublist (es.filterMap AppEvent.content?) ∧ CoapSession s contents :=
  coapSession_init.run hs

end Runs

/-- An acknowledgement that the client does not know, with a payload, and a publication. -/
def coapEvents : List (AppEvent (List UInt8)) :=
  [.openConnection true, .sendConnect, .receive [0x70, 0, 0, 1, 0xff, 0x68, 0x69],
    .sendMessage (.ofBytes [0x7b, 0x7d])]

def coapAccount : Account := { Account.anonymous with clientId := some (.ofBytes [0x63]) }

def coapConfig : Config := .initial (Config.heapOf 0)

theorem sendable_coapEvents {c : Coap.Client} (hcount : c.currentPacketNumber = 0)
    (haccount : c.account = coapAccount) :
    ∃ d, c.sendCoapMessage (.ofBytes [0x7b, 0x7d]) (.ofBytes [0x74]) 0 0 = .ok d := by
  have hone : (decimal 1).strlen ≤ 1 := (strlen_decimal_le (by decide)).2 (by decide)
  have hsend : Client.Sendable c ⟨.put, .ofBytes [0x7b, 0x7d],
      [stringOption .uriPath (.ofBytes [0x74]), arrayOption .accept (qosValue 0 0)]⟩ := by
    refine ⟨by omega, .ofBytes [0x63], by rw [haccount]; rfl, ?_⟩
    let options := [stringOption .uriPath (.ofBytes [0x74]), arrayOption .accept (qosValue 0 0),
      stringOption .nodeId (.ofBytes [0x63])]
    have hsize : optionsSize 0 options ≤ 20 := by decide
    have hfits : 4 + (decimal 1).strlen + optionsSize 0 options + 1 + 2 % 65536 ≤ 258 := by omega
    rw [hcount]
    exact hfits
  rcases Client.step_set (c := c) (e := .sendMessage (.ofBytes [0x7b, 0x7d]) (.ofBytes [0x74]) 0 0)
    rfl (by rw [haccount]; rfl) with ⟨-, out, hstep⟩ | ⟨hnot, -⟩
  · exact ⟨_, hstep⟩
  · exact absurd hsend hnot

theorem coapEvents_run : ∃ s, Machine.run (Program.step (coapBackend coapConfig 0 fun _ => [])
    (some (.ofBytes [0x74]))) (.init (.init coapAccount)) coapEvents = .ok s := by
  obtain ⟨c, hc, hcount, haccount⟩ : ∃ c : Coap.Client,
      Machine.run (Program.step (coapBackend coapConfig 0 fun _ => []) (some (.ofBytes [0x74])))
        (.init (.init coapAccount))
          [.openConnection true, .sendConnect, .receive [0x70, 0, 0, 1, 0xff, 0x68, 0x69]] =
          .ok ⟨c, .running, 1, false⟩ ∧
        c.currentPacketNumber = 0 ∧ c.account = coapAccount := ⟨_, rfl, rfl, rfl⟩
  obtain ⟨d, hd⟩ := sendable_coapEvents hcount haccount
  obtain ⟨-, -, -, -, -, -, -, -, hpublished⟩ := message_sent hd
  refine ⟨⟨d, .running, 1, false⟩, ?_⟩
  have hsplit : coapEvents =
      [.openConnection true, .sendConnect, .receive [0x70, 0, 0, 1, 0xff, 0x68, 0x69]] ++
      [.sendMessage (.ofBytes [0x7b, 0x7d])] := rfl
  rw [hsplit, run_append hc]
  refine run_cons_eq_ok.2 ⟨⟨d, .running, 1, false⟩, ?_, rfl⟩
  have hsend : (coapBackend coapConfig 0 fun _ => []).sendMessage c (.ofBytes [0x7b, 0x7d])
      (.ofBytes [0x74]) = .ok (d, []) := by
    change (c.sendCoapMessage _ _ 0 0 >>= _) = _
    rw [hd, ok_bind]
    unfold coapReturned
    rw [hpublished, List.drop_length]
    rfl
  unfold Program.step
  dsimp only
  rw [if_pos ⟨by decide, rfl⟩]
  change ((coapBackend coapConfig 0 fun _ => []).sendMessage c _ _ >>= _) = _
  rw [hsend]
  rfl

theorem coap_session_coapEvents : ∃ s,
    Machine.run (Program.step (coapBackend coapConfig 0 fun _ => []) (some (.ofBytes [0x74])))
      (.init (.init coapAccount)) coapEvents = .ok s ∧
    ∃ contents, contents.Sublist (coapEvents.filterMap AppEvent.content?) ∧
      CoapSession s contents := by
  obtain ⟨s, hs⟩ := coapEvents_run
  exact ⟨s, hs, coap_session hs⟩

end IotClient.App
