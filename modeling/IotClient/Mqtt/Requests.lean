import IotClient.Mqtt.Sending

/-!
# The requests an MQTT client has outstanding

`awaiting wire` are the requests that await their acknowledgement after the messages of
`wire`: a CONNECT until CONNACK, a SUBSCRIBE, UNSUBSCRIBE or PUBLISH with QoS 1 or 2 until
SUBACK, UNSUBACK, PUBACK or PUBCOMP with its packet id. `process_rx` removes only the CONNECT
from the map and `send_publish` adds a PUBLISH with QoS 0 as well, so the map holds exactly the
awaiting requests as long as a run does none of what `Kept` excludes. A step includes what
`encode_and_fire` makes of its message.
-/

namespace IotClient.Mqtt

open Mem Machine
open Ws (Jansson)

/-- 0 for a CONNECT, the packet id of another request, `none` for what awaits no answer. -/
def requestKey (message : Message) : Option UInt16 :=
  match message.packet with
  | .ref (.connect _) => some 0
  | .ref (.subscribe s) => some s.packetId
  | .ref (.unsubscribe us) => some us.packetId
  | .ref (.publish ⟨⟨_, .is qos⟩, _, _, _, .is packetId⟩) => if qos ≠ 0 then some packetId else none
  | _ => none

def isConnect (message : Message) : Bool :=
  match message.packet with
  | .ref (.connect _) => true
  | _ => false

/-- `reply` is the final acknowledgement of `request`. -/
def settles (reply request : Message) : Bool :=
  match reply.packet, request.packet with
  | .ref (.connack _), .ref (.connect _) => true
  | .ref (.suback sa), .ref (.subscribe s) => s.packetId = sa.packetId
  | .ref (.unsuback usa), .ref (.unsubscribe us) => us.packetId = usa.packetId
  | .ref (.puback pa), .ref (.publish p) => p.topic.qos = .is 1 ∧ p.packetId = .is pa.packetId
  | .ref (.pubcomp pc), .ref (.publish p) => p.topic.qos = .is 2 ∧ p.packetId = .is pc.packetId
  | _, _ => false

/-- A new CONNECT takes the place of one that awaits its CONNACK. -/
def awaitingStep (rs : List Message) : Traffic Message → List Message
  | .sent message =>
    if isConnect message then rs.filter (!isConnect ·) ++ [message]
    else if (requestKey message).isSome then rs ++ [message] else rs
  | .queued _ => rs
  | .received reply => rs.filter (!settles reply ·)

def awaiting (wire : List (Traffic Message)) : List Message := wire.foldl awaitingStep []

@[simp] theorem awaiting_nil : awaiting [] = [] := rfl

theorem awaiting_snoc (wire : List (Traffic Message)) (w : Traffic Message) :
    awaiting (wire ++ [w]) = awaitingStep (awaiting wire) w := by
  rw [awaiting, List.foldl_append]; rfl

namespace Client

/-- The map holds exactly the requests that await an answer. -/
def MapRight (c : Client) : Prop := c.m.Holds requestKey (awaiting c.wire)

/-- What keeps the map right: CONNECT only when no other request awaits, no PUBLISH with QoS 0,
and no acknowledgement of a request other than the CONNECT. -/
def KeepsMap (c : Client) : Event → Prop
  | .call (.sendConnect _) => ∀ r ∈ awaiting c.wire, isConnect r
  | .call (.sendPublish _ _ qos _ _) => (qos : Nat) ≠ 0
  | .call _ => True
  | .receive p => ∀ r ∈ awaiting c.wire, settles p.message r → isConnect r

/-- The step returns, and keeps the map right. -/
def Kept (protocol : Protocol) (c : Client) (e : Event) : Prop :=
  Permitted protocol c e ∧ KeepsMap c e

/-- The step allocates at most the 65535th id. -/
def FewIds (c : Client) (e : Event) : Prop :=
  ∀ t, step c e = .ok t → t.currentPacketNumber < 65536

instance (c : Client) (e : Event) : Decidable (FewIds c e) :=
  have : DecidablePred fun t : Client => t.currentPacketNumber < 65536 :=
    fun t => inferInstanceAs (Decidable (t.currentPacketNumber < 65536))
  decidableNext (step c e)

/-- An awaiting request is a CONNECT, or has an id that was allocated. -/
def Allocated (c : Client) (r : Message) : Prop :=
  (isConnect r = true ∧ requestKey r = some 0) ∨
    (isConnect r = false ∧ ∃ k, requestKey r = some k ∧ k ≠ 0 ∧ k.toNat ≤ c.currentPacketNumber)

structure Inv (c : Client) : Prop where
  count : 0 ≤ c.currentPacketNumber
  allocated : ∀ r ∈ awaiting c.wire, Allocated c r

variable {c t : Client}

theorem Allocated.key_ne {r : Message} (h : Allocated c r) : requestKey r ≠ none := by
  obtain ⟨-, hk⟩ | ⟨-, k, hk, -⟩ := h <;> simp [hk]

theorem Allocated.connect_iff {r : Message} (h : Allocated c r) :
    isConnect r = true ↔ requestKey r = some 0 := by
  rcases h with ⟨hc, hk⟩ | ⟨hc, k, hk, h0, -⟩
  · simp [hc, hk]
  · simp [hc, hk, h0]

theorem Allocated.mono {r : Message} (h : Allocated c r)
    (hle : c.currentPacketNumber ≤ t.currentPacketNumber) : Allocated t r := by
  rcases h with h | ⟨hc, k, hk, h0, hle'⟩
  · exact .inl h
  · exact .inr ⟨hc, k, hk, h0, by omega⟩

/-! ### New ids -/

theorem toNat_nextId (h0 : 0 ≤ c.currentPacketNumber) (h : c.currentPacketNumber < 65535) :
    (c.nextId.toNat : Int) = c.currentPacketNumber + 1 :=
  short_toNat_ofInt (by omega) (by omega)

theorem nextId_ne_zero (h0 : 0 ≤ c.currentPacketNumber) (h : c.currentPacketNumber < 65535) :
    c.nextId ≠ 0 := by
  intro hz
  have hnat := toNat_nextId h0 h
  rw [hz] at hnat
  simp at hnat
  omega

theorem Allocated.ne_nextId {r : Message} (hr : Allocated c r) (h0 : 0 ≤ c.currentPacketNumber)
    (h : c.currentPacketNumber < 65535) : requestKey r ≠ some c.nextId := by
  have hnat := toNat_nextId h0 h
  rcases hr with ⟨-, hk⟩ | ⟨-, k, hk, -, hle⟩
  · rw [hk]
    intro heq
    exact nextId_ne_zero h0 h (Option.some.inj heq).symm
  · rw [hk]
    intro heq
    rw [Option.some.inj heq] at hle
    omega

/-! ### The calls -/

/-- `t` is `c` after it sent and stored `message` under a new id. -/
structure Adds (c t : Client) (message : Message) : Prop where
  key : requestKey message = some c.nextId
  not_connect : isConnect message = false
  m : t.m = c.m.set c.nextId message
  wire : t.wire = c.wire ++ [.sent message]
  count : t.currentPacketNumber = c.currentPacketNumber + 1

theorem sendSubscribe_adds (topicName : CString) (qos : Nat) :
    ∃ t, c.sendSubscribe topicName qos = .ok t ∧
      Adds c t (subscribeMessage topicName qos c.nextId) :=
  ⟨_, rfl, rfl, rfl, rfl, rfl, rfl⟩

theorem sendUnsubscribe_adds (topicName : CString) :
    ∃ t, c.sendUnsubscribe topicName = .ok t ∧
      Adds c t (unsubscribeMessage topicName c.nextId) :=
  ⟨_, rfl, rfl, rfl, rfl, rfl, rfl⟩

theorem sendPublish_adds (content topicName : CString) {qos : Nat} (hq : qos ≠ 0)
    (retain dup : Int) :
    ∃ t, c.sendPublish content topicName qos retain dup = .ok t ∧
      Adds c t (publishMessage content topicName qos retain dup c.nextId) := by
  unfold sendPublish
  rw [if_pos hq]
  exact ⟨_, rfl, if_pos hq, rfl, rfl, rfl, rfl⟩

theorem call_adds {f : Call} (hf : f.Allocates) :
    ∃ t, f.run c = .ok t ∧ Adds c t (f.message c.nextId) := by
  cases f with
  | sendConnect account => exact hf.elim
  | sendSubscribe topicName qos => exact sendSubscribe_adds topicName qos
  | sendUnsubscribe topicName => exact sendUnsubscribe_adds topicName
  | sendPublish content topicName qos retain dup =>
    have hqos : (qos : Nat) ≠ 0 := hf
    obtain ⟨t, ht, hadds⟩ := sendPublish_adds (c := c) content topicName hqos retain dup
    refine ⟨t, ht, ?_⟩
    rwa [Call.message, if_pos hqos]

theorem awaiting_adds {message : Message} (h : Adds c t message) :
    awaiting t.wire = awaiting c.wire ++ [message] := by
  rw [h.wire, awaiting_snoc, awaitingStep, h.not_connect, h.key]
  rfl

theorem Adds.inv {message : Message} (h : Adds c t message) (hc : Inv c)
    (hlt : c.currentPacketNumber < 65535) : Inv t := by
  have hcount := h.count
  have h0 := hc.count
  refine ⟨by omega, ?_⟩
  intro r hr
  rw [awaiting_adds h, mem_snoc] at hr
  rcases hr with hr | rfl
  · exact (hc.allocated r hr).mono (by omega)
  · have hnat := toNat_nextId h0 hlt
    exact .inr ⟨h.not_connect, c.nextId, h.key, nextId_ne_zero h0 hlt, by omega⟩

theorem Adds.mapRight {message : Message} (h : Adds c t message) (hc : Inv c)
    (hlt : c.currentPacketNumber < 65535) (hm : MapRight c) : MapRight t := by
  unfold MapRight
  rw [awaiting_adds h, h.m]
  exact Table.Holds.add hm h.key fun r hr => (hc.allocated r hr).ne_nextId hc.count hlt

/-- A PUBLISH with QoS 0 takes key 0 and awaits nothing. -/
theorem sendPublish_zero (content topicName : CString) (retain dup : Int) :
    ∃ t, c.sendPublish content topicName 0 retain dup = .ok t ∧ ¬ MapRight t ∧
      awaiting t.wire = awaiting c.wire ∧ t.currentPacketNumber = c.currentPacketNumber := by
  refine ⟨_, rfl, fun h => ?_, ?_, rfl⟩
  · have hset := Table.set_self c.m 0 (publishMessage content topicName 0 retain dup 0)
    have hkey := ((h 0 _).1 hset).2
    cases hkey
  · show awaiting (c.wire ++ _) = _
    rw [awaiting_snoc]
    rfl

theorem sendConnect_eq (account : Account) :
    ∃ t, c.sendConnect account = .ok t ∧
      t.m = (Table.empty.set 0 (connectMessage account) : Table UInt16 Message) ∧
      awaiting t.wire = (awaiting c.wire).filter (!isConnect ·) ++ [connectMessage account] ∧
      t.currentPacketNumber = c.currentPacketNumber := by
  refine ⟨_, rfl, rfl, ?_, rfl⟩
  show awaiting (c.wire ++ _) = _
  rw [awaiting_snoc]
  rfl

/-- `start_connect_timer` empties the map, so nothing else may be waiting. -/
theorem sendConnect_iff (account : Account) (hc : Inv c) :
    (∃ t, c.sendConnect account = .ok t ∧ MapRight t) ↔
      ∀ r ∈ awaiting c.wire, isConnect r = true := by
  obtain ⟨t, ht, hm, hw, -⟩ := sendConnect_eq (c := c) account
  have hkey : requestKey (connectMessage account) = some 0 := rfl
  constructor
  · rintro ⟨u, hu, hright⟩ r hr
    obtain rfl : t = u := Except.ok.inj (ht.symm.trans hu)
    by_contra hcon
    have hfalse : isConnect r = false := by simpa using hcon
    rcases hc.allocated r hr with ⟨hconn, -⟩ | ⟨-, k, hk, h0, -⟩
    · exact hcon hconn
    · -- the request was dropped from the map
      have hmem : r ∈ awaiting t.wire := by
        rw [hw]
        exact List.mem_append_left _ (List.mem_filter.2 ⟨hr, by simp [hfalse]⟩)
      have hget := (hright k r).2 ⟨hmem, hk⟩
      rw [hm, Table.set_of_ne h0] at hget
      cases hget
  · intro hall
    refine ⟨t, ht, ?_⟩
    have hnone : (awaiting c.wire).filter (!isConnect ·) = [] := by
      rw [List.filter_eq_nil_iff]
      intro r hr
      simp [hall r hr]
    unfold MapRight
    rw [hm, hw, hnone]
    exact Table.holds_empty.add hkey (by simp)

theorem sendConnect_inv (account : Account) (hc : Inv c) (ht : c.sendConnect account = .ok t) :
    Inv t := by
  obtain ⟨u, hu, -, hw, hcount⟩ := sendConnect_eq (c := c) account
  obtain rfl : u = t := Except.ok.inj (hu.symm.trans ht)
  refine ⟨by rw [hcount]; exact hc.count, ?_⟩
  intro r hr
  rw [hw, mem_snoc] at hr
  rcases hr with hr | rfl
  · exact (hc.allocated r (List.mem_filter.1 hr).1).mono (by omega)
  · exact .inl ⟨rfl, rfl⟩

/-! ### Received packets -/

/-- Only a CONNACK settles a CONNECT, and it settles nothing else. -/
theorem settles_connect {p : BrokerPacket} {r : Message} (h : settles p.message r = true) :
    isConnect r = true ↔ p.type = .connack := by
  obtain ⟨type, packet⟩ := r
  cases p <;> cases packet with
  | ref q => cases q <;> first | (cases h; done) | simp [isConnect, BrokerPacket.type]
  | _ => cases h

theorem awaiting_received {p : BrokerPacket} (hw : t.wire = c.wire ++ [.received p.message]) :
    awaiting t.wire = (awaiting c.wire).filter (!settles p.message ·) := by
  rw [hw, awaiting_snoc]
  rfl

theorem processRx_inv (p : BrokerPacket) (hc : Inv c) (ht : c.processRx p.message = .ok t) :
    Inv t := by
  obtain ⟨u, hu, -, hw, hcount⟩ := processRx_eq p fun hp => connecter_of_processRx hp ht
  obtain rfl : u = t := Except.ok.inj (hu.symm.trans ht)
  refine ⟨by rw [hcount]; exact hc.count, ?_⟩
  intro r hr
  rw [awaiting_received hw] at hr
  exact (hc.allocated r (List.mem_filter.1 hr).1).mono (by omega)

/-- A CONNACK settles the awaiting CONNECT. -/
theorem connack_settles {p : BrokerPacket} (hp : p.type = .connack) {r : Message}
    (hr : isConnect r = true) : settles p.message r = true := by
  obtain ⟨type, packet⟩ := r
  cases p <;> cases hp
  cases packet with
  | ref q => cases q <;> first | rfl | cases hr
  | _ => cases hr

theorem processRx_iff (p : BrokerPacket) (hconn : p.type = .connack → c.connecter = true)
    (hc : Inv c) (hm : MapRight c) :
    (∃ t, c.processRx p.message = .ok t ∧ MapRight t) ↔ KeepsMap c (.receive p) := by
  obtain ⟨t, ht, hmt, hw, -⟩ := processRx_eq p hconn
  rw [exists_ok_iff ht, MapRight, hmt, awaiting_received hw]
  by_cases hp : p.type = .connack
  · rw [if_pos hp]
    refine iff_of_true (hm.remove fun r hr => ?_) fun r _ hs => (settles_connect hs).2 hp
    rw [← (hc.allocated r hr).connect_iff]
    exact ⟨fun hs => (settles_connect hs).2 hp, fun hcon => connack_settles hp hcon⟩
  · rw [if_neg hp, hm.keep_iff fun r hr => (hc.allocated r hr).key_ne]
    refine forall₂_congr fun r _ => ?_
    rw [Bool.eq_false_iff]
    exact ⟨fun hns hs => absurd hs hns, fun hcon hs => hp ((settles_connect hs).1 (hcon hs))⟩

/-! ### Runs -/

/-- The calls, by what they do to the map. -/
theorem call_cases (f : Call) :
    (∃ account, f = .sendConnect account) ∨
      (∃ content topicName retain dup, f = .sendPublish content topicName 0 retain dup) ∨
      f.Allocates := by
  cases f with
  | sendConnect account => exact .inl ⟨account, rfl⟩
  | sendSubscribe topicName qos => exact .inr (.inr trivial)
  | sendUnsubscribe topicName => exact .inr (.inr trivial)
  | sendPublish content topicName qos retain dup =>
    by_cases hq : qos = 0
    · subst hq
      exact .inr (.inl ⟨content, topicName, retain, dup, rfl⟩)
    · exact .inr (.inr fun h => hq (Fin.ext h))

theorem keepsMap_of_allocates {f : Call} (hf : f.Allocates) : KeepsMap c (.call f) := by
  cases f with
  | sendConnect account => exact hf.elim
  | sendSubscribe topicName qos => trivial
  | sendUnsubscribe topicName => trivial
  | sendPublish content topicName qos retain dup => exact hf

theorem Adds.lt_of_fewIds {f : Call} {message : Message} (h : Adds c t message)
    (ht : f.run c = .ok t) (hids : FewIds c (.call f)) : c.currentPacketNumber < 65535 := by
  have hlt := hids t ht
  rw [h.count] at hlt
  omega

theorem step_inv {e : Event} (hc : Inv c) (hids : FewIds c e) (ht : step c e = .ok t) : Inv t := by
  cases e with
  | receive p => exact processRx_inv p hc ht
  | call f =>
    rcases call_cases f with ⟨account, rfl⟩ | ⟨content, topicName, retain, dup, rfl⟩ | hf
    · exact sendConnect_inv account hc ht
    · obtain ⟨u, hu, -, hw, hcount⟩ := sendPublish_zero (c := c) content topicName retain dup
      obtain rfl : u = t := Except.ok.inj (hu.symm.trans ht)
      refine ⟨by rw [hcount]; exact hc.count, ?_⟩
      intro r hr
      rw [hw] at hr
      exact (hc.allocated r hr).mono (by omega)
    · obtain ⟨u, hu, hadds⟩ := call_adds (c := c) hf
      obtain rfl : u = t := Except.ok.inj (hu.symm.trans ht)
      exact hadds.inv hc (hadds.lt_of_fewIds hu hids)

theorem step_iff {protocol : Protocol} {e : Event} (he : Permitted protocol c e) (hc : Inv c)
    (hm : MapRight c) (hids : FewIds c e) :
    (∃ t, step c e = .ok t ∧ MapRight t) ↔ KeepsMap c e := by
  cases e with
  | receive p => exact processRx_iff p he hc hm
  | call f =>
    rcases call_cases f with ⟨account, rfl⟩ | ⟨content, topicName, retain, dup, rfl⟩ | hf
    · exact sendConnect_iff account hc
    · obtain ⟨u, hu, hwrong, -⟩ := sendPublish_zero (c := c) content topicName retain dup
      refine iff_of_false ?_ fun hkept => hkept rfl
      rintro ⟨t, ht, hright⟩
      obtain rfl : u = t := Except.ok.inj (hu.symm.trans ht)
      exact hwrong hright
    · obtain ⟨t, ht, hadds⟩ := call_adds (c := c) hf
      refine iff_of_true ⟨t, ht, ?_⟩ (keepsMap_of_allocates hf)
      exact hadds.mapRight hc (hadds.lt_of_fewIds ht hids) hm

theorem sendingStep_iff (lib : Jansson) (protocol : Protocol) {e : Event} (hc : Inv c)
    (hm : MapRight c) (hids : FewIds c e) :
    (∃ t, sendingStep lib protocol c e = .ok t ∧ MapRight t) ↔ Kept protocol c e := by
  constructor
  · rintro ⟨t, ht, hright⟩
    obtain ⟨hstep, he⟩ := sendingStep_eq_ok.1 ht
    exact ⟨he, (step_iff he hc hm hids).1 ⟨t, hstep, hright⟩⟩
  · rintro ⟨he, hkeeps⟩
    obtain ⟨t, hstep, hright⟩ := (step_iff he hc hm hids).2 hkeeps
    exact ⟨t, sendingStep_eq_ok.2 ⟨hstep, he⟩, hright⟩

/-- After every step of a run the map holds exactly the requests that await an answer if and
only if every step returns and keeps it. -/
theorem mapRight_iff_kept (lib : Jansson) (protocol : Protocol) (es : List Event)
    (hids : Each (sendingStep lib protocol) FewIds init es) :
    Always (sendingStep lib protocol) MapRight init es ↔
      Each (sendingStep lib protocol) (Kept protocol) init es :=
  always_iff_each (I := Inv) (G := FewIds)
    (fun _ _ _ hc _ hids ht _ => step_inv hc hids (sendingStep_eq_ok.1 ht).1)
    (fun _ _ hc hm hids => sendingStep_iff lib protocol hc hm hids)
    ⟨Int.le_refl 0, by simp [init]⟩ Table.holds_empty hids

/-- A SUBSCRIBE for `#` and its SUBACK. -/
def subscribeRun : List Event :=
  [.call (.sendSubscribe (.ofBytes [0x23]) 1), .receive (.suback 1 [.acceptedQos1] (by decide))]

theorem mapRight_iff_kept_subscribeRun :
    Each step FewIds init subscribeRun ∧
      (Always (sendingStep ⟨fun _ => none, fun _ => none⟩ .mqtt) MapRight init subscribeRun ↔
        Each (sendingStep ⟨fun _ => none, fun _ => none⟩ .mqtt) (Kept .mqtt) init subscribeRun) :=
  ⟨by decide, mapRight_iff_kept ⟨fun _ => none, fun _ => none⟩ .mqtt subscribeRun
    ((by decide : Each step FewIds init subscribeRun).of_steps
      fun _ _ _ ht => (sendingStep_eq_ok.1 ht).1)⟩

/-- The SUBACK leaves the SUBSCRIBE in the map. -/
theorem subscribeRun_not_mapRight : ∃ t,
    run (sendingStep ⟨fun _ => none, fun _ => none⟩ .mqtt) init subscribeRun = .ok t ∧
      ¬ MapRight t := by
  have hcall : Permitted .mqtt init (.call (.sendSubscribe (.ofBytes [0x23]) 1)) := by
    refine fun _ => ⟨trivial, ?_⟩
    show (lengthBytes 6).length + 6 ≤ 7
    rw [lengthBytes_short (by decide)]
    decide
  have hsuback (c : Client) :
      Permitted .mqtt c (.receive (.suback 1 [.acceptedQos1] (by decide))) := by
    intro h
    cases h
  refine ⟨_, run_cons_eq_ok.2 ⟨_, sendingStep_eq_ok.2 ⟨rfl, hcall⟩,
    run_cons_eq_ok.2 ⟨_, sendingStep_eq_ok.2 ⟨rfl, hsuback _⟩, rfl⟩⟩, fun hright => ?_⟩
  have hmem := (hright 1 (subscribeMessage (.ofBytes [0x23]) 1 1)).1 (by decide)
  exact absurd hmem.1 (by decide)

end Client

end IotClient.Mqtt
