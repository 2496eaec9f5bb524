import IotClient.Map.Keyed
import IotClient.Mqtt.Sending

/-!
# The timers of an MQTT client (`mqtt/mqtt_timers.c`)

A `Timers` is a client with the threads it has started: the `connect_task`s, which fire every
message of the map five times unless a CONNACK stops them, and the ping threads. Nothing starts a
`message_resend_task`. A round of a thread is one step; `ids` is the order in which it comes to the
entries of the map.

Threads change nothing but the wire: the client is where it would be without them, and what the
rounds add to its wire are messages that it had fired before, each at most five times for every
CONNECT (`timers_repeat`). After the CONNACK nothing is fired again (`quiet_after_connack`).
-/

namespace IotClient.Mqtt

open Mem Machine Map

structure Timers where
  client : Client
  /-- the rounds that each `connect_task` has left; the last one is `connecter` -/
  connecters : List Nat
  /-- the number of `ping_task`s -/
  pingers : Nat
  /-- what the rounds have fired -/
  repeated : List Message
  /-- the number of pings fired -/
  pings : Nat

inductive TimerEvent where
  | client (e : Event)
  | connectRound (i : Nat) (ids : List UInt16)
  | ping

def pingMessage : Message := ⟨.is .pingreq, .indet⟩

namespace Timers

def init : Timers := ⟨.init, [], 0, [], 0⟩

variable (s : Timers)

/-- `pthread_cancel(connecter)` of the thread that `pthread_create` started last. -/
def stopConnectTimer : Run Timers :=
  if s.connecters = [] then .error .nullDeref
  else .ok { s with connecters := s.connecters.set (s.connecters.length - 1) 0 }

/-- What a step of the client does to its threads. -/
def startAndStop : Event → Run Timers
  | .call (.sendConnect _) => .ok { s with connecters := s.connecters ++ [5] }
  | .receive (.connack _ code) => do
    let s ← s.stopConnectTimer
    pure (if (code : Nat) = 0 then { s with pingers := s.pingers + 1 } else s)
  | _ => .ok s

/-- One round of `connect_task`. -/
def connectTask (ids : List UInt16) : Timers :=
  let messages := ids.filterMap s.client.m
  { s with
    client.wire := s.client.wire ++ messages.map .sent
    repeated := s.repeated ++ messages }

/-- A thread that does not run takes no step. -/
def step : TimerEvent → Run Timers
  | .client e => do
    let s ← s.startAndStop e
    let client ← Mqtt.step s.client e
    pure { s with client := client }
  | .connectRound i ids =>
    match s.connecters[i]? with
    | some (n + 1) => pure { s.connectTask ids with connecters := s.connecters.set i n }
    | _ => pure s
  | .ping =>
    if 0 < s.pingers then pure { s with client := s.client.sendPing, pings := s.pings + 1 }
    else pure s

end Timers

/-- The step of the client, if it is one. -/
def TimerEvent.client? : TimerEvent → Option Event
  | .client e => some e
  | _ => none

/-- The step starts a `connect_task`. -/
def TimerEvent.starts : TimerEvent → Bool
  | .client (.call (.sendConnect _)) => true
  | _ => false

/-- A round comes to every entry of the map, once, and a CONNACK answers a CONNECT. -/
def Orderly (s : Timers) : TimerEvent → Prop
  | .connectRound _ ids => Table.Enumerates ids s.client.m
  | .client (.receive (.connack ..)) => s.connecters ≠ []
  | _ => True

/-- A round over the map of `mqtt_timers.c` is one over the table, in some order. -/
theorem fireAll_connectTask {m : Store Message} {s : Timers}
    (h : Map.Represents idKey m s.client.m) : ∃ ids, Table.Enumerates ids s.client.m ∧
      fireAll m.map (fun message c => pure (Client.encodeAndFire c message)) s.client =
        .ok (s.connectTask ids).client := by
  obtain ⟨ids, henum, hfire⟩ := h.fireAll idKey_injective
  refine ⟨ids, henum, ?_⟩
  rw [hfire]
  generalize hw : s.client = c
  have hall (messages : List Message) : ∀ c : Client,
      messages.foldlM (fun c message => (pure (Client.encodeAndFire c message) : Run Client)) c =
        .ok { c with wire := c.wire ++ messages.map .sent } := by
    induction messages with
    | nil =>
      intro c
      rw [List.map_nil, List.append_nil]
      rfl
    | cons message messages ih =>
      intro c
      rw [List.foldlM_cons, pure_eq_ok, ok_bind, ih]
      simp only [Client.encodeAndFire, List.map_cons, List.append_assoc, List.cons_append,
        List.nil_append]
  rw [hall]
  subst hw
  rfl

/-! ### What a step of the client does -/

/-- What a step of a client does, whatever else has gone over its wire. -/
structure Appends (c t : Client) (e : Event) (xs : List (Traffic Message)) : Prop where
  step : Mqtt.step c e = .ok t
  wire : t.wire = c.wire ++ xs
  elsewhere : ∀ w, Mqtt.step { c with wire := w } e = .ok { t with wire := w ++ xs }
  stored : ∀ k message, t.m k = some message →
    c.m k = some message ∨ (mapKey message = .ok k ∧ .sent message ∈ xs)
  connecter : t.connecter = (c.connecter || (TimerEvent.client e).starts)

section Appends

variable {m : Table UInt16 Message} {k l : UInt16} {message r : Message}

theorem stored_set (hkey : mapKey message = .ok k) (h : m.set k message l = some r) :
    m l = some r ∨ (mapKey r = .ok l ∧ Traffic.sent r ∈ [Traffic.sent message]) := by
  rw [Table.set_apply] at h
  split at h
  case isTrue hl =>
    subst hl
    cases h
    exact .inr ⟨hkey, List.mem_singleton_self _⟩
  case isFalse => exact .inl h

theorem stored_erase (h : m.erase k l = some r) : m l = some r := by
  rw [Table.erase_apply] at h
  split at h
  · cases h
  · exact h

variable (c : Client)

/-- A call fires its message, with some packet id. -/
theorem call_appends (f : Call) :
    ∃ t packetId, Appends c t (.call f) [.sent (f.message packetId)] := by
  cases f with
  | sendConnect account =>
    refine ⟨_, 0, rfl, rfl, fun w => rfl, fun k r h => ?_, (Bool.or_true _).symm⟩
    rcases stored_set (m := .empty) (k := 0) rfl h with h | h
    · cases h
    · exact .inr h
  | sendSubscribe topicName qos =>
    exact ⟨_, c.nextId, rfl, rfl, fun w => rfl, fun k r => stored_set rfl, (Bool.or_false _).symm⟩
  | sendUnsubscribe topicName =>
    exact ⟨_, c.nextId, rfl, rfl, fun w => rfl, fun k r => stored_set rfl, (Bool.or_false _).symm⟩
  | sendPublish content topicName qos retain dup =>
    by_cases hq : qos = 0
    · subst hq
      exact ⟨_, 0, rfl, rfl, fun w => rfl, fun k r => stored_set rfl, (Bool.or_false _).symm⟩
    · have hqos : (qos : Nat) ≠ 0 := fun h => hq (Fin.ext h)
      have hstep (d : Client) :
          Mqtt.step d (.call (.sendPublish content topicName qos retain dup)) =
            (d.countPacket.encodeAndFire
              (publishMessage content topicName qos retain dup d.nextId)).addMessageInMap
              (publishMessage content topicName qos retain dup d.nextId) := if_pos hqos
      refine ⟨_, c.nextId, hstep c, ?_, fun w => ?_, fun k r => ?_, (Bool.or_false _).symm⟩
      · rw [Call.message, if_pos hqos]
        rfl
      · rw [Call.message, if_pos hqos]
        exact hstep _
      · rw [Call.message, if_pos hqos]
        exact stored_set rfl

theorem receive_appends (p : BrokerPacket) (h : p.type = .connack → c.connecter = true) :
    ∃ t, Appends c t (.receive p) [.received p.message] := by
  cases p with
  | connack sessionPresent code =>
    have hstep (d : Client) (hd : d.connecter = true) :
        Mqtt.step d (.receive (.connack sessionPresent code)) = .ok (d.afterConnack
          (BrokerPacket.connack sessionPresent code).message ⟨sessionPresent.toNat, code⟩) :=
      processRx_connack hd rfl
    obtain ⟨hm, hw, -, hconn, -⟩ := afterConnack_eq c
      (BrokerPacket.connack sessionPresent code).message ⟨sessionPresent.toNat, code⟩
    refine ⟨_, hstep c (h rfl), hw, fun w => (hstep { c with wire := w } (h rfl)).trans ?_,
      fun k r hr => ?_, hconn.trans (Bool.or_false _).symm⟩
    · unfold Client.afterConnack
      split <;> rfl
    · rw [hm] at hr
      exact .inl (stored_erase hr)
  | _ =>
    exact ⟨_, rfl, rfl, fun w => rfl, fun k r h => .inl h, (Bool.or_false _).symm⟩

end Appends

/-! ### The client among its threads -/

/-- `c` is where the client of `s` would be without its threads. -/
structure Shadows (s : Timers) (c : Client) : Prop where
  client : s.client = { c with wire := s.client.wire }
  order : c.wire.Sublist s.client.wire
  wire : s.client.wire.Perm
    (c.wire ++ (s.repeated ++ .replicate s.pings pingMessage).map .sent)
  stored : ∀ k message, c.m k = some message → mapKey message = .ok k ∧ .sent message ∈ c.wire
  fired : ∀ message ∈ s.repeated, .sent message ∈ c.wire
  rounds : ∀ message, s.repeated.count message + s.connecters.sum ≤ 5 * s.connecters.length
  started : s.connecters ≠ [] → c.connecter = true

theorem shadows_init : Shadows .init .init where
  client := rfl
  order := .slnil
  wire := .refl _
  stored _ _ h := by cases h
  fired _ h := by cases h
  rounds _ := Nat.le_refl _
  started h := absurd rfl h

variable {s t : Timers} {c d : Client}

/-- What the client appends does not depend on what its threads have fired. -/
theorem Shadows.clientStep {e : Event} {xs : List (Traffic Message)} (h : Shadows s c)
    (hd : Appends c d e xs) (connecters : List Nat) (pingers : Nat)
    (hrounds : ∀ n, n + s.connecters.sum ≤ 5 * s.connecters.length →
      n + connecters.sum ≤ 5 * connecters.length)
    (hstarted : connecters ≠ [] → s.connecters ≠ [] ∨ (TimerEvent.client e).starts = true) :
    ∃ client, Mqtt.step s.client e = .ok client ∧
      Shadows { s with client := client, connecters := connecters, pingers := pingers } d := by
  refine ⟨{ d with wire := s.client.wire ++ xs }, ?_, rfl, ?_, ?_, ?_, ?_, ?_, ?_⟩
  · rw [h.client]
    exact hd.elsewhere _
  · rw [hd.wire]
    exact h.order.append (List.Sublist.refl xs)
  · rw [hd.wire, List.append_assoc]
    refine (h.wire.append_right xs).trans ?_
    rw [List.append_assoc]
    exact List.perm_append_comm.append_left _
  · intro k message hm
    rw [hd.wire]
    rcases hd.stored k message hm with hold | ⟨hkey, hnew⟩
    · obtain ⟨hkey, hsent⟩ := h.stored k message hold
      exact ⟨hkey, List.mem_append_left _ hsent⟩
    · exact ⟨hkey, List.mem_append_right _ hnew⟩
  · intro message hm
    rw [hd.wire]
    exact List.mem_append_left _ (h.fired message hm)
  · exact fun message => hrounds _ (h.rounds message)
  · intro hne
    rw [hd.connecter]
    rcases hstarted hne with hold | hnew
    · rw [h.started hold, Bool.true_or]
    · rw [hnew, Bool.or_true]

theorem Shadows.table (h : Shadows s c) : s.client.m = c.m := by
  rw [h.client]

/-- A round fires each message at most once. -/
theorem Shadows.count_round (h : Shadows s c) {ids : List UInt16}
    (hids : Table.Enumerates ids s.client.m) (message : Message) :
    (ids.filterMap s.client.m).count message ≤ 1 := by
  apply List.nodup_iff_count_le_one.1
  refine hids.nodup_values fun k l r hk hl => ?_
  rw [h.table] at hk hl
  exact Except.ok.inj ((h.stored k r hk).1.symm.trans (h.stored l r hl).1)

theorem sum_set {l : List Nat} {i m : Nat} (h : l[i]? = some m) (n : Nat) :
    (l.set i n).sum + m = l.sum + n := by
  induction l generalizing i with
  | nil => simp at h
  | cons a l ih =>
    cases i with
    | zero =>
      simp only [List.getElem?_cons_zero, Option.some.injEq] at h
      simp only [List.set_cons_zero, List.sum_cons]
      omega
    | succ i =>
      rw [List.getElem?_cons_succ] at h
      have := ih h
      simp only [List.set_cons_succ, List.sum_cons]
      omega

theorem Shadows.connackStep (h : Shadows s c) (sessionPresent : Bool) (code : Fin 6)
    (hconn : s.connecters ≠ []) : ∃ t d,
      s.step (.client (.receive (.connack sessionPresent code))) = .ok t ∧
      Mqtt.step c (.receive (.connack sessionPresent code)) = .ok d ∧ Shadows t d ∧
      t.connecters = s.connecters.set (s.connecters.length - 1) 0 := by
  obtain ⟨d, hd⟩ := receive_appends c (.connack sessionPresent code) fun _ => h.started hconn
  have hlen : s.connecters.length - 1 < s.connecters.length := by
    have := List.length_pos_iff.2 hconn
    omega
  have hsum := sum_set (List.getElem?_eq_getElem hlen) 0
  obtain ⟨client, hclient, hshadow⟩ := h.clientStep hd
    (s.connecters.set (s.connecters.length - 1) 0)
    (if (code : Nat) = 0 then s.pingers + 1 else s.pingers)
    (fun n hn => by rw [List.length_set]; omega) (fun _ => .inl hconn)
  refine ⟨_, d, ?_, hd.step, hshadow, rfl⟩
  unfold Timers.step Timers.startAndStop Timers.stopConnectTimer
  simp only [if_neg hconn, ok_bind, pure_eq_ok]
  split
  · simp only [hclient, ok_bind]
  · simp only [hclient, ok_bind]

theorem Shadows.roundStep (h : Shadows s c) {i : Nat} {ids : List UInt16}
    (hids : Table.Enumerates ids s.client.m) :
    ∃ t, s.step (.connectRound i ids) = .ok t ∧ Shadows t c ∧
      t.connecters.length = s.connecters.length := by
  cases hi : s.connecters[i]? with
  | none => exact ⟨s, by simp only [Timers.step, hi, pure_eq_ok], h, rfl⟩
  | some m =>
    cases m with
    | zero => exact ⟨s, by simp only [Timers.step, hi, pure_eq_ok], h, rfl⟩
    | succ n =>
      refine ⟨{ s.connectTask ids with connecters := s.connecters.set i n },
        by simp only [Timers.step, hi, pure_eq_ok], ⟨?_, ?_, ?_, h.stored, ?_, ?_, ?_⟩,
        List.length_set⟩
      · exact congrArg (fun d : Client => { d with
          wire := s.client.wire ++ (ids.filterMap s.client.m).map Traffic.sent }) h.client
      · exact h.order.trans (List.sublist_append_left _ _)
      · refine (h.wire.append_right _).trans ?_
        simp only [Timers.connectTask, List.map_append, List.append_assoc]
        exact (List.perm_append_comm.append_left _).append_left _
      · intro message hmessage
        rcases List.mem_append.1 hmessage with hold | hnew
        · exact h.fired message hold
        · obtain ⟨k, -, hk⟩ := List.mem_filterMap.1 hnew
          rw [h.table] at hk
          exact (h.stored k message hk).2
      · intro message
        have hcount := h.count_round hids message
        have hsum := sum_set hi n
        have hrounds := h.rounds message
        show (s.repeated ++ _).count message + (s.connecters.set i n).sum ≤
          5 * (s.connecters.set i n).length
        rw [List.count_append, List.length_set]
        omega
      · refine fun _ => h.started fun hnil => ?_
        rw [hnil] at hi
        cases hi

theorem Shadows.pingStep (h : Shadows s c) : ∃ t, s.step .ping = .ok t ∧ Shadows t c ∧
    t.connecters = s.connecters := by
  by_cases hp : 0 < s.pingers
  · refine ⟨{ s with client := s.client.sendPing, pings := s.pings + 1 },
      by simp only [Timers.step, if_pos hp, pure_eq_ok], ⟨?_, ?_, ?_, h.stored, h.fired, h.rounds,
        h.started⟩, rfl⟩
    · exact congrArg (fun d : Client => { d with
        wire := s.client.wire ++ [Traffic.sent pingMessage] }) h.client
    · exact h.order.trans (List.sublist_append_left _ _)
    · refine (h.wire.append_right [.sent pingMessage]).trans ?_
      simp only [List.replicate_succ', List.map_append, List.append_assoc, List.map_cons,
        List.map_nil]
      exact .refl _
  · exact ⟨s, by simp only [Timers.step, if_neg hp, pure_eq_ok], h, rfl⟩

theorem Shadows.callStep (h : Shadows s c) (f : Call) : ∃ t d,
    s.step (.client (.call f)) = .ok t ∧ Mqtt.step c (.call f) = .ok d ∧ Shadows t d ∧
      t.connecters = s.connecters ++
        if (TimerEvent.client (.call f)).starts then [5] else [] := by
  obtain ⟨d, packetId, hd⟩ := call_appends c f
  obtain ⟨client, hclient, hshadow⟩ := h.clientStep hd
    (s.connecters ++ if (TimerEvent.client (.call f)).starts then [5] else []) s.pingers
    (fun n hn => by
      rw [List.sum_append, List.length_append]
      split
      · simp only [List.sum_cons, List.sum_nil, List.length_cons, List.length_nil]
        omega
      · simpa using hn)
    (fun hne => by
      by_cases hstart : (TimerEvent.client (.call f)).starts = true
      · exact .inr hstart
      · rw [if_neg hstart, List.append_nil] at hne
        exact .inl hne)
  refine ⟨_, d, ?_, hd.step, hshadow, rfl⟩
  cases f <;> simp only [Timers.step, Timers.startAndStop, ok_bind, hclient, pure_eq_ok,
    TimerEvent.starts, if_true, Bool.false_eq_true, if_false, List.append_nil]

/-- A packet other than a CONNACK starts and stops nothing. -/
theorem Shadows.packetStep (h : Shadows s c) {p : BrokerPacket} (hp : p.type ≠ .connack) : ∃ t d,
    s.step (.client (.receive p)) = .ok t ∧ Mqtt.step c (.receive p) = .ok d ∧ Shadows t d ∧
      t.connecters = s.connecters := by
  obtain ⟨d, hd⟩ := receive_appends c p fun hconn => absurd hconn hp
  obtain ⟨client, hclient, hshadow⟩ := h.clientStep hd s.connecters s.pingers (fun n hn => hn) .inl
  refine ⟨_, d, ?_, hd.step, hshadow, rfl⟩
  cases p with
  | connack sessionPresent code => exact absurd rfl hp
  | _ => simp only [Timers.step, Timers.startAndStop, ok_bind, hclient, pure_eq_ok]

theorem Shadows.step {e : TimerEvent} (h : Shadows s c) (he : Orderly s e) : ∃ t d,
    s.step e = .ok t ∧ run Mqtt.step c e.client?.toList = .ok d ∧ Shadows t d ∧
      t.connecters.length = s.connecters.length + if e.starts then 1 else 0 := by
  have hrun {f : Event} {d : Client} (hd : Mqtt.step c f = .ok d) :
      run Mqtt.step c [f] = .ok d := (run_cons hd).trans rfl
  rcases e with (f | p) | ⟨i, ids⟩ | _
  · obtain ⟨t, d, ht, hd, hshadow, hlen⟩ := h.callStep f
    refine ⟨t, d, ht, hrun hd, hshadow, ?_⟩
    rw [hlen, List.length_append]
    split <;> rfl
  · by_cases hp : p.type = .connack
    · cases p with
      | connack sessionPresent code =>
        obtain ⟨t, d, ht, hd, hshadow, hlen⟩ := h.connackStep sessionPresent code he
        refine ⟨t, d, ht, hrun hd, hshadow, ?_⟩
        rw [hlen, List.length_set]
        rfl
      | _ => cases hp
    · obtain ⟨t, d, ht, hd, hshadow, hlen⟩ := h.packetStep hp
      exact ⟨t, d, ht, hrun hd, hshadow, congrArg List.length hlen⟩
  · obtain ⟨t, ht, hshadow, hlen⟩ := h.roundStep he
    exact ⟨t, c, ht, rfl, hshadow, hlen⟩
  · obtain ⟨t, ht, hshadow, hlen⟩ := h.pingStep
    exact ⟨t, c, ht, rfl, hshadow, congrArg List.length hlen⟩

theorem Shadows.run {es : List TimerEvent} (h : Shadows s c) (hes : Each Timers.step Orderly s es) :
    ∃ t d, Machine.run Timers.step s es = .ok t ∧
      Machine.run Mqtt.step c (es.filterMap TimerEvent.client?) = .ok d ∧ Shadows t d ∧
      t.connecters.length = s.connecters.length + es.countP TimerEvent.starts := by
  induction es generalizing s c with
  | nil => exact ⟨s, c, rfl, rfl, h, rfl⟩
  | cons e es ih =>
    obtain ⟨he, hes⟩ := each_cons.1 hes
    obtain ⟨u, f, hu, hf, hshadow, hlen⟩ := h.step he
    obtain ⟨t, d, ht, hd, hshadow, hlen'⟩ := ih hshadow (hes u hu)
    refine ⟨t, d, (run_cons hu).trans ht, ?_, hshadow, ?_⟩
    · rw [filterMap_cons_toList, run_append hf, hd]
    · rw [hlen', hlen, List.countP_cons]
      omega

/-- Threads change nothing but the wire, where they repeat what the client has fired, each message
at most five times for every CONNECT. -/
theorem timers_repeat {es : List TimerEvent} (hes : Each Timers.step Orderly .init es) :
    ∃ s c, Machine.run Timers.step .init es = .ok s ∧
      Machine.run Mqtt.step .init (es.filterMap TimerEvent.client?) = .ok c ∧
      s.client = { c with wire := s.client.wire } ∧
      c.wire.Sublist s.client.wire ∧
      s.client.wire.Perm (c.wire ++ (s.repeated ++ .replicate s.pings pingMessage).map .sent) ∧
      ∀ message ∈ s.repeated, .sent message ∈ c.wire ∧
        s.repeated.count message ≤ 5 * es.countP TimerEvent.starts := by
  obtain ⟨s, c, hs, hc, h, hlen⟩ := shadows_init.run hes
  refine ⟨s, c, hs, hc, h.client, h.order, h.wire, fun message hm => ⟨h.fired message hm, ?_⟩⟩
  have hrounds := h.rounds message
  have hzero : Timers.init.connecters.length = 0 := rfl
  omega

/-- Four steps: a CONNECT, a round that fires it again, the CONNACK and a ping. -/
def connectRun : List TimerEvent :=
  [.client (.call (.sendConnect .named)), .connectRound 0 [0],
    .client (.receive (.connack false 0)), .ping]

theorem connectRun_orderly : Each Timers.step Orderly .init connectRun := by
  have henum : Table.Enumerates [0]
      (Table.empty.set 0 (connectMessage .named) : Table UInt16 Message) := by
    refine ⟨List.nodup_singleton 0, fun k => ?_⟩
    rw [List.mem_singleton, Table.set_apply]
    split <;> simp_all
  refine each_cons.2 ⟨trivial, ?_⟩
  rintro _ ⟨⟩
  refine each_cons.2 ⟨henum, ?_⟩
  rintro _ ⟨⟩
  refine each_cons.2 ⟨List.cons_ne_nil _ _, ?_⟩
  rintro _ ⟨⟩
  refine each_cons.2 ⟨trivial, ?_⟩
  rintro _ -
  exact each_nil

theorem timers_repeat_connectRun : ∃ s c, Machine.run Timers.step .init connectRun = .ok s ∧
    Machine.run Mqtt.step .init (connectRun.filterMap TimerEvent.client?) = .ok c ∧
    s.client = { c with wire := s.client.wire } ∧
    c.wire.Sublist s.client.wire ∧
    s.client.wire.Perm (c.wire ++ (s.repeated ++ .replicate s.pings pingMessage).map .sent) ∧
    ∀ message ∈ s.repeated, .sent message ∈ c.wire ∧
      s.repeated.count message ≤ 5 * connectRun.countP TimerEvent.starts :=
  timers_repeat connectRun_orderly

/-! ### After the CONNACK -/

/-- No `connect_task` has a round left. -/
def Quiet (s : Timers) : Prop := ∀ n ∈ s.connecters, n = 0

theorem stopConnectTimer_eq (h : s.stopConnectTimer = .ok t) :
    t.connecters = s.connecters.set (s.connecters.length - 1) 0 ∧ t.repeated = s.repeated := by
  unfold Timers.stopConnectTimer at h
  split at h
  · cases h
  · cases h
    exact ⟨rfl, rfl⟩

theorem connack_threads {sessionPresent : Bool} {code : Fin 6}
    (h : s.startAndStop (.receive (.connack sessionPresent code)) = .ok t) :
    t.connecters = s.connecters.set (s.connecters.length - 1) 0 ∧ t.repeated = s.repeated := by
  simp only [Timers.startAndStop, pure_eq_ok] at h
  obtain ⟨u, hu, h⟩ := bind_eq_ok.1 h
  cases h
  have hstop := stopConnectTimer_eq hu
  split
  · exact hstop
  · exact hstop

/-- The threads that a step of the client leaves. -/
theorem startAndStop_threads {e : Event} (h : s.startAndStop e = .ok t) :
    t.repeated = s.repeated ∧
      (t.connecters = s.connecters ++ (if (TimerEvent.client e).starts then [5] else []) ∨
        (TimerEvent.client e).starts = false ∧
          t.connecters = s.connecters.set (s.connecters.length - 1) 0) := by
  rcases e with f | p
  · cases f <;> cases h <;> exact ⟨rfl, .inl (by simp [TimerEvent.starts])⟩
  · cases p with
    | connack sessionPresent code =>
      obtain ⟨hconn, hrep⟩ := connack_threads h
      exact ⟨hrep, .inr ⟨rfl, hconn⟩⟩
    | _ =>
      cases h
      exact ⟨rfl, .inl (List.append_nil _).symm⟩

theorem clientStep_threads {e : Event} (h : s.step (.client e) = .ok t) :
    ∃ u, s.startAndStop e = .ok u ∧ t.connecters = u.connecters ∧ t.repeated = u.repeated := by
  simp only [Timers.step, pure_eq_ok] at h
  obtain ⟨u, hu, h⟩ := bind_eq_ok.1 h
  obtain ⟨client, -, h⟩ := bind_eq_ok.1 h
  cases h
  exact ⟨u, hu, rfl, rfl⟩

theorem connecters_length {e : TimerEvent} (h : s.step e = .ok t) :
    t.connecters.length = s.connecters.length + if e.starts then 1 else 0 := by
  rcases e with e | ⟨i, ids⟩ | _
  · obtain ⟨u, hu, hconn, -⟩ := clientStep_threads h
    rw [hconn]
    rcases (startAndStop_threads hu).2 with hu | ⟨hstart, hu⟩
    · rw [hu, List.length_append]
      split <;> rfl
    · rw [hu, hstart, List.length_set]
      rfl
  · simp only [Timers.step, pure_eq_ok] at h
    split at h
    · cases h
      exact List.length_set
    · cases h
      rfl
  · simp only [Timers.step, pure_eq_ok] at h
    split at h
    · cases h
      rfl
    · cases h
      rfl

theorem Quiet.step {e : TimerEvent} (hs : Quiet s) (hstart : e.starts = false)
    (h : s.step e = .ok t) : Quiet t ∧ t.repeated = s.repeated := by
  rcases e with e | ⟨i, ids⟩ | _
  · obtain ⟨u, hu, hconn, hrep⟩ := clientStep_threads h
    obtain ⟨hrep', hu⟩ := startAndStop_threads hu
    refine ⟨?_, hrep.trans hrep'⟩
    unfold Quiet
    rw [hconn]
    rcases hu with hu | ⟨-, hu⟩
    · rw [hu, hstart, if_neg Bool.false_ne_true, List.append_nil]
      exact hs
    · intro n hn
      rw [hu] at hn
      rcases List.mem_or_eq_of_mem_set hn with hn | rfl
      · exact hs n hn
      · rfl
  · simp only [Timers.step, pure_eq_ok] at h
    split at h
    case h_1 n hi =>
      -- a quiet state has no round to take
      have := hs _ (List.mem_of_getElem? hi)
      omega
    case h_2 =>
      cases h
      exact ⟨hs, rfl⟩
  · simp only [Timers.step, pure_eq_ok] at h
    split at h
    · cases h
      exact ⟨hs, rfl⟩
    · cases h
      exact ⟨hs, rfl⟩

theorem Quiet.run {es : List TimerEvent} (hs : Quiet s) (hstart : ∀ e ∈ es, e.starts = false)
    (h : Machine.run Timers.step s es = .ok t) : t.repeated = s.repeated := by
  induction es generalizing s with
  | nil =>
    cases h
    rfl
  | cons e es ih =>
    obtain ⟨u, hu, h⟩ := run_cons_eq_ok.1 h
    obtain ⟨hquiet, hrep⟩ := hs.step (hstart e List.mem_cons_self) hu
    rw [← hrep]
    exact ih hquiet (fun f hf => hstart f (List.mem_cons_of_mem _ hf)) h

theorem connecters_run {es : List TimerEvent} (h : Machine.run Timers.step s es = .ok t) :
    t.connecters.length = s.connecters.length + es.countP TimerEvent.starts := by
  induction es generalizing s with
  | nil =>
    cases h
    rfl
  | cons e es ih =>
    obtain ⟨u, hu, h⟩ := run_cons_eq_ok.1 h
    rw [ih h, connecters_length hu, List.countP_cons]
    omega

/-- The CONNACK ends the only `connect_task`. -/
theorem quiet_connack (hs : s.connecters.length ≤ 1) {sessionPresent : Bool} {code : Fin 6}
    (h : s.step (.client (.receive (.connack sessionPresent code))) = .ok t) : Quiet t := by
  obtain ⟨u, hu, hconn, -⟩ := clientStep_threads h
  obtain ⟨hset, -⟩ := connack_threads hu
  unfold Quiet
  rw [hconn, hset]
  generalize hc : s.connecters = connecters at hs
  rcases connecters with _ | ⟨m, _ | ⟨l, connecters⟩⟩
  · intro n hn
    cases hn
  · intro n hn
    exact List.mem_singleton.1 hn
  · simp at hs

/-- Once the CONNACK of the only CONNECT has come nothing is fired a second time, until the next
CONNECT. -/
theorem quiet_after_connack {es fs : List TimerEvent} {sessionPresent : Bool} {code : Fin 6}
    {u : Timers} (hs : Machine.run Timers.step .init es = .ok s)
    (hconnack : s.step (.client (.receive (.connack sessionPresent code))) = .ok t)
    (hu : Machine.run Timers.step t fs = .ok u) (hes : es.countP TimerEvent.starts ≤ 1)
    (hfs : ∀ e ∈ fs, e.starts = false) : u.repeated = s.repeated := by
  have hlen : s.connecters.length ≤ 1 := by
    rw [connecters_run hs]
    exact (Nat.zero_add _).le.trans hes
  obtain ⟨v, hv, -, hrep⟩ := clientStep_threads hconnack
  rw [(quiet_connack hlen hconnack).run hfs hu, hrep, (connack_threads hv).2]

theorem quiet_after_connack_connectRun : ∃ s t u : Timers,
    Machine.run Timers.step .init (connectRun.take 2) = .ok s ∧
      s.step (.client (.receive (.connack false 0))) = .ok t ∧
      Machine.run Timers.step t [.connectRound 0 [0], .ping] = .ok u ∧ u.repeated = s.repeated :=
  ⟨_, _, _, rfl, rfl, rfl, @quiet_after_connack _ _ (connectRun.take 2)
    [.connectRound 0 [0], .ping] false 0 _ rfl rfl rfl (by decide) (by decide)⟩

end IotClient.Mqtt
