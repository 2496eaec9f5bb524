import IotClient.Amqp.Session

/-!
# The order of the transfers on a link

A `Session` remembers which topic each delivery id was given to. `InOrder` says that the
transfers fired on a topic have increasing delivery ids and that each follows an ATTACH with
role RECEIVER for the topic. A call decides by the recorded handle, which is there once the
ATTACH was sent, so it may fire ahead of the transfer that is still queued; `OrderKept` rules
this out.
-/

namespace IotClient.Amqp

open Mem Machine

structure Session where
  client : Client
  /-- the delivery ids that were given out, with their topics -/
  calls : List (Int × CString)

/-- The delivery id of a transfer that was fired. -/
def firedId (w : Traffic AmqpHeader) : Option Int :=
  match Client.sentTransfer w with
  | some transfer =>
    match transfer.deliveryId with
    | .ref deliveryId => some deliveryId
    | _ => none
  | none => none

/-- The topic of a received ATTACH with role RECEIVER. -/
def acceptedTopic : Traffic AmqpHeader → Option CString
  | .received header =>
    match header.packet with
    | .ref (.attach attach) =>
      match attach.name, attach.role with
      | .ref name, .ref .receiver => some name
      | _, _ => none
    | _ => none
  | _ => none

/-- The delivery ids of the transfers fired on a topic, in order. -/
def firedOn (wire : List (Traffic AmqpHeader)) (calls : List (Int × CString))
    (topicName : CString) : List Int :=
  (wire.filterMap firedId).filter fun deliveryId => (deliveryId, topicName) ∈ calls

/-- Whatever was fired on a topic stands behind an ATTACH with role RECEIVER for it. -/
def AfterAccept (wire : List (Traffic AmqpHeader)) (calls : List (Int × CString)) : Prop :=
  ∀ before w after deliveryId topicName, wire = before ++ w :: after →
    firedId w = some deliveryId → (deliveryId, topicName) ∈ calls →
      topicName ∈ before.filterMap acceptedTopic

namespace Session

/-- The given delivery ids after an event. -/
def callsAfter (s : Session) : Event → List (Int × CString)
  | .sendTransfer _ topicName _ _ _ => s.calls ++ [(s.client.packetIdCounter, topicName)]
  | _ => s.calls

def step (s : Session) (e : Event) : Run Session := do
  let client ← Amqp.step s.client e
  pure ⟨client, s.callsAfter e⟩

def InOrder (s : Session) : Prop :=
  (∀ topicName, (firedOn s.client.wire s.calls topicName).Pairwise (· < ·)) ∧
    AfterAccept s.client.wire s.calls

/-- A call on a topic with a recorded handle comes when no transfer waits under the handle, and
a new handle, in 16 bits, is not that of another topic. -/
def OrderKept (s : Session) : Event → Prop
  | .sendTransfer _ topicName _ _ _ =>
    (s.client.handleOf topicName ≠ 0 → s.client.mHandler (s.client.handleOf topicName) = none) ∧
    (s.client.handleOf topicName = 0 → mapKey s.client.nextHandle ≠ 0 →
      ∀ other, other ≠ topicName → s.client.handleOf other ≠ mapKey s.client.nextHandle)
  | _ => True

/-- A topic's link: nothing was fired while the topic has no handle or a transfer waits; else
the peer has accepted it. -/
def LinkOk (s : Session) (topicName : CString) : Prop :=
  (s.client.handleOf topicName = 0 → firedOn s.client.wire s.calls topicName = []) ∧
  (s.client.handleOf topicName ≠ 0 →
    (∀ message, s.client.mHandler (s.client.handleOf topicName) = some message →
      firedOn s.client.wire s.calls topicName = [] ∧
        ∃ deliveryId, firedId (.sent message) = some deliveryId ∧
          (deliveryId, topicName) ∈ s.calls) ∧
    (s.client.mHandler (s.client.handleOf topicName) = none →
      topicName ∈ s.client.wire.filterMap acceptedTopic))

structure OrderInv (s : Session) : Prop where
  inv : Client.Inv s.client
  inOrder : s.InOrder
  link : ∀ topicName, s.LinkOk topicName
  distinct : ∀ t u, s.client.handleOf t ≠ 0 → s.client.handleOf t = s.client.handleOf u → t = u
  calls_lt : ∀ deliveryId topicName, (deliveryId, topicName) ∈ s.calls →
    deliveryId < s.client.packetIdCounter
  calls_fun : ∀ deliveryId t u, (deliveryId, t) ∈ s.calls → (deliveryId, u) ∈ s.calls → t = u
  fired : ∀ deliveryId ∈ s.client.wire.filterMap firedId, deliveryId < s.client.packetIdCounter

end Session

variable {wire : List (Traffic AmqpHeader)} {calls : List (Int × CString)} {w : Traffic AmqpHeader}
  {content topicName : CString} {qos retain dup deliveryId : Int}

@[simp] theorem firedId_transferHeader (channel : Cell Int) (content : CString)
    (qos deliveryId handle : Int) :
    firedId (.sent (transferHeader channel content qos deliveryId handle)) = some deliveryId := rfl

theorem firedId_of_none (h : Client.sentTransfer w = none) : firedId w = none := by
  unfold firedId
  rw [h]

@[simp] theorem firedId_received (header : AmqpHeader) : firedId (.received header) = none := rfl

/-! ### Appending to the wire -/

theorem split_snoc {α : Type} {xs before after : List α} {v w : α}
    (h : xs ++ [v] = before ++ w :: after) :
    (before = xs ∧ w = v) ∨ ∃ after', xs = before ++ w :: after' := by
  rcases List.eq_nil_or_concat after with rfl | ⟨after', x, rfl⟩
  · have heq : xs ++ [v] = before ++ [w] := h
    obtain ⟨h1, h2⟩ := List.append_inj' heq rfl
    exact .inl ⟨h1.symm, by simpa using h2.symm⟩
  · rw [List.concat_eq_append, ← List.cons_append, ← List.append_assoc] at h
    exact .inr ⟨after', (List.append_inj' h rfl).1⟩

theorem firedOn_snoc_some (h : firedId w = some deliveryId) :
    firedOn (wire ++ [w]) calls topicName = firedOn wire calls topicName ++
      if (deliveryId, topicName) ∈ calls then [deliveryId] else [] := by
  by_cases hm : (deliveryId, topicName) ∈ calls <;>
    simp [firedOn, List.filterMap_append, List.filter_append, h, hm]

theorem AfterAccept.snoc (ha : AfterAccept wire calls)
    (hw : ∀ deliveryId topicName, firedId w = some deliveryId → (deliveryId, topicName) ∈ calls →
      topicName ∈ wire.filterMap acceptedTopic) : AfterAccept (wire ++ [w]) calls := by
  intro before v after deliveryId topicName hsplit hv hcall
  rcases split_snoc hsplit with ⟨rfl, rfl⟩ | ⟨after', hwire⟩
  · exact hw deliveryId topicName hv hcall
  · exact ha before v after' deliveryId topicName hwire hv hcall

theorem AfterAccept.snoc_none (ha : AfterAccept wire calls) (hw : firedId w = none) :
    AfterAccept (wire ++ [w]) calls :=
  ha.snoc fun _ _ h => nomatch hw.symm.trans h

/-! ### A new delivery id -/

theorem mem_calls_of_ne {n : Int} {name : CString} (hne : deliveryId ≠ n) :
    (deliveryId, topicName) ∈ calls ++ [(n, name)] ↔ (deliveryId, topicName) ∈ calls := by
  simp [hne]

/-- A call changes nothing about the transfers fired before. -/
theorem firedOn_call {n : Int} {name : CString}
    (hlt : ∀ deliveryId ∈ wire.filterMap firedId, deliveryId < n) :
    firedOn wire (calls ++ [(n, name)]) topicName = firedOn wire calls topicName := by
  refine List.filter_congr fun deliveryId hid => ?_
  have hne : deliveryId ≠ n := Int.ne_of_lt (hlt deliveryId hid)
  simp [hne]

theorem afterAccept_call {n : Int} {name : CString} (ha : AfterAccept wire calls)
    (hlt : ∀ deliveryId ∈ wire.filterMap firedId, deliveryId < n) :
    AfterAccept wire (calls ++ [(n, name)]) := by
  intro before v after deliveryId topicName hsplit hv hcall
  have hid : deliveryId ∈ wire.filterMap firedId := by
    rw [List.mem_filterMap]
    exact ⟨v, by simp [hsplit], hv⟩
  rw [mem_calls_of_ne (Int.ne_of_lt (hlt deliveryId hid))] at hcall
  exact ha before v after deliveryId topicName hsplit hv hcall

namespace Session

variable {s t : Session}

/-- `t` is `s` with traffic that is no transfer behind it. -/
structure Extends (s t : Session) : Prop where
  links : Client.SameLinks s.client t.client
  calls : t.calls = s.calls
  wire : ∃ ws, t.client.wire = s.client.wire ++ ws ∧ ∀ w ∈ ws, firedId w = none

theorem firedOn_append {ws : List (Traffic AmqpHeader)} (h : ∀ w ∈ ws, firedId w = none) :
    firedOn (wire ++ ws) calls topicName = firedOn wire calls topicName := by
  have hnil : ws.filterMap firedId = [] := List.filterMap_eq_nil_iff.2 h
  rw [firedOn, List.filterMap_append, hnil, List.append_nil, firedOn]

theorem afterAccept_append {ws : List (Traffic AmqpHeader)} (ha : AfterAccept wire calls)
    (h : ∀ w ∈ ws, firedId w = none) : AfterAccept (wire ++ ws) calls := by
  induction ws using List.reverseRecOn with
  | nil => rwa [List.append_nil]
  | append_singleton ws w ih =>
    rw [← List.append_assoc]
    exact (ih fun v hv => h v (by simp [hv])).snoc_none (h w (by simp))

theorem Extends.handleOf (h : Extends s t) (u : CString) :
    t.client.handleOf u = s.client.handleOf u := by
  rw [Client.handleOf, Client.amqpGetHandlerFromMapOutgoing, h.links.topicNameMapOutgoing]
  rfl

theorem Extends.firedOn_eq (h : Extends s t) (u : CString) :
    firedOn t.client.wire t.calls u = firedOn s.client.wire s.calls u := by
  obtain ⟨ws, hw, hnone⟩ := h.wire
  rw [hw, h.calls, firedOn_append hnone]

theorem Extends.orderInv (h : Extends s t) (hs : OrderInv s) : OrderInv t := by
  obtain ⟨ws, hw, hnone⟩ := h.wire
  have hcounter := h.links.packetIdCounter
  refine ⟨h.links.inv hs.inv, ⟨?_, ?_⟩, ?_, ?_, ?_, ?_, ?_⟩
  · intro u
    rw [h.firedOn_eq]
    exact hs.inOrder.1 u
  · rw [hw, h.calls]
    exact afterAccept_append hs.inOrder.2 hnone
  · intro u
    unfold LinkOk
    rw [h.handleOf, h.firedOn_eq, h.links.mHandler, h.calls, hw, List.filterMap_append]
    obtain ⟨h0, h1⟩ := hs.link u
    refine ⟨h0, fun hne => ⟨(h1 hne).1, fun hm => ?_⟩⟩
    exact List.mem_append_left _ ((h1 hne).2 hm)
  · intro u v
    rw [h.handleOf, h.handleOf]
    exact hs.distinct u v
  · rw [h.calls, hcounter]
    exact hs.calls_lt
  · rw [h.calls]
    exact hs.calls_fun
  · rw [hw, List.filterMap_append, List.filterMap_eq_nil_iff.2 hnone, List.append_nil, hcounter]
    exact hs.fired

/-! ### Calls -/

/-- The session after a delivery id was given to a topic. -/
def call (s : Session) (topicName : CString) : Session where
  client := { s.client with packetIdCounter := s.client.packetIdCounter + 1 }
  calls := s.calls ++ [(s.client.packetIdCounter, topicName)]

theorem mem_call : (s.client.packetIdCounter, topicName) ∈ (s.call topicName).calls := by
  simp [call]

theorem OrderInv.call (hs : OrderInv s) (name : CString) : OrderInv (s.call name) := by
  have hlt : s.client.packetIdCounter < (s.call name).client.packetIdCounter := by
    show s.client.packetIdCounter < s.client.packetIdCounter + 1
    omega
  have hfired : ∀ u, firedOn (s.call name).client.wire (s.call name).calls u =
      firedOn s.client.wire s.calls u := fun u => firedOn_call hs.fired
  refine ⟨hs.inv.of_handlers (Int.le_of_lt hlt) fun _ _ h => h, ⟨?_, ?_⟩, ?_, hs.distinct, ?_, ?_,
    ?_⟩
  · intro u
    rw [hfired]
    exact hs.inOrder.1 u
  · exact afterAccept_call hs.inOrder.2 hs.fired
  · intro u
    unfold LinkOk
    rw [hfired]
    obtain ⟨h0, h1⟩ := hs.link u
    refine ⟨h0, fun hne => ⟨fun message hm => ?_, (h1 hne).2⟩⟩
    obtain ⟨hnil, id, hid, hmem⟩ := (h1 hne).1 message hm
    exact ⟨hnil, id, hid, List.mem_append_left _ hmem⟩
  · intro id u hmem
    simp only [Session.call, mem_snoc, Prod.mk.injEq] at hmem
    rcases hmem with hmem | ⟨rfl, -⟩
    · exact lt_trans (hs.calls_lt id u hmem) hlt
    · exact hlt
  · intro id u v hu hv
    simp only [Session.call, mem_snoc, Prod.mk.injEq] at hu hv
    obtain hu | ⟨rfl, rfl⟩ := hu <;> obtain hv | ⟨hid, hv⟩ := hv
    · exact hs.calls_fun id u v hu hv
    · exact absurd hid (Int.ne_of_lt (hs.calls_lt id u hu))
    · exact absurd rfl (Int.ne_of_lt (hs.calls_lt _ v hv))
    · exact hv.symm
  · intro id hid
    exact lt_trans (hs.fired id hid) hlt

/-! ### Firing -/

/-- `t` is `s` after `w`, the transfer `deliveryId` of the topic, was fired. -/
structure Fires (s t : Session) (w : Traffic AmqpHeader) (deliveryId : Int)
    (topicName : CString) : Prop where
  id : firedId w = some deliveryId
  call : (deliveryId, topicName) ∈ s.calls
  last : ∀ d ∈ firedOn s.client.wire s.calls topicName, d < deliveryId
  accepted : topicName ∈ s.client.wire.filterMap acceptedTopic
  inv : Client.Inv t.client
  wire : t.client.wire = s.client.wire ++ [w]
  calls : t.calls = s.calls
  outgoing : t.client.topicNameMapOutgoing = s.client.topicNameMapOutgoing
  mHandler : t.client.mHandler = s.client.mHandler.erase (s.client.handleOf topicName)
  counter : t.client.packetIdCounter = s.client.packetIdCounter

theorem Fires.handleOf {w : Traffic AmqpHeader} {name : CString}
    (h : Fires s t w deliveryId name) (u : CString) :
    t.client.handleOf u = s.client.handleOf u := by
  rw [Client.handleOf, Client.amqpGetHandlerFromMapOutgoing, h.outgoing]
  rfl

/-- Only the list of the topic grows. -/
theorem Fires.firedOn_eq {w : Traffic AmqpHeader} {name : CString} (hs : OrderInv s)
    (h : Fires s t w deliveryId name) (u : CString) :
    firedOn t.client.wire t.calls u =
      firedOn s.client.wire s.calls u ++ if u = name then [deliveryId] else [] := by
  rw [h.wire, h.calls, firedOn_snoc_some h.id]
  by_cases hu : u = name
  · rw [if_pos hu, if_pos (hu ▸ h.call)]
  · rw [if_neg hu, if_neg fun hcall => hu (hs.calls_fun _ _ _ hcall h.call)]

theorem Fires.orderInv {w : Traffic AmqpHeader} {name : CString} (hs : OrderInv s)
    (h : Fires s t w deliveryId name) (h0 : s.client.handleOf name ≠ 0) : OrderInv t := by
  refine ⟨h.inv, ⟨?_, ?_⟩, ?_, ?_, ?_, ?_, ?_⟩
  · intro u
    rw [h.firedOn_eq hs]
    by_cases hu : u = name
    · subst hu
      rw [if_pos rfl, List.pairwise_append]
      exact ⟨hs.inOrder.1 u, List.pairwise_singleton .., by simpa using h.last⟩
    · rw [if_neg hu, List.append_nil]
      exact hs.inOrder.1 u
  · rw [h.wire, h.calls]
    refine hs.inOrder.2.snoc fun id u hid hu => ?_
    obtain rfl := Option.some.inj (h.id.symm.trans hid)
    rw [hs.calls_fun _ _ _ hu h.call]
    exact h.accepted
  · intro u
    unfold LinkOk
    rw [h.handleOf, h.firedOn_eq hs, h.mHandler, h.calls, h.wire, List.filterMap_append]
    obtain ⟨hzero, hlink⟩ := hs.link u
    by_cases hu : u = name
    · subst hu
      refine ⟨fun hz => absurd hz h0, fun _ => ⟨fun message hm => ?_, fun _ => ?_⟩⟩
      · rw [Table.erase_self] at hm
        cases hm
      · exact List.mem_append_left _ h.accepted
    · rw [if_neg hu, List.append_nil]
      refine ⟨hzero, fun hne => ?_⟩
      have hk : s.client.handleOf u ≠ s.client.handleOf name :=
        fun heq => hu (hs.distinct u name hne heq)
      rw [Table.erase_of_ne hk]
      exact ⟨(hlink hne).1, fun hm => List.mem_append_left _ ((hlink hne).2 hm)⟩
  · intro u v
    rw [h.handleOf, h.handleOf]
    exact hs.distinct u v
  · rw [h.calls, h.counter]
    exact hs.calls_lt
  · rw [h.calls]
    exact hs.calls_fun
  · intro id hid
    rw [h.wire, List.filterMap_append, List.mem_append] at hid
    rw [h.counter]
    rcases hid with hid | hid
    · exact hs.fired id hid
    · obtain rfl : id = deliveryId := by simpa [h.id] using hid
      exact hs.calls_lt _ _ h.call

/-! ### Opening a link -/

/-- `t` is `s` after the transfer `message` of a topic without a handle was queued under `k`. -/
structure Opens (s t : Session) (topicName : CString) (k : UInt16) (message : AmqpHeader) :
    Prop where
  zero : s.client.handleOf topicName = 0
  free : k ≠ 0 → ∀ other, other ≠ topicName → s.client.handleOf other ≠ k
  id : ∃ deliveryId, firedId (.sent message) = some deliveryId ∧ (deliveryId, topicName) ∈ s.calls
  inv : Client.Inv t.client
  wire : ∃ ws, t.client.wire = s.client.wire ++ ws ∧ ∀ w ∈ ws, firedId w = none
  calls : t.calls = s.calls
  outgoing : t.client.topicNameMapOutgoing = s.client.topicNameMapOutgoing.set topicName k
  mHandler : t.client.mHandler = s.client.mHandler.set k message
  counter : t.client.packetIdCounter = s.client.packetIdCounter

theorem Opens.handleOf {name : CString} {k : UInt16} {message : AmqpHeader}
    (h : Opens s t name k message) (u : CString) :
    t.client.handleOf u = if u = name then k else s.client.handleOf u := by
  rw [Client.handleOf, Client.amqpGetHandlerFromMapOutgoing, h.outgoing, Table.set_apply]
  split <;> rfl

theorem Opens.orderInv {name : CString} {k : UInt16} {message : AmqpHeader} (hs : OrderInv s)
    (h : Opens s t name k message) : OrderInv t := by
  obtain ⟨ws, hw, hnone⟩ := h.wire
  have hfired : ∀ u, firedOn t.client.wire t.calls u = firedOn s.client.wire s.calls u := by
    intro u
    rw [hw, h.calls, firedOn_append hnone]
  have hname : firedOn s.client.wire s.calls name = [] := (hs.link name).1 h.zero
  refine ⟨h.inv, ⟨?_, ?_⟩, ?_, ?_, ?_, ?_, ?_⟩
  · intro u
    rw [hfired]
    exact hs.inOrder.1 u
  · rw [hw, h.calls]
    exact afterAccept_append hs.inOrder.2 hnone
  · intro u
    unfold LinkOk
    rw [h.handleOf, hfired, h.mHandler, h.calls, hw, List.filterMap_append]
    by_cases hu : u = name
    · subst hu
      rw [if_pos rfl, Table.set_self]
      exact ⟨fun _ => hname, fun _ => ⟨fun _ hm => ⟨hname, Option.some.inj hm ▸ h.id⟩,
        fun hm => nomatch hm⟩⟩
    · rw [if_neg hu]
      obtain ⟨hzero, hlink⟩ := hs.link u
      refine ⟨hzero, fun hne => ?_⟩
      have hk : s.client.handleOf u ≠ k := by
        by_cases hk0 : k = 0
        · rwa [hk0]
        · exact h.free hk0 u hu
      rw [Table.set_of_ne hk]
      exact ⟨(hlink hne).1, fun hm => List.mem_append_left _ ((hlink hne).2 hm)⟩
  · intro u v hu huv
    rw [h.handleOf] at hu
    rw [h.handleOf, h.handleOf] at huv
    by_cases hun : u = name <;> by_cases hvn : v = name
    · rw [hun, hvn]
    · rw [if_pos hun] at hu
      rw [if_pos hun, if_neg hvn] at huv
      exact absurd huv.symm (h.free hu v hvn)
    · rw [if_neg hun] at hu
      rw [if_neg hun, if_pos hvn] at huv
      exact absurd huv (h.free (huv ▸ hu) u hun)
    · rw [if_neg hun] at hu
      rw [if_neg hun, if_neg hvn] at huv
      exact hs.distinct u v hu huv
  · rw [h.calls, h.counter]
    exact hs.calls_lt
  · rw [h.calls]
    exact hs.calls_fun
  · rw [hw, List.filterMap_append, List.filterMap_eq_nil_iff.2 hnone, List.append_nil, h.counter]
    exact hs.fired

/-! ### Runs -/

theorem step_eq {c : Client} {e : Event} (h : Amqp.step s.client e = .ok c) :
    step s e = .ok ⟨c, s.callsAfter e⟩ := by
  unfold step
  rw [h]
  rfl

theorem acceptedTopic_attach (f : AttachFrame) (hrole : f.role = .receiver) :
    acceptedTopic (.received f.header) = some f.name := by
  simp [acceptedTopic, f.packet_eq, f.name_eq, f.role_eq, hrole]

/-- A call on a recorded handle. -/
theorem fired_fires (hs : OrderInv s) {name : CString} (qos : Int)
    (h0 : s.client.handleOf name ≠ 0)
    (hnone : s.client.mHandler (s.client.handleOf name) = none) :
    Fires (s.call name) ⟨s.client.afterFire content name qos, (s.call name).calls⟩
      (.sent (transferHeader s.client.channel content qos s.client.packetIdCounter
        (s.client.handleOf name).toNat)) s.client.packetIdCounter name where
  id := rfl
  call := mem_call
  last := by
    intro d hd
    have hd' : d ∈ firedOn s.client.wire s.calls name := by rwa [← firedOn_call hs.fired]
    exact hs.fired d (List.mem_filter.1 hd').1
  accepted := ((hs.link name).2 h0).2 hnone
  inv := Client.inv_afterFire hs.inv
  wire := rfl
  calls := rfl
  outgoing := rfl
  mHandler := (Table.erase_of_none hnone).symm
  counter := rfl

/-- The session after a frame that changes nothing was read. -/
def read (s : Session) (header : AmqpHeader) : Session := ⟨s.client.afterRead header, s.calls⟩

theorem extends_read (header : AmqpHeader) : Extends s (s.read header) :=
  ⟨Client.sameLinks_afterRead header, rfl, [.received header], rfl, by simp⟩

/-- An ATTACH that a queued transfer waits for. -/
theorem flushed_fires (hs : OrderInv s) {f : AttachFrame} {channel : Cell Int} {handle : Int}
    (hrole : f.role = .receiver) (h0 : s.client.handleOf f.name ≠ 0)
    (hm : s.client.mHandler (s.client.handleOf f.name) =
      some (transferHeader channel content qos deliveryId handle)) :
    Fires (s.read f.header) ⟨s.client.afterFlush f.header (s.client.handleOf f.name)
        (transferHeader channel content qos deliveryId handle) qos deliveryId, s.calls⟩
      (.sent (transferHeader channel content qos deliveryId handle)) deliveryId f.name := by
  obtain ⟨hnil, id, hid, hcall⟩ := ((hs.link f.name).2 h0).1 _ hm
  obtain rfl : deliveryId = id := Option.some.inj hid
  exact {
    id := rfl
    call := hcall
    last := by
      rw [(extends_read f.header).firedOn_eq, hnil]
      simp
    accepted := by
      show f.name ∈ (s.client.wire ++ [Traffic.received f.header]).filterMap acceptedTopic
      rw [List.filterMap_append, List.mem_append]
      exact .inr (by simp [acceptedTopic_attach f hrole])
    inv := Client.inv_afterFlush hs.inv
    wire := rfl
    calls := rfl
    outgoing := rfl
    mHandler := rfl
    counter := rfl }

theorem effect_orderInv {c : Client} {e : Event} (hs : OrderInv s) (hk : s.OrderKept e)
    (h : Client.Effect s.client e c) : OrderInv ⟨c, s.callsAfter e⟩ := by
  have hinv := h.inv hs.inv
  cases h with
  | fired content name qos retain dup h0 =>
    exact (fired_fires hs qos h0 (hk.1 h0)).orderInv (hs.call name) h0
  | queued content name qos retain dup h0 =>
    have hopens : Opens (s.call name) ⟨s.client.afterQueue content name qos, (s.call name).calls⟩
        name (mapKey s.client.nextHandle) (s.client.queuedHeader content qos) := {
      zero := h0
      free := fun hne other hother => hk.2 h0 hne other hother
      id := ⟨s.client.packetIdCounter, rfl, mem_call⟩
      inv := hinv
      wire := ⟨[_, _], List.append_assoc .., by simp [firedId, Client.sentTransfer, frameHeader]⟩
      calls := rfl
      outgoing := rfl
      mHandler := rfl
      counter := rfl }
    exact hopens.orderInv (hs.call name)
  | flushed f channel content qos id handle hrole h0 _ hm =>
    exact (flushed_fires hs hrole h0 hm).orderInv ((extends_read f.header).orderInv hs) h0
  | settled f =>
    refine Extends.orderInv (s := s) ⟨⟨rfl, rfl, rfl, Int.le_refl _⟩, rfl, [.received f.header],
      rfl, ?_⟩ hs
    simp
  | quiet he h =>
    obtain ⟨ws, hw, hnone⟩ := h.wire
    refine Extends.orderInv (s := s) ⟨h.links, ?_, ws, hw, ?_⟩ hs
    · cases e with
      | sendTransfer => exact he.elim
      | _ => rfl
    · exact fun w hw => firedId_of_none (hnone w hw).1

theorem step_orderInv {e : Event} (hs : OrderInv s) (hk : s.OrderKept e) :
    ∃ t, step s e = .ok t ∧ OrderInv t := by
  obtain ⟨c, hc, heff⟩ := Client.step_effect hs.inv e
  exact ⟨_, step_eq hc, effect_orderInv hs hk heff⟩

/-- A session before its first event. -/
def start (c : Client) : Session := ⟨c, []⟩

theorem orderInv_start {c : Client} (hc : Client.Fresh c) : OrderInv (start c) := by
  have hw : (start c).client.wire = [] := hc.wire
  have hzero : ∀ u, (start c).client.handleOf u = 0 := by
    intro u
    apply Client.handleOf_none
    show c.topicNameMapOutgoing u = none
    rw [hc.topicNameMapOutgoing]
    rfl
  refine ⟨hc.inv, ⟨?_, ?_⟩, ?_, ?_, ?_, ?_, ?_⟩
  · intro u
    rw [hw]
    exact List.Pairwise.nil
  · rw [hw]
    intro before w after _ _ hsplit
    simp at hsplit
  · intro u
    exact ⟨fun _ => by rw [hw]; rfl, fun hne => absurd (hzero u) hne⟩
  · exact fun u _ hne => absurd (hzero u) hne
  · intro _ _ hmem
    cases hmem
  · intro _ _ _ hmem
    cases hmem
  · intro _ hid
    rw [hw] at hid
    cases hid

/-- In every run whose calls keep the order, the transfers fired on each topic are in order and
behind an ATTACH with role RECEIVER for it, after every step. -/
theorem inOrder_of_kept {c : Client} (hc : Client.Fresh c) (es : List Event)
    (hkept : Each step OrderKept (start c) es) : Always step InOrder (start c) es :=
  (always_of_each (fun _ _ hs hk => step_orderInv hs hk) (orderInv_start hc) hkept).mono
    fun _ hs => hs.inOrder

/-- A transfer on a topic, the peer's ATTACH, and a second transfer. -/
def attachedRun : List Event :=
  [.sendTransfer (.ofBytes [0x31]) (.ofBytes [0x74]) 1 0 0,
    .attach (.make (.ofBytes [0x74]) 7 .receiver),
    .sendTransfer (.ofBytes [0x32]) (.ofBytes [0x74]) 1 0 0]

theorem inOrder_of_kept_attachedRun :
    Each step OrderKept (start (.init .anonymous)) attachedRun ∧
      Always step InOrder (start (.init .anonymous)) attachedRun := by
  have hkept : Each step OrderKept (start (.init .anonymous)) attachedRun := by
    refine each_cons.2 ⟨⟨fun h => absurd rfl h, fun _ _ _ _ => ?_⟩, ?_⟩
    · show (0 : UInt16) ≠ 1
      decide
    rintro _ ⟨⟩
    refine each_cons.2 ⟨trivial, ?_⟩
    rintro _ ⟨⟩
    exact each_cons.2 ⟨⟨fun _ => rfl, fun h => absurd h (by decide)⟩, fun _ _ => each_nil⟩
  exact ⟨hkept, inOrder_of_kept (Client.fresh_init .anonymous) attachedRun hkept⟩

/-- Two transfers on a topic before the peer's ATTACH. -/
def overtakenRun : List Event :=
  [.sendTransfer (.ofBytes [0x31]) (.ofBytes [0x74]) 1 0 0,
    .sendTransfer (.ofBytes [0x32]) (.ofBytes [0x74]) 1 0 0,
    .attach (.make (.ofBytes [0x74]) 7 .receiver)]

/-- The second transfer is fired at once, the first one behind it. -/
theorem overtakenRun_not_inOrder :
    ¬ Always step InOrder (start (.init .anonymous)) overtakenRun := by
  intro h
  obtain ⟨t, ht, hpairwise, -⟩ := h overtakenRun (List.prefix_refl _)
  cases ht
  exact absurd (hpairwise (.ofBytes [0x74])) (by decide)

end Session

end IotClient.Amqp
