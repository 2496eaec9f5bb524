import IotClient.Amqp.HandleMaps
import IotClient.Amqp.Ordering

/-!
# The transfer queued by a topic's first call

The first `send_amqp_transfer` on a topic gives the topic a handle and puts its transfer under
that handle into `m_handler`. A topic is then `Waiting` until the first ATTACH with role
RECEIVER for it, which fires the transfer, and `Attached` from then on. `Queued` says the same
about the events of a run, without the maps; the two agree as long as handles are below `2^16`.

A later call on the topic fires a transfer of its own. No delivery id is fired twice (`FiredOnce`),
so neither is a transfer that waited.
-/

namespace IotClient.Amqp

open Mem Machine

/-- A call of `send_amqp_transfer` on the topic. -/
def Event.Transfers (topicName : CString) : Event → Prop
  | sendTransfer _ name _ _ _ => name = topicName
  | _ => False

/-- An ATTACH with role RECEIVER for the topic. -/
def Event.Accepts (topicName : CString) : Event → Prop
  | attach f => f.role = .receiver ∧ f.name = topicName
  | _ => False

namespace Client

/-- After the events `es` the transfer `header` of the topic's first call still waits. -/
def Queued (c : Client) (es : List Event) (topicName : CString) (header : AmqpHeader) : Prop :=
  ∃ pre content qos retain dup mid s,
    es = pre ++ .sendTransfer content topicName qos retain dup :: mid ∧
    (∀ e ∈ pre, ¬ e.Transfers topicName) ∧ (∀ e ∈ mid, ¬ e.Accepts topicName) ∧
    run step c pre = .ok s ∧ header = s.queuedHeader content qos

/-- The next handle stays below `2^16`. -/
def FewHandles (c : Client) (e : Event) : Prop := ∀ t, step c e = .ok t → t.nextHandle ≤ 65535

instance (c : Client) (e : Event) : Decidable (FewHandles c e) :=
  have : DecidablePred fun t : Client => t.nextHandle ≤ 65535 :=
    fun t => inferInstanceAs (Decidable (t.nextHandle ≤ 65535))
  decidableNext (step c e)

/-- Two topics never share a handle of the client. -/
def OutgoingDistinct (c : Client) : Prop :=
  ∀ t u k, c.topicNameMapOutgoing t = some k → c.topicNameMapOutgoing u = some k → t = u

structure QueueInv (c : Client) : Prop where
  inv : Inv c
  next : 1 ≤ c.nextHandle
  own : ∀ t k, c.topicNameMapOutgoing t = some k → k ≠ 0 ∧ (k.toNat : Int) < c.nextHandle
  distinct : OutgoingDistinct c
  queued : ∀ k message, c.mHandler k = some message → ∃ t, c.topicNameMapOutgoing t = some k

/-! ### What a topic's link is -/

def Idle (c : Client) (topicName : CString) : Prop := c.topicNameMapOutgoing topicName = none

def Waiting (c : Client) (topicName : CString) (header : AmqpHeader) : Prop :=
  ∃ k, c.topicNameMapOutgoing topicName = some k ∧ c.mHandler k = some header

def Attached (c : Client) (topicName : CString) : Prop :=
  ∃ k, c.topicNameMapOutgoing topicName = some k ∧ c.mHandler k = none

variable {c t : Client} {content topicName : CString} {qos retain dup : Int} {e : Event}
  {header : AmqpHeader}

theorem mapKey_next (hc : QueueInv c) (h : c.nextHandle ≤ 65534) :
    ((mapKey c.nextHandle).toNat : Int) = c.nextHandle := by
  have h1 := hc.next
  exact short_toNat_ofInt (by omega) (by omega)

theorem QueueInv.ne_next (hc : QueueInv c) (h : c.nextHandle ≤ 65534) {k : UInt16}
    (hk : c.topicNameMapOutgoing topicName = some k) : k ≠ mapKey c.nextHandle := by
  rintro rfl
  have hlt := (hc.own topicName _ hk).2
  rw [mapKey_next hc h] at hlt
  omega

/-- A topic with a handle is not one without. -/
theorem QueueInv.ne_of_zero {name : CString} {k : UInt16} (hc : QueueInv c)
    (hk : c.topicNameMapOutgoing topicName = some k) (h0 : c.handleOf name = 0) :
    topicName ≠ name := by
  rintro rfl
  exact (hc.own _ k hk).1 ((handleOf_some hk).symm.trans h0)

theorem QueueInv.idle_of_zero (hc : QueueInv c) (h : c.handleOf topicName = 0) :
    Idle c topicName := by
  cases hk : c.topicNameMapOutgoing topicName with
  | none => exact hk
  | some k => exact absurd ((handleOf_some hk).symm.trans h) (hc.own topicName k hk).1

theorem Idle.handleOf (h : Idle c topicName) : c.handleOf topicName = 0 := handleOf_none h

/-! ### The invariant -/

theorem SameLinks.queueInv (h : SameLinks c t) (hc : QueueInv c) : QueueInv t := by
  have hle := h.nextHandle
  refine ⟨h.inv hc.inv, le_trans hc.next hle, ?_, ?_, ?_⟩
  · intro u k hk
    rw [h.topicNameMapOutgoing] at hk
    obtain ⟨h0, hlt⟩ := hc.own u k hk
    exact ⟨h0, by omega⟩
  · unfold OutgoingDistinct
    rw [h.topicNameMapOutgoing]
    exact hc.distinct
  · rw [h.mHandler, h.topicNameMapOutgoing]
    exact hc.queued

theorem queueInv_afterQueue (hc : QueueInv c) (hidle : Idle c topicName)
    (hnext : c.nextHandle ≤ 65534) : QueueInv (c.afterQueue content topicName qos) := by
  have h1 := hc.next
  have hkey := mapKey_next hc hnext
  have hset : ∀ u k, (c.afterQueue content topicName qos).topicNameMapOutgoing u = some k →
      (u = topicName ∧ k = mapKey c.nextHandle) ∨ c.topicNameMapOutgoing u = some k := by
    intro u k hk
    change c.topicNameMapOutgoing.set topicName (mapKey c.nextHandle) u = some k at hk
    rw [Table.set_apply] at hk
    split at hk
    · next hu => exact .inl ⟨hu, (Option.some.inj hk).symm⟩
    · exact .inr hk
  refine ⟨inv_afterQueue hc.inv, ?_, ?_, ?_, ?_⟩
  · show 1 ≤ c.nextHandle + 1
    omega
  · intro u k hk
    show k ≠ 0 ∧ (k.toNat : Int) < c.nextHandle + 1
    rcases hset u k hk with ⟨-, rfl⟩ | hk
    · exact ⟨mapKey_ne_zero h1 (by omega), by omega⟩
    · obtain ⟨h0, hlt⟩ := hc.own u k hk
      exact ⟨h0, by omega⟩
  · intro u v k hu hv
    obtain ⟨hu, hk⟩ | hu := hset u k hu <;> obtain ⟨hv, hk'⟩ | hv := hset v k hv
    · rw [hu, hv]
    · exact absurd hk (hc.ne_next hnext hv)
    · exact absurd hk' (hc.ne_next hnext hu)
    · exact hc.distinct u v k hu hv
  · intro k message hm
    change c.mHandler.set (mapKey c.nextHandle) (c.queuedHeader content qos) k = some message at hm
    rw [Table.set_apply] at hm
    split at hm
    · next hk =>
      exact ⟨topicName, by rw [hk]; exact Table.set_self ..⟩
    · obtain ⟨u, hu⟩ := hc.queued k message hm
      have hne : u ≠ topicName := by
        rintro rfl
        unfold Idle at hidle
        rw [hu] at hidle
        cases hidle
      exact ⟨u, (Table.set_of_ne hne).trans hu⟩

theorem Effect.queueInv (h : Effect c e t) (hc : QueueInv c) (hnext : t.nextHandle ≤ 65535) :
    QueueInv t := by
  cases h with
  | fired =>
    exact ⟨inv_afterFire hc.inv, hc.next, hc.own, hc.distinct, hc.queued⟩
  | queued content topicName qos retain dup h0 =>
    have hlt : c.nextHandle + 1 ≤ 65535 := hnext
    exact queueInv_afterQueue hc (hc.idle_of_zero h0) (by omega)
  | flushed =>
    refine ⟨inv_afterFlush hc.inv, hc.next, hc.own, hc.distinct, fun k message hm => ?_⟩
    change c.mHandler.erase _ k = some message at hm
    rw [Table.erase_apply] at hm
    split at hm
    · cases hm
    · exact hc.queued k message hm
  | settled => exact ⟨hc.inv.of_handlers (Int.le_refl _) fun _ _ h => h, hc.next, hc.own,
      hc.distinct, hc.queued⟩
  | quiet _ h => exact h.links.queueInv hc

/-! ### The steps of a topic -/

theorem Effect.idle (h : Effect c e t) (hi : Idle c topicName) (he : ¬ e.Transfers topicName) :
    Idle t topicName := by
  cases h with
  | fired => exact hi
  | queued content name =>
    have hne : topicName ≠ name := fun h => he h.symm
    exact (Table.set_of_ne hne).trans hi
  | flushed => exact hi
  | settled => exact hi
  | quiet _ h => rwa [Idle, h.links.topicNameMapOutgoing]

/-- The first call on a topic queues its transfer. -/
theorem transfer_step (hi : Idle c topicName) :
    step c (.sendTransfer content topicName qos retain dup) =
      .ok (c.afterQueue content topicName qos) ∧
    Waiting (c.afterQueue content topicName qos) topicName (c.queuedHeader content qos) :=
  ⟨step_queue hi.handleOf, mapKey c.nextHandle, Table.set_self .., Table.set_self ..⟩

/-- A queued transfer stays where it is. -/
theorem Effect.waiting (h : Effect c e t) (hc : QueueInv c) (hnext : t.nextHandle ≤ 65535)
    (hw : Waiting c topicName header) (he : ¬ e.Accepts topicName) :
    Waiting t topicName header := by
  obtain ⟨k, hk, hm⟩ := hw
  cases h with
  | fired => exact ⟨k, hk, hm⟩
  | queued content name qos retain dup h0 =>
    have hlt : c.nextHandle + 1 ≤ 65535 := hnext
    have hne := hc.ne_of_zero hk h0
    have hkn : k ≠ mapKey c.nextHandle := hc.ne_next (by omega) hk
    exact ⟨k, (Table.set_of_ne hne).trans hk, (Table.set_of_ne hkn).trans hm⟩
  | flushed f _ _ _ _ _ hrole h0 _ hmf =>
    have hkf : k ≠ c.handleOf f.name := by
      rintro rfl
      exact he ⟨hrole, hc.distinct _ _ _ (outgoing_of_handleOf h0) hk⟩
    exact ⟨k, hk, (Table.erase_of_ne hkf).trans hm⟩
  | settled => exact ⟨k, hk, hm⟩
  | quiet _ h => exact ⟨k, by rwa [h.links.topicNameMapOutgoing], by rwa [h.links.mHandler]⟩

/-- An attached topic stays attached. -/
theorem Effect.attached (h : Effect c e t) (hc : QueueInv c) (hnext : t.nextHandle ≤ 65535)
    (ha : Attached c topicName) : Attached t topicName := by
  obtain ⟨k, hk, hm⟩ := ha
  cases h with
  | fired => exact ⟨k, hk, hm⟩
  | queued content name qos retain dup h0 =>
    have hlt : c.nextHandle + 1 ≤ 65535 := hnext
    have hne := hc.ne_of_zero hk h0
    have hkn : k ≠ mapKey c.nextHandle := hc.ne_next (by omega) hk
    exact ⟨k, (Table.set_of_ne hne).trans hk, (Table.set_of_ne hkn).trans hm⟩
  | flushed f _ _ _ _ _ _ h0 =>
    refine ⟨k, hk, ?_⟩
    show c.mHandler.erase (c.handleOf f.name) k = none
    rw [Table.erase_apply, hm, ite_self]
  | settled => exact ⟨k, hk, hm⟩
  | quiet _ h => exact ⟨k, by rwa [h.links.topicNameMapOutgoing], by rwa [h.links.mHandler]⟩

/-- The ATTACH that a queued transfer waits for fires it. -/
theorem accept_waiting (hc : QueueInv c) {f : AttachFrame} (hrole : f.role = .receiver)
    (hw : Waiting c f.name header) :
    ∃ t, step c (.attach f) = .ok t ∧ Attached t f.name ∧
      t.wire = c.wire ++ [.received f.header] ++ [.sent header] := by
  obtain ⟨k, hk, hm⟩ := hw
  have hkf : c.handleOf f.name = k := handleOf_some hk
  obtain ⟨h0 | hnone, -⟩ | ⟨channel, content, qos, id, handle, h0, -, -, -, hmf, ht⟩ :=
    step_receiver_cases hc.inv f hrole
  · exact absurd (hkf.symm.trans h0) (hc.own _ k hk).1
  · rw [hkf, hm] at hnone
    cases hnone
  · rw [hkf, hm] at hmf
    obtain rfl := Option.some.inj hmf
    refine ⟨_, ht, ⟨k, hk, ?_⟩, rfl⟩
    rw [hkf]
    exact Table.erase_self ..

/-- An ATTACH for a topic without a queued transfer fires nothing. -/
theorem accept_empty {f : AttachFrame} (hrole : f.role = .receiver)
    (he : Idle c f.name ∨ Attached c f.name) :
    step c (.attach f) = .ok (c.afterRead f.header) := by
  rcases he with hi | ⟨k, hk, hm⟩
  · exact step_receiver_zero f hrole hi.handleOf
  · exact step_receiver_none f hrole (by rwa [handleOf_some hk])

/-- An ATTACH with role SENDER fires nothing. -/
theorem senderAttach_wire {f : AttachFrame} (hrole : f.role = .sender) :
    ∃ t, step c (.attach f) = .ok t ∧ t.wire = c.wire ++ [.received f.header] := by
  refine ⟨_, step_sender f hrole, ?_⟩
  rw [processSenderAttach_eq]
  rfl

/-! ### Delivery ids -/

/-- No delivery id was fired twice, and those of the transfers that wait were not fired at all. -/
structure FiredOnce (c : Client) : Prop where
  nodup : (c.wire.filterMap firedId).Nodup
  fired : ∀ deliveryId ∈ c.wire.filterMap firedId, deliveryId < c.packetIdCounter
  waiting : ∀ k message deliveryId, c.mHandler k = some message →
    firedId (.sent message) = some deliveryId →
      deliveryId < c.packetIdCounter ∧ deliveryId ∉ c.wire.filterMap firedId
  distinct : ∀ k l m n deliveryId, c.mHandler k = some m → c.mHandler l = some n →
    firedId (.sent m) = some deliveryId → firedId (.sent n) = some deliveryId → k = l

/-- Nothing was fired, and nothing new waits. -/
theorem FiredOnce.same (h : FiredOnce c) {ws : List (Traffic AmqpHeader)}
    (hwire : t.wire = c.wire ++ ws) (hws : ∀ w ∈ ws, firedId w = none)
    (hm : t.mHandler = c.mHandler) (hcounter : t.packetIdCounter = c.packetIdCounter) :
    FiredOnce t := by
  have hfired : t.wire.filterMap firedId = c.wire.filterMap firedId := by
    rw [hwire, List.filterMap_append, List.filterMap_eq_nil_iff.2 hws, List.append_nil]
  refine ⟨?_, ?_, ?_, ?_⟩
  · rw [hfired]
    exact h.nodup
  · rw [hfired, hcounter]
    exact h.fired
  · rw [hfired, hcounter, hm]
    exact h.waiting
  · rw [hm]
    exact h.distinct

/-- A transfer of a new delivery id is fired. -/
theorem FiredOnce.afterFire (h : FiredOnce c) :
    FiredOnce (c.afterFire content topicName qos) := by
  have hfired : (c.afterFire content topicName qos).wire.filterMap firedId =
      c.wire.filterMap firedId ++ [c.packetIdCounter] := List.filterMap_append
  have hnew : c.packetIdCounter ∉ c.wire.filterMap firedId :=
    fun hmem => Int.lt_irrefl _ (h.fired _ hmem)
  refine ⟨?_, fun deliveryId hid => ?_, fun k message deliveryId hm hid => ?_, h.distinct⟩
  · rw [hfired]
    exact h.nodup.append (List.nodup_singleton _) (List.disjoint_singleton.2 hnew)
  · rw [hfired, List.mem_append, List.mem_singleton] at hid
    show deliveryId < c.packetIdCounter + 1
    rcases hid with hid | rfl
    · have := h.fired deliveryId hid
      omega
    · omega
  · obtain ⟨hlt, hno⟩ := h.waiting k message deliveryId hm hid
    rw [hfired, List.mem_append, List.mem_singleton, not_or]
    exact ⟨Int.lt_trans hlt (Int.lt_succ _), hno, Int.ne_of_lt hlt⟩

/-- A transfer of a new delivery id waits. -/
theorem FiredOnce.afterQueue (h : FiredOnce c) :
    FiredOnce (c.afterQueue content topicName qos) := by
  have hfired : (c.afterQueue content topicName qos).wire.filterMap firedId =
      c.wire.filterMap firedId := by
    change (c.wire ++ [_] ++ [_]).filterMap firedId = _
    rw [List.append_assoc, List.filterMap_append]
    exact List.append_nil _
  have hnew : c.packetIdCounter ∉ c.wire.filterMap firedId :=
    fun hmem => Int.lt_irrefl _ (h.fired _ hmem)
  have hcases (k : UInt16) (message : AmqpHeader)
      (hm : (c.afterQueue content topicName qos).mHandler k = some message) :
      k = mapKey c.nextHandle ∧ message = c.queuedHeader content qos ∨
        c.mHandler k = some message := by
    change c.mHandler.set (mapKey c.nextHandle) (c.queuedHeader content qos) k = some message at hm
    rw [Table.set_apply] at hm
    split at hm
    · next hk => exact .inl ⟨hk, (Option.some.inj hm).symm⟩
    · exact .inr hm
  refine ⟨?_, fun deliveryId hid => ?_, fun k message deliveryId hm hid => ?_,
    fun k l m n deliveryId hk hl hm hn => ?_⟩
  · rw [hfired]
    exact h.nodup
  · rw [hfired] at hid
    exact Int.lt_trans (h.fired deliveryId hid) (Int.lt_succ _)
  · rw [hfired]
    rcases hcases k message hm with ⟨-, rfl⟩ | hm
    · obtain rfl : c.packetIdCounter = deliveryId := Option.some.inj hid
      exact ⟨Int.lt_succ _, hnew⟩
    · obtain ⟨hlt, hno⟩ := h.waiting k message deliveryId hm hid
      exact ⟨Int.lt_trans hlt (Int.lt_succ _), hno⟩
  · rcases hcases k m hk with ⟨rfl, rfl⟩ | hk <;> rcases hcases l n hl with ⟨rfl, rfl⟩ | hl
    · rfl
    · obtain rfl : c.packetIdCounter = deliveryId := Option.some.inj hm
      exact absurd (h.waiting l n _ hl hn).1 (Int.lt_irrefl _)
    · obtain rfl : c.packetIdCounter = deliveryId := Option.some.inj hn
      exact absurd (h.waiting k m _ hk hm).1 (Int.lt_irrefl _)
    · exact h.distinct k l m n deliveryId hk hl hm hn

/-- A transfer that waited is fired, and waits no more. -/
theorem FiredOnce.afterFlush (h : FiredOnce c) {received : AmqpHeader} {k : UInt16}
    {channel : Cell Int} {deliveryId handle : Int}
    (hm : c.mHandler k = some (transferHeader channel content qos deliveryId handle)) :
    FiredOnce (c.afterFlush received k (transferHeader channel content qos deliveryId handle)
      qos deliveryId) := by
  obtain ⟨hlt, hno⟩ := h.waiting k _ deliveryId hm rfl
  have hfired : (c.wire ++ [Traffic.received received] ++
      [Traffic.sent (transferHeader channel content qos deliveryId handle)]).filterMap firedId =
        c.wire.filterMap firedId ++ [deliveryId] := by
    rw [List.append_assoc, List.filterMap_append]
    rfl
  have hleft (l : UInt16) (message : AmqpHeader) (hl : c.mHandler.erase k l = some message) :
      l ≠ k ∧ c.mHandler l = some message := by
    rw [Table.erase_apply] at hl
    split at hl
    · cases hl
    · exact ⟨by assumption, hl⟩
  refine ⟨?_, fun id hid => ?_, fun l message id hl hid => ?_, fun l j m n id hl hj hm hn =>
    h.distinct l j m n id (hleft l m hl).2 (hleft j n hj).2 hm hn⟩
  · change (List.filterMap firedId (c.wire ++ _ ++ _)).Nodup
    rw [hfired]
    exact h.nodup.append (List.nodup_singleton _) (List.disjoint_singleton.2 hno)
  · change id ∈ List.filterMap firedId (c.wire ++ _ ++ _) at hid
    rw [hfired, List.mem_append, List.mem_singleton] at hid
    rcases hid with hid | rfl
    · exact h.fired id hid
    · exact hlt
  · obtain ⟨hne, hold⟩ := hleft l message hl
    obtain ⟨hidlt, hidno⟩ := h.waiting l message id hold hid
    refine ⟨hidlt, ?_⟩
    change id ∉ List.filterMap firedId (c.wire ++ _ ++ _)
    rw [hfired, List.mem_append, List.mem_singleton, not_or]
    refine ⟨hidno, ?_⟩
    rintro rfl
    exact hne (h.distinct l k _ _ id hold hm hid rfl)

theorem Effect.firedOnce (h : Effect c e t) (hc : FiredOnce c) : FiredOnce t := by
  cases h with
  | fired => exact hc.afterFire
  | queued => exact hc.afterQueue
  | flushed f _ _ _ _ _ _ _ _ hm => exact hc.afterFlush hm
  | settled f =>
    have hwire : (c.afterDisposition f).wire = c.wire ++ [.received f.header] := rfl
    refine hc.same hwire (fun w hw => ?_) rfl rfl
    obtain rfl := List.mem_singleton.1 hw
    rfl
  | quiet _ h =>
    obtain ⟨ws, hw, hnone⟩ := h.wire
    exact hc.same hw (fun w hw => firedId_of_none (hnone w hw).1) h.links.mHandler
      h.links.packetIdCounter

theorem Fresh.firedOnce (h : Fresh c) : FiredOnce c := by
  refine ⟨?_, ?_, fun k message deliveryId hm => ?_, fun k l m n deliveryId hm => ?_⟩
  · rw [h.wire]
    exact List.nodup_nil
  · rw [h.wire]
    exact fun deliveryId hid => absurd hid List.not_mem_nil
  · rw [h.mHandler] at hm
    cases hm
  · rw [h.mHandler] at hm
    cases hm

/-! ### Runs -/

variable {s : Client} {es : List Event}

theorem Fresh.queueInv (h : Fresh c) : QueueInv c := by
  refine ⟨h.inv, h.nextHandle, ?_, ?_, ?_⟩
  · intro u k hk
    rw [h.topicNameMapOutgoing] at hk
    cases hk
  · intro u v k hk
    rw [h.topicNameMapOutgoing] at hk
    cases hk
  · intro k message hm
    rw [h.mHandler] at hm
    cases hm

theorem step_queueInv (hc : QueueInv c) (hfew : FewHandles c e) :
    ∃ t, step c e = .ok t ∧ QueueInv t := by
  obtain ⟨t, ht, heff⟩ := step_effect hc.inv e
  exact ⟨t, ht, heff.queueInv hc (hfew t ht)⟩

theorem always_queueInv (hc : QueueInv c) (hfew : Each step FewHandles c es) :
    Always step QueueInv c es :=
  always_of_each (fun _ _ hi hf => step_queueInv hi hf) hc hfew

/-- Every step keeps the invariant and what its effect keeps. -/
theorem run_effect {P : Client → Prop} (hc : QueueInv c) (hp : P c)
    (hfew : Each step FewHandles c es) (hs : run step c es = .ok s)
    (hstep : ∀ c e t, e ∈ es → QueueInv c → P c → t.nextHandle ≤ 65535 → Effect c e t → P t) :
    QueueInv s ∧ P s := by
  refine run_keeps (P := fun c => QueueInv c ∧ P c) ?_ ⟨hc, hp⟩ hfew hs
  rintro c e t he ⟨hi, hp⟩ hf ht
  have heff := effect_of_step hi.inv ht
  exact ⟨heff.queueInv hi (hf t ht), hstep c e t he hi hp (hf t ht) heff⟩

theorem run_idle (hc : QueueInv c) (hi : Idle c topicName) (hfew : Each step FewHandles c es)
    (hs : run step c es = .ok s) (hno : ∀ e ∈ es, ¬ e.Transfers topicName) :
    QueueInv s ∧ Idle s topicName :=
  run_effect hc hi hfew hs fun _ e _ he _ hi _ heff => heff.idle hi (hno e he)

theorem run_waiting (hc : QueueInv c) (hw : Waiting c topicName header)
    (hfew : Each step FewHandles c es) (hs : run step c es = .ok s)
    (hno : ∀ e ∈ es, ¬ e.Accepts topicName) : QueueInv s ∧ Waiting s topicName header :=
  run_effect hc hw hfew hs fun _ e _ he hi hw hn heff => heff.waiting hi hn hw (hno e he)

theorem Queued.waiting (hc : Fresh c) (hfew : Each step FewHandles c es)
    (hs : run step c es = .ok s) (hq : Queued c es topicName header) :
    Waiting s topicName header := by
  obtain ⟨pre, content, qos, retain, dup, mid, u, rfl, hpre, hmid, hu, rfl⟩ := hq
  have hidle : Idle c topicName := by rw [Idle, hc.topicNameMapOutgoing]; rfl
  obtain ⟨huinv, huidle⟩ := run_idle hc.queueInv hidle hfew.left hu hpre
  obtain ⟨hstep, hwait⟩ : step u (.sendTransfer content topicName qos retain dup) =
      .ok (u.afterQueue content topicName qos) ∧ _ := transfer_step huidle
  obtain ⟨hfew1, hfew⟩ := each_cons.1 (hfew.right hu)
  rw [run_append hu, run_cons hstep] at hs
  have hinv := (effect_of_step huinv.inv hstep).queueInv huinv (hfew1 _ hstep)
  exact (run_waiting hinv hwait (hfew _ hstep) hs hmid).2

theorem Queued.snoc (hq : Queued c es topicName header) (he : ¬ e.Accepts topicName) :
    Queued c (es ++ [e]) topicName header := by
  obtain ⟨pre, content, qos, retain, dup, mid, u, rfl, hpre, hmid, hu, rfl⟩ := hq
  refine ⟨pre, content, qos, retain, dup, mid ++ [e], u, by simp, hpre, ?_, hu, rfl⟩
  intro d hd
  rw [mem_snoc] at hd
  rcases hd with hd | rfl
  · exact hmid d hd
  · exact he

/-- A topic was never used, has a queued transfer, or is attached. -/
theorem link_cases (hc : Fresh c) (topicName : CString) (hfew : Each step FewHandles c es)
    (hs : run step c es = .ok s) :
    (Idle s topicName ∧ ∀ e ∈ es, ¬ e.Transfers topicName) ∨
      (∃ header, Queued c es topicName header) ∨ Attached s topicName := by
  induction es using List.reverseRecOn generalizing s with
  | nil =>
    cases hs
    exact .inl ⟨by rw [Idle, hc.topicNameMapOutgoing]; rfl, by simp⟩
  | append_singleton es e ih =>
    obtain ⟨u, hu, hs⟩ := run_append_eq_ok.1 hs
    obtain ⟨t, ht, hs'⟩ := run_cons_eq_ok.1 hs
    cases hs'
    have hinv : QueueInv u := by
      obtain ⟨v, hv, hinv⟩ := always_queueInv hc.queueInv hfew.left es (List.prefix_refl _)
      obtain rfl : v = u := Except.ok.inj (hv.symm.trans hu)
      exact hinv
    have hnext : s.nextHandle ≤ 65535 := hfew es e u (List.prefix_refl _) hu s ht
    have heff := effect_of_step hinv.inv ht
    rcases ih hfew.left hu with ⟨hidle, hno⟩ | ⟨header, hq⟩ | hatt
    · by_cases he : e.Transfers topicName
      · right; left
        cases e with
        | sendTransfer content name qos retain dup =>
          obtain rfl : name = topicName := he
          exact ⟨_, es, content, qos, retain, dup, [], u, rfl, hno, by simp, hu, rfl⟩
        | _ => exact he.elim
      · left
        refine ⟨heff.idle hidle he, fun d hd => ?_⟩
        rw [mem_snoc] at hd
        rcases hd with hd | rfl
        · exact hno d hd
        · exact he
    · by_cases he : e.Accepts topicName
      · right; right
        cases e with
        | attach f =>
          obtain ⟨hrole, rfl⟩ := he
          obtain ⟨v, hv, hatt, -⟩ := accept_waiting hinv hrole (hq.waiting hc hfew.left hu)
          obtain rfl : v = s := Except.ok.inj (hv.symm.trans ht)
          exact hatt
        | _ => exact he.elim
      · exact .inr (.inl ⟨header, hq.snoc he⟩)
    · exact .inr (.inr (heff.attached hinv hnext hatt))

theorem reach_queueInv (hc : Fresh c) {post : List Event}
    (hfew : Each step FewHandles c (es ++ post)) : ∃ s, run step c es = .ok s ∧ QueueInv s :=
  always_queueInv hc.queueInv hfew es (List.prefix_append es post)

/-- An ATTACH with role RECEIVER fires the queued transfer of its topic, if there is one. -/
theorem receiver_wire (hc : Fresh c) {f : AttachFrame} {post : List Event}
    (hfew : Each step FewHandles c (es ++ .attach f :: post)) (hrole : f.role = .receiver) :
    ∃ s t, run step c es = .ok s ∧ step s (.attach f) = .ok t ∧
      (∀ header, Queued c es f.name header →
        t.wire = s.wire ++ [.received f.header, .sent header]) ∧
      ((∀ header, ¬ Queued c es f.name header) → t.wire = s.wire ++ [.received f.header]) := by
  obtain ⟨s, hs, hinv⟩ := reach_queueInv hc hfew
  by_cases hq : ∃ header, Queued c es f.name header
  · obtain ⟨header, hq⟩ := hq
    have hw := hq.waiting hc hfew.left hs
    obtain ⟨t, ht, -, hwire⟩ := accept_waiting hinv hrole hw
    refine ⟨s, t, hs, ht, fun header' hq' => ?_, fun hno => absurd hq (hno header)⟩
    obtain ⟨k, hk, hm⟩ := hw
    obtain ⟨k', hk', hm'⟩ := hq'.waiting hc hfew.left hs
    obtain rfl : k = k' := Option.some.inj (hk.symm.trans hk')
    obtain rfl : header = header' := Option.some.inj (hm.symm.trans hm')
    rw [hwire, List.append_assoc]
    rfl
  · have hempty : Idle s f.name ∨ Attached s f.name := by
      rcases link_cases hc f.name hfew.left hs with ⟨hidle, -⟩ | hex | hatt
      · exact .inl hidle
      · exact absurd hex hq
      · exact .inr hatt
    exact ⟨s, _, hs, accept_empty hrole hempty, fun header hq' => absurd ⟨header, hq'⟩ hq,
      fun _ => rfl⟩

/-- A later call on a topic fires a transfer of its own. -/
theorem transfer_again (hc : Fresh c) {post : List Event}
    (hfew : Each step FewHandles c (es ++ .sendTransfer content topicName qos retain dup :: post))
    (hbefore : ∃ e ∈ es, e.Transfers topicName) :
    ∃ s t k, run step c es = .ok s ∧
      step s (.sendTransfer content topicName qos retain dup) = .ok t ∧
      s.topicNameMapOutgoing topicName = some k ∧
      t.wire = s.wire ++ [.sent (transferHeader s.channel content qos s.packetIdCounter k.toNat)] := by
  obtain ⟨s, hs, hinv⟩ := reach_queueInv hc hfew
  obtain ⟨k, hk⟩ : ∃ k, s.topicNameMapOutgoing topicName = some k := by
    rcases link_cases hc topicName hfew.left hs with ⟨-, hno⟩ | ⟨header, hq⟩ | ⟨k, hk, -⟩
    · obtain ⟨e, he, htransfers⟩ := hbefore
      exact absurd htransfers (hno e he)
    · obtain ⟨k, hk, -⟩ := hq.waiting hc hfew.left hs
      exact ⟨k, hk⟩
    · exact ⟨k, hk⟩
  have hhandle : s.handleOf topicName = k := handleOf_some hk
  refine ⟨s, _, k, hs, step_fire (hhandle ▸ (hinv.own topicName k hk).1), hk, ?_⟩
  unfold afterFire
  rw [hhandle]

theorem always_firedOnce (hc : Fresh c) (hfew : Each step FewHandles c es) :
    Always step FiredOnce c es := by
  have hstep (s : Client) (e : Event) (h : QueueInv s ∧ FiredOnce s) (hf : FewHandles s e) :
      ∃ t, step s e = .ok t ∧ QueueInv t ∧ FiredOnce t := by
    obtain ⟨t, ht, heff⟩ := step_effect h.1.inv e
    exact ⟨t, ht, heff.queueInv h.1 (hf t ht), heff.firedOnce h.2⟩
  exact (always_of_each hstep ⟨hc.queueInv, hc.firedOnce⟩ hfew).mono fun t ht => ht.2

/-- What the steps of a run do with the queued transfers: the first call on a topic queues its
transfer; an ATTACH fires it if and only if it has role RECEIVER and the transfer still waits; a
later call on the topic fires a transfer of its own; other frames and calls fire none. No delivery
id is ever fired twice, and no two topics share a handle. -/
theorem queued_fired_once (hc : Fresh c) (es : List Event) (hfew : Each step FewHandles c es) :
    Always step OutgoingDistinct c es ∧
    Always step (fun s => (s.wire.filterMap firedId).Nodup) c es ∧
    (∀ pre content topicName qos retain dup post,
      es = pre ++ .sendTransfer content topicName qos retain dup :: post →
      (∀ e ∈ pre, ¬ e.Transfers topicName) →
      ∃ s t, run step c pre = .ok s ∧
        step s (.sendTransfer content topicName qos retain dup) = .ok t ∧
        t.wire = s.wire ++ [.queued (s.queuedHeader content qos), .sent (frameHeader s.channel
          .attach (.ref (.attach (senderAttach topicName s.nextHandle))))]) ∧
    (∀ pre content topicName qos retain dup post,
      es = pre ++ .sendTransfer content topicName qos retain dup :: post →
      (∃ e ∈ pre, e.Transfers topicName) →
      ∃ s t k, run step c pre = .ok s ∧
        step s (.sendTransfer content topicName qos retain dup) = .ok t ∧
        s.topicNameMapOutgoing topicName = some k ∧
        t.wire = s.wire ++
          [.sent (transferHeader s.channel content qos s.packetIdCounter k.toNat)]) ∧
    (∀ pre f post, es = pre ++ .attach f :: post →
      ∃ s t, run step c pre = .ok s ∧ step s (.attach f) = .ok t ∧
        (∀ header, f.role = .receiver → Queued c pre f.name header →
          t.wire = s.wire ++ [.received f.header, .sent header]) ∧
        ((f.role = .receiver → ∀ header, ¬ Queued c pre f.name header) →
          t.wire = s.wire ++ [.received f.header])) ∧
    (∀ pre e post, es = pre ++ e :: post → (∀ f, e ≠ .attach f) →
      (∀ topicName, ¬ e.Transfers topicName) →
      ∃ s t ws, run step c pre = .ok s ∧ step s e = .ok t ∧ t.wire = s.wire ++ ws ∧
        ∀ w ∈ ws, sentTransfer w = none) := by
  refine ⟨(always_queueInv hc.queueInv hfew).mono fun t ht => ht.distinct,
    (always_firedOnce hc hfew).mono fun t ht => ht.nodup, ?_, ?_, ?_, ?_⟩
  · rintro pre content topicName qos retain dup post rfl hpre
    obtain ⟨s, hs, hinv⟩ := reach_queueInv hc hfew
    have hidle : Idle c topicName := by rw [Idle, hc.topicNameMapOutgoing]; rfl
    have hs' := run_idle hc.queueInv hidle hfew.left hs hpre
    refine ⟨s, _, hs, (transfer_step hs'.2).1, ?_⟩
    show s.wire ++ [_] ++ [_] = _
    rw [List.append_assoc]
    rfl
  · rintro pre content topicName qos retain dup post rfl hbefore
    exact transfer_again hc hfew hbefore
  · rintro pre f post rfl
    cases hrole : f.role with
    | receiver =>
      obtain ⟨s, t, hs, ht, hq, hno⟩ := receiver_wire hc hfew hrole
      exact ⟨s, t, hs, ht, fun header _ => hq header, fun h => hno (h rfl)⟩
    | sender =>
      obtain ⟨s, hs, hinv⟩ := reach_queueInv hc hfew
      obtain ⟨t, ht, hwire⟩ := senderAttach_wire (c := s) hrole
      exact ⟨s, t, hs, ht, fun _ h => (nomatch h), fun _ => hwire⟩
  · rintro pre e post rfl hna hnt
    obtain ⟨s, hs, hinv⟩ := reach_queueInv hc hfew
    obtain ⟨t, ht, heff⟩ := step_effect hinv.inv e
    cases heff with
    | fired content name => exact absurd rfl (hnt name)
    | queued content name => exact absurd rfl (hnt name)
    | flushed f => exact absurd rfl (hna f)
    | settled f => exact ⟨s, _, [.received f.header], hs, ht, rfl, by simp [sentTransfer]⟩
    | quiet _ h =>
      obtain ⟨ws, hw, hnone⟩ := h.wire
      exact ⟨s, t, ws, hs, ht, hw, fun w hw => (hnone w hw).1⟩

/-- A transfer on the topic `t`, and the peer's ATTACH for it. -/
def attachRun : List Event :=
  [.sendTransfer (.ofBytes [0x31]) (.ofBytes [0x74]) 0 0 0,
    .attach (.make (.ofBytes [0x74]) 7 .receiver)]

/-- The transfer with the handle 1 and the delivery id 1 goes out with the ATTACH. -/
theorem queued_fired_once_attachRun : Each step FewHandles (init .anonymous) attachRun ∧
    ∃ s t, run step (init .anonymous) (attachRun.take 1) = .ok s ∧
      run step s (attachRun.drop 1) = .ok t ∧
      t.wire = s.wire ++ [.received (AttachFrame.make (.ofBytes [0x74]) 7 .receiver).header,
        .sent (transferHeader (.is 0) (.ofBytes [0x31]) 0 1 1)] := by
  have hfew : Each step FewHandles (init .anonymous) attachRun := by decide
  obtain ⟨-, -, -, -, h, -⟩ := queued_fired_once (fresh_init .anonymous) attachRun hfew
  obtain ⟨s, t, hs, ht, hq, -⟩ := h (attachRun.take 1) _ [] rfl
  refine ⟨hfew, s, t, hs, (run_cons ht).trans rfl, hq _ rfl ?_⟩
  exact ⟨[], .ofBytes [0x31], 0, 0, 0, [], init .anonymous, rfl, by simp, by simp, rfl, rfl⟩

end Client

end IotClient.Amqp
