import IotClient.Amqp.Session

/-!
# Unsettled deliveries

`m_delivery_id` should hold the transfers that were fired unsettled and that no DISPOSITION has
covered. A transfer fired on a recorded handle never gets there, and a DISPOSITION removes only
its first delivery id, so a run keeps the map right if and only if its steps do what
`DeliveriesKept` says.
-/

namespace IotClient.Amqp

open Mem Machine

/-- The delivery id of a transfer that was fired with `settled` false. -/
def unsettledId (w : Traffic AmqpHeader) : Option Int :=
  match Client.sentTransfer w with
  | some transfer =>
    match isSettled transfer, transfer.deliveryId with
    | .ok false, .ref deliveryId => some deliveryId
    | _, _ => none
  | none => none

/-- The range from `first` to `last`, `first` alone when `last` is absent. -/
def Covers (disposition : AmqpDisposition) (deliveryId : Int) : Prop :=
  match disposition.first, disposition.last with
  | .ref first, .ref last => first ≤ deliveryId ∧ deliveryId ≤ last
  | .ref first, _ => deliveryId = first
  | _, _ => False

def Unsettled (wire : List (Traffic AmqpHeader)) (deliveryId : Int) : Prop :=
  deliveryId ∈ wire.filterMap unsettledId

instance (wire : List (Traffic AmqpHeader)) (deliveryId : Int) :
    Decidable (Unsettled wire deliveryId) :=
  inferInstanceAs (Decidable (deliveryId ∈ wire.filterMap unsettledId))

def Covered (wire : List (Traffic AmqpHeader)) (deliveryId : Int) : Prop :=
  ∃ disposition ∈ wire.filterMap Client.receivedDisposition, Covers disposition deliveryId

namespace Client

/-- The map has the key `deliveryId`. -/
def HoldsDelivery (c : Client) (deliveryId : Int) : Prop :=
  ∃ k : UInt16, (k.toNat : Int) = deliveryId ∧ c.mDeliveryId k ≠ none

/-- The keys of the map are the unsettled delivery ids that no range has covered. -/
def DeliveriesRight (c : Client) : Prop :=
  ∀ deliveryId, c.HoldsDelivery deliveryId ↔
    Unsettled c.wire deliveryId ∧ ¬ Covered c.wire deliveryId

/-- What keeps the map right. -/
def DeliveriesKept (c : Client) : Event → Prop
  -- an unsettled transfer is queued, or its delivery id was covered before
  | .sendTransfer _ topicName qos _ _ =>
    qos ≠ 0 → c.handleOf topicName ≠ 0 → Covered c.wire c.packetIdCounter
  -- a queued transfer that is fired was not covered before
  | .attach f => f.role = .receiver → c.handleOf f.name ≠ 0 →
    ∀ message, c.mHandler (c.handleOf f.name) = some message →
      ∀ deliveryId, unsettledId (.sent message) = some deliveryId → ¬ Covered c.wire deliveryId
  -- of the ids the map holds the range covers the first, and no other
  | .disposition f => ∀ deliveryId, c.HoldsDelivery deliveryId →
    (Covers f.disposition deliveryId ↔ deliveryId = (mapKey f.first).toNat)
  | _ => True

/-- The delivery ids stay below `2^16`. -/
def FewDeliveries (c : Client) (e : Event) : Prop :=
  ∀ t, step c e = .ok t → t.packetIdCounter ≤ 65536

/-- The fired transfers have delivery ids that were given out. -/
structure DeliveryInv (c : Client) : Prop where
  inv : Inv c
  given : ∀ deliveryId, Unsettled c.wire deliveryId → deliveryId < c.packetIdCounter

variable {c t : Client} {content topicName : CString} {qos retain dup deliveryId : Int}

@[simp] theorem unsettledId_transferHeader (channel : Cell Int) (content : CString)
    (qos deliveryId handle : Int) :
    unsettledId (.sent (transferHeader channel content qos deliveryId handle)) =
      if qos = 0 then none else some deliveryId := by
  change (match isSettled (transferPacket content qos deliveryId handle), Ptr.ref deliveryId with
    | .ok false, .ref deliveryId => some deliveryId
    | _, _ => none) = _
  rw [isSettled_transferPacket]
  by_cases h : qos = 0 <;> simp [h]

theorem mapKey_toNat (h0 : 0 ≤ deliveryId) (h : deliveryId < 65536) :
    ((mapKey deliveryId).toNat : Int) = deliveryId :=
  short_toNat_ofInt h0 h

/-! ### What each step adds -/

theorem unsettled_snoc (wire : List (Traffic AmqpHeader)) (w : Traffic AmqpHeader) :
    Unsettled (wire ++ [w]) deliveryId ↔
      Unsettled wire deliveryId ∨ unsettledId w = some deliveryId := by
  simp [Unsettled, List.filterMap_append, List.mem_append]

theorem covered_snoc (wire : List (Traffic AmqpHeader)) (w : Traffic AmqpHeader) :
    Covered (wire ++ [w]) deliveryId ↔
      Covered wire deliveryId ∨ ∃ d, receivedDisposition w = some d ∧ Covers d deliveryId := by
  simp only [Covered, List.filterMap_append, List.mem_append]
  constructor
  · rintro ⟨d, hd | hd, hcov⟩
    · exact .inl ⟨d, hd, hcov⟩
    · exact .inr ⟨d, by simpa using hd, hcov⟩
  · rintro (⟨d, hd, hcov⟩ | ⟨d, hd, hcov⟩)
    · exact ⟨d, .inl hd, hcov⟩
    · exact ⟨d, .inr (by simpa using hd), hcov⟩

/-- The wire says the same about every delivery id. -/
def SameDeliveries (wire wire' : List (Traffic AmqpHeader)) : Prop :=
  ∀ deliveryId, (Unsettled wire' deliveryId ↔ Unsettled wire deliveryId) ∧
    (Covered wire' deliveryId ↔ Covered wire deliveryId)

theorem sameDeliveries_snoc (wire : List (Traffic AmqpHeader)) {w : Traffic AmqpHeader}
    (hu : unsettledId w = none) (hd : receivedDisposition w = none) :
    SameDeliveries wire (wire ++ [w]) := by
  intro deliveryId
  rw [unsettled_snoc, covered_snoc, hu, hd]
  simp

theorem SameDeliveries.right_iff (h : SameDeliveries c.wire t.wire)
    (hm : t.mDeliveryId = c.mDeliveryId) : DeliveriesRight t ↔ DeliveriesRight c := by
  refine forall_congr' fun deliveryId => ?_
  rw [(h deliveryId).1, (h deliveryId).2, HoldsDelivery, hm]
  rfl

theorem right_of_same (h : SameDeliveries c.wire t.wire) (hm : t.mDeliveryId = c.mDeliveryId)
    (hc : DeliveriesRight c) : DeliveriesRight t := (h.right_iff hm).2 hc

theorem DeliveryInv.of_same (hc : DeliveryInv c) (ht : Inv t)
    (h : SameDeliveries c.wire t.wire) (hle : c.packetIdCounter ≤ t.packetIdCounter) :
    DeliveryInv t := by
  refine ⟨ht, fun deliveryId hu => ?_⟩
  have := hc.given deliveryId ((h deliveryId).1.1 hu)
  omega

/-- A fired transfer leaves the map right only if it is settled or was covered. -/
theorem afterFire_iff (hc : DeliveryInv c) (hr : DeliveriesRight c) :
    DeliveriesRight (c.afterFire content topicName qos) ↔
      (qos ≠ 0 → Covered c.wire c.packetIdCounter) := by
  have hwire : (c.afterFire content topicName qos).wire = c.wire ++ [.sent (transferHeader
    c.channel content qos c.packetIdCounter (c.handleOf topicName).toNat)] := rfl
  by_cases hq : qos = 0
  · refine iff_of_true ?_ fun h => absurd hq h
    refine right_of_same (c := c) ?_ rfl hr
    rw [hwire]
    exact sameDeliveries_snoc _ (by rw [unsettledId_transferHeader, if_pos hq]) rfl
  · have hstep : DeliveriesRight (c.afterFire content topicName qos) ↔
        ∀ deliveryId, c.HoldsDelivery deliveryId ↔
          (Unsettled c.wire deliveryId ∨ c.packetIdCounter = deliveryId) ∧
            ¬ Covered c.wire deliveryId := by
      refine forall_congr' fun deliveryId => ?_
      rw [hwire, unsettled_snoc, covered_snoc]
      simp only [unsettledId_transferHeader, if_neg hq, Option.some.injEq]
      simp only [receivedDisposition, false_and, exists_false, or_false, reduceCtorEq]
      rfl
    rw [hstep]
    constructor
    · intro h _
      by_contra hcov
      have hheld := (h c.packetIdCounter).2 ⟨.inr rfl, hcov⟩
      have hlt := hc.given _ ((hr _).1 hheld).1
      omega
    · intro h deliveryId
      rw [hr deliveryId]
      constructor
      · rintro ⟨hu, hcov⟩
        exact ⟨.inl hu, hcov⟩
      · rintro ⟨hu | rfl, hcov⟩
        · exact ⟨hu, hcov⟩
        · exact absurd (h hq) hcov

/-- The delivery ids of the map after one was set. -/
theorem holdsDelivery_set (h0 : 0 ≤ deliveryId) (h : deliveryId < 65536) {message : AmqpHeader}
    (hm : t.mDeliveryId = c.mDeliveryId.set (mapKey deliveryId) message) (id : Int) :
    t.HoldsDelivery id ↔ c.HoldsDelivery id ∨ id = deliveryId := by
  have hkey := mapKey_toNat h0 h
  constructor
  · rintro ⟨k, hk, hne⟩
    rw [hm, Table.set_apply] at hne
    by_cases hkd : k = mapKey deliveryId
    · right
      rw [← hk, hkd, hkey]
    · rw [if_neg hkd] at hne
      exact .inl ⟨k, hk, hne⟩
  · rintro (⟨k, hk, hne⟩ | rfl)
    · refine ⟨k, hk, ?_⟩
      rw [hm, Table.set_apply]
      split
      · simp
      · exact hne
    · exact ⟨_, hkey, by simp [hm]⟩

theorem afterFlush_iff (hr : DeliveriesRight c) {f : AttachFrame} {channel : Cell Int}
    {handle : Int} {k : UInt16} (h0 : 0 ≤ deliveryId) (hlt : deliveryId < 65536) :
    DeliveriesRight (c.afterFlush f.header k
        (transferHeader channel content qos deliveryId handle) qos deliveryId) ↔
      (qos ≠ 0 → ¬ Covered c.wire deliveryId) := by
  set message := transferHeader channel content qos deliveryId handle with hmessage
  have hwire : (c.afterFlush f.header k message qos deliveryId).wire =
    c.wire ++ [.received f.header] ++ [.sent message] := rfl
  have hread : SameDeliveries c.wire (c.wire ++ [.received f.header]) :=
    sameDeliveries_snoc _ rfl (receivedDisposition_attach f)
  by_cases hq : qos = 0
  · refine iff_of_true ?_ fun h => absurd hq h
    refine right_of_same (c := c) ?_ (if_pos hq) hr
    intro id
    rw [hwire, unsettled_snoc, covered_snoc, hmessage, unsettledId_transferHeader, if_pos hq]
    simpa [receivedDisposition] using hread id
  · have hm : (c.afterFlush f.header k message qos deliveryId).mDeliveryId =
      c.mDeliveryId.set (mapKey deliveryId) message := if_neg hq
    have hstep : DeliveriesRight (c.afterFlush f.header k message qos deliveryId) ↔
        ∀ id, (c.HoldsDelivery id ∨ id = deliveryId) ↔
          (Unsettled c.wire id ∨ deliveryId = id) ∧ ¬ Covered c.wire id := by
      refine forall_congr' fun id => ?_
      rw [holdsDelivery_set h0 hlt hm, hwire, unsettled_snoc, covered_snoc, (hread id).1,
        (hread id).2, hmessage, unsettledId_transferHeader, if_neg hq]
      simp [receivedDisposition]
    rw [hstep]
    constructor
    · intro h _
      exact ((h deliveryId).1 (.inr rfl)).2
    · intro h id
      rw [hr id]
      constructor
      · rintro (⟨hu, hcov⟩ | rfl)
        · exact ⟨.inl hu, hcov⟩
        · exact ⟨.inr rfl, h hq⟩
      · rintro ⟨hu | rfl, hcov⟩
        · exact .inl ⟨hu, hcov⟩
        · exact .inr rfl

/-- The delivery ids of the map after a DISPOSITION. -/
theorem holdsDelivery_erase {k : UInt16} (hm : t.mDeliveryId = c.mDeliveryId.erase k) (id : Int) :
    t.HoldsDelivery id ↔ c.HoldsDelivery id ∧ id ≠ k.toNat := by
  constructor
  · rintro ⟨l, hl, hne⟩
    rw [hm, Table.erase_apply] at hne
    by_cases hlk : l = k
    · exact absurd (if_pos hlk) hne
    · rw [if_neg hlk] at hne
      refine ⟨⟨l, hl, hne⟩, ?_⟩
      rintro rfl
      exact hlk (UInt16.toNat_inj.1 (by exact_mod_cast hl))
  · rintro ⟨⟨l, hl, hne⟩, hid⟩
    refine ⟨l, hl, ?_⟩
    have hlk : l ≠ k := by
      rintro rfl
      exact hid hl.symm
    rwa [hm, Table.erase_of_ne hlk]

theorem disposition_iff (hr : DeliveriesRight c) (f : DispositionFrame) :
    DeliveriesRight (c.afterDisposition f) ↔ DeliveriesKept c (.disposition f) := by
  have hwire : (c.afterDisposition f).wire = c.wire ++ [.received f.header] := rfl
  have hreceived : receivedDisposition (.received f.header) = some f.disposition := by
    simp [receivedDisposition, f.packet_eq]
  have hnone : unsettledId (.received f.header) = none := rfl
  refine forall_congr' fun id => ?_
  rw [holdsDelivery_erase (c := c) rfl, hwire, unsettled_snoc, covered_snoc, hreceived, hnone,
    hr id]
  simp only [reduceCtorEq, or_false, Option.some.injEq, exists_eq_left']
  tauto

/-! ### Runs -/

theorem Quiet.sameDeliveries (h : Quiet c t) : SameDeliveries c.wire t.wire := by
  obtain ⟨ws, hw, hnone⟩ := h.wire
  rw [hw]
  clear hw
  induction ws using List.reverseRecOn with
  | nil => simp [SameDeliveries]
  | append_singleton ws w ih =>
    have hws : SameDeliveries c.wire (c.wire ++ ws) := ih fun v hv => hnone v (by simp [hv])
    obtain ⟨hs, hr⟩ := hnone w (by simp)
    have hu : unsettledId w = none := by rw [unsettledId, hs]
    intro deliveryId
    rw [← List.append_assoc]
    have hsnoc := sameDeliveries_snoc (c.wire ++ ws) hu hr deliveryId
    exact ⟨hsnoc.1.trans (hws deliveryId).1, hsnoc.2.trans (hws deliveryId).2⟩

theorem sameDeliveries_afterQueue :
    SameDeliveries c.wire (c.afterQueue content topicName qos).wire := by
  intro deliveryId
  change (Unsettled (c.wire ++ [_] ++ [_]) deliveryId ↔ _) ∧ (Covered (c.wire ++ [_] ++ [_]) _ ↔ _)
  rw [unsettled_snoc, unsettled_snoc, covered_snoc, covered_snoc]
  simp [unsettledId, sentTransfer, receivedDisposition, frameHeader]

theorem Effect.deliveryInv {e : Event} (h : Effect c e t) (hc : DeliveryInv c) :
    DeliveryInv t := by
  have hinv := h.inv hc.inv
  cases h with
  | fired content topicName qos =>
    refine ⟨hinv, fun deliveryId hu => ?_⟩
    change Unsettled (c.wire ++ [_]) deliveryId at hu
    rw [unsettled_snoc, unsettledId_transferHeader] at hu
    show deliveryId < c.packetIdCounter + 1
    rcases hu with hu | hu
    · have := hc.given deliveryId hu
      omega
    · split at hu
      · cases hu
      · cases hu
        omega
  | queued =>
    refine hc.of_same hinv sameDeliveries_afterQueue ?_
    show c.packetIdCounter ≤ c.packetIdCounter + 1
    omega
  | flushed f channel content qos id handle hrole h0 hid hm =>
    refine ⟨hinv, fun deliveryId hu => ?_⟩
    change Unsettled (c.wire ++ [_] ++ [_]) deliveryId at hu
    rw [unsettled_snoc, unsettled_snoc, unsettledId_transferHeader] at hu
    show deliveryId < c.packetIdCounter
    rcases hu with (hu | hu) | hu
    · exact hc.given deliveryId hu
    · cases hu
    · split at hu
      · cases hu
      · cases hu
        exact hid.2
  | settled f =>
    refine ⟨hinv, fun deliveryId hu => ?_⟩
    change Unsettled (c.wire ++ [_]) deliveryId at hu
    rw [unsettled_snoc] at hu
    rcases hu with hu | hu
    · exact hc.given deliveryId hu
    · cases hu
  | quiet _ h => exact hc.of_same hinv h.sameDeliveries (Int.le_of_eq h.links.packetIdCounter.symm)

theorem QuietEvent.deliveriesKept {e : Event} (h : c.QuietEvent e) : DeliveriesKept c e := by
  cases e with
  | sendTransfer content topicName qos retain dup => exact h.elim
  | disposition f => exact h.elim
  | attach f =>
    intro hrole h0 message hm
    rcases h hrole with h | h
    · exact absurd h h0
    · rw [h] at hm
      cases hm
  | _ => trivial

theorem Effect.deliveries_iff {e : Event} (h : Effect c e t) (hc : DeliveryInv c)
    (hr : DeliveriesRight c) (hfew : t.packetIdCounter ≤ 65536) :
    DeliveriesRight t ↔ DeliveriesKept c e := by
  cases h with
  | fired content topicName qos retain dup h0 =>
    rw [afterFire_iff hc hr]
    exact ⟨fun h hq _ => h hq, fun h hq => h hq h0⟩
  | queued content topicName qos retain dup h0 =>
    refine iff_of_true (right_of_same (c := c) sameDeliveries_afterQueue rfl hr) ?_
    exact fun _ h => absurd h0 h
  | flushed f channel content qos id handle hrole h0 hid hm =>
    have hlt : id < 65536 := lt_of_lt_of_le hid.2 hfew
    rw [afterFlush_iff hr (by omega) hlt]
    constructor
    · intro h _ _ message hm' deliveryId hu
      obtain rfl := Option.some.inj (hm.symm.trans hm')
      rw [unsettledId_transferHeader] at hu
      split at hu
      · cases hu
      · next hq =>
        cases hu
        exact h hq
    · intro h hq
      refine h hrole h0 _ hm id ?_
      rw [unsettledId_transferHeader, if_neg hq]
  | settled f => exact disposition_iff hr f
  | quiet he h => exact iff_of_true (right_of_same h.sameDeliveries h.mDeliveryId hr) he.deliveriesKept

theorem step_deliveries_iff {e : Event} (hc : DeliveryInv c) (hr : DeliveriesRight c)
    (hfew : FewDeliveries c e) :
    (∃ t, step c e = .ok t ∧ DeliveriesRight t) ↔ DeliveriesKept c e := by
  obtain ⟨t, ht, heff⟩ := step_effect hc.inv e
  rw [exists_ok_iff ht]
  exact heff.deliveries_iff hc hr (hfew t ht)

theorem Fresh.deliveryInv (h : Fresh c) : DeliveryInv c := by
  refine ⟨h.inv, fun deliveryId hu => ?_⟩
  rw [h.wire] at hu
  cases hu

theorem Fresh.deliveriesRight (h : Fresh c) : DeliveriesRight c := by
  intro deliveryId
  unfold HoldsDelivery
  rw [h.mDeliveryId, h.wire]
  simp [Unsettled]

/-- In a session with delivery ids below `2^16` the map holds, after every step, exactly the
unsettled deliveries that no range has covered if and only if every step keeps it right. -/
theorem deliveriesRight_iff_kept (hc : Fresh c) (es : List Event)
    (hfew : Each step FewDeliveries c es) :
    Always step DeliveriesRight c es ↔ Each step DeliveriesKept c es :=
  always_iff_each (I := DeliveryInv) (G := FewDeliveries)
    (fun _ _ _ hi _ _ ht _ => (effect_of_step hi.inv ht).deliveryInv hi)
    (fun _ _ hi hr hfew => step_deliveries_iff hi hr hfew)
    hc.deliveryInv hc.deliveriesRight hfew

instance (c : Client) (e : Event) : Decidable (FewDeliveries c e) :=
  have : DecidablePred fun t : Client => t.packetIdCounter ≤ 65536 :=
    fun t => inferInstanceAs (Decidable (t.packetIdCounter ≤ 65536))
  decidableNext (step c e)

/-- Two transfers with QoS 1 on the topic `t`, the peer's ATTACH between them. -/
def secondTransferRun : List Event :=
  [.sendTransfer (.ofBytes [0x31]) (.ofBytes [0x74]) 1 0 0,
    .attach (.make (.ofBytes [0x74]) 1 .receiver),
    .sendTransfer (.ofBytes [0x32]) (.ofBytes [0x74]) 1 0 0]

theorem deliveriesRight_iff_kept_secondTransferRun :
    Each step FewDeliveries (init .anonymous) secondTransferRun ∧
      (Always step DeliveriesRight (init .anonymous) secondTransferRun ↔
        Each step DeliveriesKept (init .anonymous) secondTransferRun) :=
  ⟨by decide, deliveriesRight_iff_kept (fresh_init _) _ (by decide)⟩

/-- The second transfer is unsettled and the map does not have it. -/
theorem secondTransferRun_not_right :
    ¬ Always step DeliveriesRight (init .anonymous) secondTransferRun := by
  intro h
  obtain ⟨t, ht, hright⟩ := h _ (List.prefix_refl _)
  obtain rfl := Except.ok.inj ht
  obtain ⟨k, hk, hne⟩ := (hright 2).2 ⟨by decide, by rintro ⟨d, hd, -⟩; cases hd⟩
  obtain rfl : k = 2 := UInt16.toNat_inj.1 (by exact_mod_cast hk)
  exact hne rfl

end Client

end IotClient.Amqp
