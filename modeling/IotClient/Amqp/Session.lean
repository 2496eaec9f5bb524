import IotClient.Amqp.Client

/-!
# The steps of an AMQP session

One equation for each thing a step of a session can do. A transfer on a topic with a recorded
handle is fired, another one is queued; an ATTACH with role RECEIVER fires the queued transfer
of its topic, if there is one; an ATTACH with role SENDER records the peer's handle.

`Inv` is what every session keeps: the queued transfers are those `send_amqp_transfer` made,
under the keys of their handles, with delivery ids that were given out.
-/

namespace IotClient.Amqp

open Mem Machine

namespace Client

/-- A session begins with empty maps, as OPEN leaves them. -/
structure Fresh (c : Client) : Prop where
  mHandler : c.mHandler = .empty
  mDeliveryId : c.mDeliveryId = .empty
  topicNameMap : c.topicNameMap = .empty
  topicNameMapOutgoing : c.topicNameMapOutgoing = .empty
  reverseTopicNameMap : c.reverseTopicNameMap = .empty
  nextHandle : 1 ≤ c.nextHandle
  packetIdCounter : 1 ≤ c.packetIdCounter
  wire : c.wire = []

theorem fresh_init (account : Account) : Fresh (init account) :=
  ⟨rfl, rfl, rfl, rfl, rfl, Int.le_refl 1, Int.le_refl 1, rfl⟩

/-- The recorded handle of the client's own link for a topic, 0 when there is none. -/
abbrev handleOf (c : Client) (topicName : CString) : UInt16 :=
  c.amqpGetHandlerFromMapOutgoing topicName

variable {c t : Client} {topicName content : CString} {qos retain dup : Int}

theorem handleOf_some {k : UInt16} (h : c.topicNameMapOutgoing topicName = some k) :
    c.handleOf topicName = k := by
  rw [handleOf, amqpGetHandlerFromMapOutgoing, h]
  rfl

theorem handleOf_none (h : c.topicNameMapOutgoing topicName = none) :
    c.handleOf topicName = 0 := by
  rw [handleOf, amqpGetHandlerFromMapOutgoing, h]
  rfl

theorem outgoing_of_handleOf (h : c.handleOf topicName ≠ 0) :
    c.topicNameMapOutgoing topicName = some (c.handleOf topicName) := by
  cases ho : c.topicNameMapOutgoing topicName with
  | none => exact absurd (handleOf_none ho) h
  | some k => rw [handleOf_some ho]

/-! ### Transfers -/

/-- The state after a transfer was fired on a recorded handle. -/
def afterFire (c : Client) (content topicName : CString) (qos : Int) : Client :=
  { c with
    packetIdCounter := c.packetIdCounter + 1
    wire := c.wire ++ [.sent (transferHeader c.channel content qos c.packetIdCounter
      (c.handleOf topicName).toNat)] }

/-- The transfer that a call queues. -/
def queuedHeader (c : Client) (content : CString) (qos : Int) : AmqpHeader :=
  transferHeader c.channel content qos c.packetIdCounter c.nextHandle

/-- The state after a transfer was queued and the ATTACH of its link was fired. -/
def afterQueue (c : Client) (content topicName : CString) (qos : Int) : Client :=
  { c with
    packetIdCounter := c.packetIdCounter + 1
    nextHandle := c.nextHandle + 1
    topicNameMapOutgoing := c.topicNameMapOutgoing.set topicName (mapKey c.nextHandle)
    reverseTopicNameMap := c.reverseTopicNameMap.set (mapKey c.nextHandle) topicName
    mHandler := c.mHandler.set (mapKey c.nextHandle) (c.queuedHeader content qos)
    wire := c.wire ++ [.queued (c.queuedHeader content qos)] ++
      [.sent (frameHeader c.channel .attach (.ref (.attach (senderAttach topicName
        c.nextHandle))))] }

theorem step_fire (h : c.handleOf topicName ≠ 0) :
    step c (.sendTransfer content topicName qos retain dup) =
      .ok (c.afterFire content topicName qos) :=
  congrArg Except.ok (if_pos h)

theorem step_queue (h : c.handleOf topicName = 0) :
    step c (.sendTransfer content topicName qos retain dup) =
      .ok (c.afterQueue content topicName qos) :=
  congrArg Except.ok (if_neg (not_not_intro h))

/-! ### Frames of the peer -/

/-- The state after a frame that changes nothing was read. -/
def afterRead (c : Client) (header : AmqpHeader) : Client :=
  { c with wire := c.wire ++ [.received header] }

/-- The state after the queued transfer under the key `k` was fired. -/
def afterFlush (c : Client) (received : AmqpHeader) (k : UInt16) (message : AmqpHeader)
    (qos deliveryId : Int) : Client :=
  { c with
    wire := c.wire ++ [.received received] ++ [.sent message]
    mHandler := c.mHandler.erase k
    mDeliveryId :=
      if qos = 0 then c.mDeliveryId else c.mDeliveryId.set (mapKey deliveryId) message }

theorem ofByte_attach : HeaderCode.ofByte HeaderCode.attach.toByte = some .attach :=
  HeaderCode.ofByte_toByte _

theorem processAmqpRx_attach (f : AttachFrame) :
    c.processAmqpRx f.header = (c.afterRead f.header).processAttach f.header := by
  unfold processAmqpRx
  rw [f.code_eq, Cell.get_is, ok_bind, ofByte_attach]
  rfl

theorem castAttach_ref {header : AmqpHeader} {p : AmqpAttach}
    (h : header.packet = .ref (.attach p)) : castAttach header = .ok p := by
  unfold castAttach castPacket
  rw [h]
  rfl

theorem castDisposition_ref {header : AmqpHeader} {p : AmqpDisposition}
    (h : header.packet = .ref (.disposition p)) : castDisposition header = .ok p := by
  unfold castDisposition castPacket
  rw [h]
  rfl

theorem castDetach_ref {header : AmqpHeader} {p : AmqpDetach}
    (h : header.packet = .ref (.detach p)) : castDetach header = .ok p := by
  unfold castDetach castPacket
  rw [h]
  rfl

theorem castTransfer_transferHeader (channel : Cell Int) (deliveryId handle : Int) :
    castTransfer (transferHeader channel content qos deliveryId handle) =
      .ok (transferPacket content qos deliveryId handle) := rfl

theorem step_receiver (f : AttachFrame) (hrole : f.role = .receiver) :
    step c (.attach f) = (c.afterRead f.header).processReceiverAttach f.name := by
  rw [step, processAmqpRx_attach, processAttach, castAttach_ref f.packet_eq, ok_bind, f.role_eq, f.name_eq,
    hrole]
  rfl

theorem step_sender (f : AttachFrame) (hrole : f.role = .sender) :
    step c (.attach f) = .ok ((c.afterRead f.header).processSenderAttach f.name f.handle) := by
  rw [step, processAmqpRx_attach, processAttach, castAttach_ref f.packet_eq, ok_bind, f.role_eq, f.name_eq,
    f.handle_eq, hrole]
  rfl

theorem step_receiver_zero (f : AttachFrame) (hrole : f.role = .receiver)
    (h : c.handleOf f.name = 0) : step c (.attach f) = .ok (c.afterRead f.header) :=
  (step_receiver f hrole).trans (if_neg (not_not_intro h))

/-- The message that waits for the handle of a topic. -/
theorem afterRead_mHandler (header : AmqpHeader) (name : CString) :
    (c.afterRead header).mHandler ((c.afterRead header).amqpGetHandlerFromMapOutgoing name) =
      c.mHandler (c.handleOf name) := rfl

theorem step_receiver_none (f : AttachFrame) (hrole : f.role = .receiver)
    (h : c.mHandler (c.handleOf f.name) = none) : step c (.attach f) = .ok (c.afterRead f.header) := by
  by_cases h0 : c.handleOf f.name = 0
  · exact step_receiver_zero f hrole h0
  · rw [step_receiver f hrole, processReceiverAttach]
    refine (if_pos h0).trans ?_
    rw [afterRead_mHandler, h]
    rfl

theorem isSettled_transferPacket (deliveryId handle : Int) :
    isSettled (transferPacket content qos deliveryId handle) = .ok (decide (qos = 0)) := by
  by_cases h : qos = 0 <;> simp [isSettled, transferPacket, h]

theorem step_receiver_some (f : AttachFrame) (hrole : f.role = .receiver)
    (h0 : c.handleOf f.name ≠ 0) {channel : Cell Int} {deliveryId handle : Int}
    (h : c.mHandler (c.handleOf f.name) =
      some (transferHeader channel content qos deliveryId handle)) :
    step c (.attach f) = .ok (c.afterFlush f.header (c.handleOf f.name)
      (transferHeader channel content qos deliveryId handle) qos deliveryId) := by
  rw [step_receiver f hrole, processReceiverAttach]
  refine (if_pos h0).trans ?_
  rw [afterRead_mHandler, h]
  change (castTransfer (transferHeader channel content qos deliveryId handle) >>= _) = _
  rw [castTransfer_transferHeader, ok_bind, isSettled_transferPacket, ok_bind]
  by_cases hq : qos = 0
  · unfold afterFlush
    rw [if_pos hq]
    exact if_pos (decide_eq_true hq)
  · unfold afterFlush
    rw [if_neg hq]
    exact if_neg (by simpa using hq)

/-- The state after a DISPOSITION was read. -/
def afterDisposition (c : Client) (f : DispositionFrame) : Client :=
  { c.afterRead f.header with mDeliveryId := c.mDeliveryId.erase (mapKey f.first) }

theorem step_disposition (f : DispositionFrame) :
    step c (.disposition f) = .ok (c.afterDisposition f) := by
  rw [step, processAmqpRx, f.code_eq, Cell.get_is, ok_bind, HeaderCode.ofByte_toByte]
  change (c.afterRead f.header).processDisposition f.header = _
  unfold processDisposition
  rw [castDisposition_ref f.packet_eq, ok_bind, f.first_eq]
  by_cases h : c.mDeliveryId (mapKey f.first) = none
  · unfold afterDisposition
    rw [Table.erase_of_none h]
    exact if_pos h
  · exact if_neg h

theorem processAmqpRx_detach (f : DetachFrame) :
    c.processAmqpRx f.header = (c.afterRead f.header).processDetach f.header := by
  unfold processAmqpRx
  rw [f.code_eq, Cell.get_is, ok_bind, HeaderCode.ofByte_toByte]
  rfl

theorem step_detach_none (f : DetachFrame) (h : c.reverseTopicNameMap (mapKey f.handle) = none) :
    step c (.detach f) = .ok (c.afterRead f.header) := by
  rw [step, processAmqpRx_detach, processDetach, castDetach_ref f.packet_eq, ok_bind, f.handle_eq,
    Ptr.deref_ref, ok_bind,
    show (c.afterRead f.header).reverseTopicNameMap (mapKey f.handle) = none from h]
  rfl

/-- The state after the DETACH of a topic's handle was read. -/
def afterDetach (c : Client) (f : DetachFrame) (topicName : CString) : Client :=
  { c.afterRead f.header with
    topicNameMap := c.topicNameMap.erase topicName
    reverseTopicNameMap := c.reverseTopicNameMap.erase (mapKey f.handle) }

theorem step_detach_some (f : DetachFrame) {topicName : CString}
    (h : c.reverseTopicNameMap (mapKey f.handle) = some topicName) :
    step c (.detach f) = .ok (c.afterDetach f topicName) := by
  rw [step, processAmqpRx_detach, processDetach, castDetach_ref f.packet_eq, ok_bind, f.handle_eq,
    Ptr.deref_ref, ok_bind,
    show (c.afterRead f.header).reverseTopicNameMap (mapKey f.handle) = some topicName from h]
  rfl

/-! ### What stays the same -/

/-- The transfers and the client's own links are as they were. -/
structure SameLinks (c t : Client) : Prop where
  mHandler : t.mHandler = c.mHandler
  topicNameMapOutgoing : t.topicNameMapOutgoing = c.topicNameMapOutgoing
  packetIdCounter : t.packetIdCounter = c.packetIdCounter
  nextHandle : c.nextHandle ≤ t.nextHandle

theorem sameLinks_afterRead (header : AmqpHeader) : SameLinks c (c.afterRead header) :=
  ⟨rfl, rfl, rfl, Int.le_refl _⟩

theorem processSenderAttach_eq (name : CString) (handle : Int) :
    c.processSenderAttach name handle = { c with
      topicNameMap :=
        if c.amqpGetHandlerFromMap name = 0 then c.topicNameMap.set name (mapKey handle)
        else c.topicNameMap
      reverseTopicNameMap :=
        if c.amqpGetHandlerFromMap name = 0 then c.reverseTopicNameMap.set (mapKey handle) name
        else c.reverseTopicNameMap
      nextHandle := if handle ≥ c.nextHandle then handle + 1 else c.nextHandle } := by
  by_cases h0 : c.amqpGetHandlerFromMap name = 0 <;> by_cases hle : handle ≥ c.nextHandle <;>
    simp only [processSenderAttach, amqpAddHandlerInMap, amqpAddTopicNameInMap, if_pos, if_neg,
      h0, hle, not_false_eq_true]

theorem sameLinks_senderAttach (name : CString) (handle : Int) :
    SameLinks c (c.processSenderAttach name handle) := by
  rw [processSenderAttach_eq]
  refine ⟨rfl, rfl, rfl, ?_⟩
  dsimp only
  split <;> omega

/-! ### The queued transfers -/

/-- A queued transfer is one that was made with its handle and a delivery id given out. -/
def Made (c : Client) (k : UInt16) (message : AmqpHeader) : Prop :=
  ∃ channel content qos deliveryId handle,
    message = transferHeader channel content qos deliveryId handle ∧
      1 ≤ deliveryId ∧ deliveryId < c.packetIdCounter ∧ mapKey handle = k

structure Inv (c : Client) : Prop where
  counter : 1 ≤ c.packetIdCounter
  made : ∀ k message, c.mHandler k = some message → Made c k message

theorem Fresh.inv (h : Fresh c) : Inv c := by
  refine ⟨h.packetIdCounter, ?_⟩
  intro k message hm
  rw [h.mHandler] at hm
  cases hm

theorem Made.mono {k : UInt16} {message : AmqpHeader} (h : Made c k message)
    (hle : c.packetIdCounter ≤ t.packetIdCounter) : Made t k message := by
  obtain ⟨channel, content, qos, deliveryId, handle, rfl, h1, hlt, hk⟩ := h
  exact ⟨channel, content, qos, deliveryId, handle, rfl, h1, by omega, hk⟩

theorem Inv.of_handlers (hc : Inv c) (hcounter : c.packetIdCounter ≤ t.packetIdCounter)
    (hm : ∀ k message, t.mHandler k = some message → c.mHandler k = some message) : Inv t := by
  have h1 := hc.counter
  refine ⟨by omega, fun k message h => ?_⟩
  exact (hc.made k message (hm k message h)).mono hcounter

theorem SameLinks.inv (h : SameLinks c t) (hc : Inv c) : Inv t := by
  refine hc.of_handlers (Int.le_of_eq h.packetIdCounter.symm) fun k message hm => ?_
  rwa [h.mHandler] at hm

theorem inv_afterFire (hc : Inv c) : Inv (c.afterFire content topicName qos) := by
  refine hc.of_handlers ?_ fun k message hm => hm
  show c.packetIdCounter ≤ c.packetIdCounter + 1
  omega

theorem inv_afterQueue (hc : Inv c) : Inv (c.afterQueue content topicName qos) := by
  have h1 := hc.counter
  have hle : c.packetIdCounter ≤ (c.afterQueue content topicName qos).packetIdCounter := by
    show c.packetIdCounter ≤ c.packetIdCounter + 1
    omega
  refine ⟨by omega, fun k message hm => ?_⟩
  change c.mHandler.set (mapKey c.nextHandle) (c.queuedHeader content qos) k = some message at hm
  rw [Table.set_apply] at hm
  split at hm
  · next hk =>
    cases hm
    refine ⟨_, _, _, _, _, rfl, h1, ?_, hk.symm⟩
    show c.packetIdCounter < c.packetIdCounter + 1
    omega
  · exact (hc.made k message hm).mono hle

theorem inv_afterFlush {received message : AmqpHeader} {k : UInt16} {deliveryId : Int}
    (hc : Inv c) : Inv (c.afterFlush received k message qos deliveryId) := by
  refine hc.of_handlers (Int.le_refl _) fun l m hm => ?_
  change c.mHandler.erase k l = some m at hm
  rw [Table.erase_apply] at hm
  split at hm
  · cases hm
  · exact hm

/-- What an ATTACH with role RECEIVER does: it fires the transfer queued for its topic. -/
theorem step_receiver_cases (hc : Inv c) (f : AttachFrame) (hrole : f.role = .receiver) :
    (c.handleOf f.name = 0 ∨ c.mHandler (c.handleOf f.name) = none) ∧
        step c (.attach f) = .ok (c.afterRead f.header) ∨
      ∃ channel content qos deliveryId handle,
        c.handleOf f.name ≠ 0 ∧ 1 ≤ deliveryId ∧ deliveryId < c.packetIdCounter ∧
        mapKey handle = c.handleOf f.name ∧
        c.mHandler (c.handleOf f.name) =
          some (transferHeader channel content qos deliveryId handle) ∧
        step c (.attach f) = .ok (c.afterFlush f.header (c.handleOf f.name)
          (transferHeader channel content qos deliveryId handle) qos deliveryId) := by
  by_cases h0 : c.handleOf f.name = 0
  · exact .inl ⟨.inl h0, step_receiver_zero f hrole h0⟩
  · cases hm : c.mHandler (c.handleOf f.name) with
    | none => exact .inl ⟨.inr rfl, step_receiver_none f hrole hm⟩
    | some message =>
      obtain ⟨channel, content, qos, deliveryId, handle, rfl, h1, hlt, hk⟩ := hc.made _ _ hm
      exact .inr ⟨channel, content, qos, deliveryId, handle, h0, h1, hlt, hk, rfl,
        step_receiver_some f hrole h0 hm⟩

/-! ### Every step -/

/-- The transfer that was sent. -/
def sentTransfer : Traffic AmqpHeader → Option AmqpTransfer
  | .sent header =>
    match header.packet with
    | .ref (.transfer transfer) => some transfer
    | _ => none
  | _ => none

/-- The DISPOSITION that was received. -/
def receivedDisposition : Traffic AmqpHeader → Option AmqpDisposition
  | .received header =>
    match header.packet with
    | .ref (.disposition disposition) => some disposition
    | _ => none
  | _ => none

/-- Nothing about transfers has changed. -/
structure Quiet (c t : Client) : Prop where
  links : SameLinks c t
  mDeliveryId : t.mDeliveryId = c.mDeliveryId
  wire : ∃ ws, t.wire = c.wire ++ ws ∧
    ∀ w ∈ ws, sentTransfer w = none ∧ receivedDisposition w = none

/-- The event has nothing to do with transfers in state `c`. -/
def QuietEvent (c : Client) : Event → Prop
  | .sendTransfer .. | .disposition _ => False
  | .attach f => f.role = .receiver →
    c.handleOf f.name = 0 ∨ c.mHandler (c.handleOf f.name) = none
  | _ => True

/-- What an event does in state `c`. -/
inductive Effect (c : Client) : Event → Client → Prop where
  | fired (content topicName : CString) (qos retain dup : Int) (h : c.handleOf topicName ≠ 0) :
    Effect c (.sendTransfer content topicName qos retain dup) (c.afterFire content topicName qos)
  | queued (content topicName : CString) (qos retain dup : Int) (h : c.handleOf topicName = 0) :
    Effect c (.sendTransfer content topicName qos retain dup) (c.afterQueue content topicName qos)
  | flushed (f : AttachFrame) (channel : Cell Int) (content : CString)
    (qos deliveryId handle : Int) (hrole : f.role = .receiver) (h : c.handleOf f.name ≠ 0)
    (hid : 1 ≤ deliveryId ∧ deliveryId < c.packetIdCounter)
    (hm : c.mHandler (c.handleOf f.name) =
      some (transferHeader channel content qos deliveryId handle)) :
    Effect c (.attach f) (c.afterFlush f.header (c.handleOf f.name)
      (transferHeader channel content qos deliveryId handle) qos deliveryId)
  | settled (f : DispositionFrame) : Effect c (.disposition f) (c.afterDisposition f)
  | quiet {e : Event} {t : Client} (he : c.QuietEvent e) (h : Quiet c t) : Effect c e t

theorem Quiet.refl : Quiet c c := ⟨⟨rfl, rfl, rfl, Int.le_refl _⟩, rfl, [], by simp⟩

theorem quiet_of_snoc (h : SameLinks c t) (hm : t.mDeliveryId = c.mDeliveryId)
    {w : Traffic AmqpHeader} (hw : t.wire = c.wire ++ [w]) (hs : sentTransfer w = none)
    (hr : receivedDisposition w = none) : Quiet c t :=
  ⟨h, hm, [w], hw, by simp [hs, hr]⟩

theorem receivedDisposition_attach (f : AttachFrame) :
    receivedDisposition (.received f.header) = none := by
  simp [receivedDisposition, f.packet_eq]

theorem receivedDisposition_detach (f : DetachFrame) :
    receivedDisposition (.received f.header) = none := by
  simp [receivedDisposition, f.packet_eq]

theorem quiet_senderAttach (f : AttachFrame) :
    Quiet c ((c.afterRead f.header).processSenderAttach f.name f.handle) := by
  have hl := sameLinks_senderAttach (c := c.afterRead f.header) f.name f.handle
  rw [processSenderAttach_eq] at hl ⊢
  exact quiet_of_snoc ⟨hl.mHandler, hl.topicNameMapOutgoing, hl.packetIdCounter, hl.nextHandle⟩ rfl
    rfl rfl (receivedDisposition_attach f)

theorem quiet_sendAttach (qos : Int) : Quiet c (c.sendAmqpAttach topicName qos) :=
  quiet_of_snoc ⟨rfl, rfl, rfl, Int.le_of_lt (Int.lt_succ _)⟩ rfl rfl rfl rfl

theorem quiet_sendDetach : Quiet c (c.sendAmqpDetach topicName) := by
  rw [sendAmqpDetach]
  split
  · exact .refl
  · exact quiet_of_snoc ⟨rfl, rfl, rfl, Int.le_refl _⟩ rfl rfl rfl rfl

/-- Every step of a session has an effect; none faults. -/
theorem step_effect (hc : Inv c) (e : Event) : ∃ t, step c e = .ok t ∧ Effect c e t := by
  cases e with
  | sendTransfer content topicName qos retain dup =>
    by_cases h : c.handleOf topicName = 0
    · exact ⟨_, step_queue h, .queued content topicName qos retain dup h⟩
    · exact ⟨_, step_fire h, .fired content topicName qos retain dup h⟩
  | sendAttach topicName qos => exact ⟨_, rfl, .quiet trivial (quiet_sendAttach qos)⟩
  | sendDetach topicName => exact ⟨_, rfl, .quiet trivial quiet_sendDetach⟩
  | attach f =>
    cases hrole : f.role with
    | sender =>
      refine ⟨_, step_sender f hrole, .quiet (fun h => ?_) (quiet_senderAttach f)⟩
      rw [hrole] at h
      cases h
    | receiver =>
      obtain ⟨hnone, ht⟩ | ⟨channel, content, qos, deliveryId, handle, h0, h1, hlt, -, hm, ht⟩ :=
        step_receiver_cases hc f hrole
      · refine ⟨_, ht, .quiet (fun _ => hnone) ?_⟩
        exact quiet_of_snoc (sameLinks_afterRead f.header) rfl rfl rfl (receivedDisposition_attach f)
      · exact ⟨_, ht, .flushed f channel content qos deliveryId handle hrole h0 ⟨h1, hlt⟩ hm⟩
  | detach f =>
    cases h : c.reverseTopicNameMap (mapKey f.handle) with
    | none =>
      refine ⟨_, step_detach_none f h, .quiet trivial ?_⟩
      exact quiet_of_snoc (sameLinks_afterRead f.header) rfl rfl rfl (receivedDisposition_detach f)
    | some topicName =>
      refine ⟨_, step_detach_some f h, .quiet trivial ?_⟩
      exact quiet_of_snoc ⟨rfl, rfl, rfl, Int.le_refl _⟩ rfl rfl rfl (receivedDisposition_detach f)
  | disposition f => exact ⟨_, step_disposition f, .settled f⟩

theorem effect_of_step (hc : Inv c) {e : Event} (ht : step c e = .ok t) : Effect c e t := by
  obtain ⟨u, hu, heff⟩ := step_effect hc e
  obtain rfl : u = t := Except.ok.inj (hu.symm.trans ht)
  exact heff

theorem Effect.inv {e : Event} (h : Effect c e t) (hc : Inv c) : Inv t := by
  cases h with
  | fired => exact inv_afterFire hc
  | queued => exact inv_afterQueue hc
  | flushed => exact inv_afterFlush hc
  | settled => exact hc.of_handlers (Int.le_refl _) fun _ _ hm => hm
  | quiet _ h => exact h.links.inv hc

end Client

end IotClient.Amqp
