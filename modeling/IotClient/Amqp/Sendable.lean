import IotClient.Amqp.Slots

/-!
# What the client can list

`Sendable number p`: the mandatory fields of the packet are present, its arrays, maps and outcomes
are not, and its integers satisfy `number`. The encoders make a list of such a packet (`Makes`),
which is written whole when no number is negative.
-/

namespace IotClient.Amqp

open Mem

/-! ### Slots that are made -/

section Slots

variable {α : Type} {P : α → Prop} {p : Ptr α} {whole : Prop}

theorem slotOf_wraps {wrap : α → Run TlvAmqp} (h : p.Optional P)
    (hwrap : ∀ x, P x → Wraps whole (wrap x)) : ∀ w ∈ slotOf p wrap, Wraps whole w := by
  intro w hw
  cases p with
  | indet => exact h.elim
  | null => cases hw
  | ref x =>
    cases hw
    exact hwrap x h

theorem slotPtr_wraps {wrap : α → Run (Ptr TlvAmqp)} (h : p.Optional P)
    (hwrap : ∀ x, P x → Wraps whole (do (← wrap x).deref)) :
    ∀ w ∈ slotPtr p wrap, Wraps whole w :=
  slotOf_wraps h hwrap

theorem slotPtr_null {wrap : α → Run (Ptr TlvAmqp)} (h : p = .null) :
    ∀ w ∈ slotPtr p wrap, Wraps whole w := by
  subst h
  intro w hw
  cases hw

theorem slotOf_ne_none {wrap : α → Run TlvAmqp} (h : p.Required P) : slotOf p wrap ≠ none := by
  obtain ⟨x, rfl, -⟩ := h.eq_ref
  exact Option.some_ne_none _

theorem wrapNumber_wraps {number : Int → Prop} {n : Int} (h : number n) :
    Wraps (∀ n, number n → 0 ≤ n) (wrapLong n) :=
  wrapLong_wraps fun hnumber => hnumber n h

end Slots

/-- The list of an encoder; it is written whole under the condition `whole`. -/
def Makes (arguments : Run (Ptr TlvList)) (code : UInt8) (ts : List Slot) (whole : Prop) : Prop :=
  ∃ l, arguments = .ok (.ref l) ∧ Positional code ts l.node ∧ (whole → ∃ out, Holds l.node out)

theorem makes_of_eq {arguments : Run (Ptr TlvList)} {code : UInt8} {ts : List Slot} {whole : Prop}
    (heq : arguments = .ref <$> listArguments code ts)
    (h : ∀ t ∈ ts, ∀ wrap ∈ t, Wraps whole wrap) (hpresent : ∃ t ∈ ts, t ≠ none) :
    Makes arguments code ts whole := by
  obtain ⟨⟨tlv, cells, htlv, hfills, hwritten⟩, l, hl, hpositional⟩ :=
    listArguments_wraps code h hpresent
  rw [hl] at heq htlv
  obtain rfl : l.node = tlv := Except.ok.inj htlv
  refine ⟨l, heq, hpositional, fun hwhole => ?_⟩
  obtain ⟨out, rfl⟩ := exists_map_some (hwritten hwhole)
  exact ⟨out, hfills.holds⟩

/-! ### Packets that can be sent -/

section Sendable

variable (number : Int → Prop)

structure AmqpOpen.Sendable (p : AmqpOpen) : Prop where
  containerId : p.containerId.Required fun _ => True
  hostname : p.hostname.Optional fun _ => True
  maxFrameSize : p.maxFrameSize.Optional number
  channelMax : p.channelMax.Optional number
  idleTimeout : p.idleTimeout.Optional number

structure AmqpBegin.Sendable (p : AmqpBegin) : Prop where
  remoteChannel : p.remoteChannel.Optional number
  nextOutgoingId : p.nextOutgoingId.Required number
  incomingWindow : p.incomingWindow.Required number
  outgoingWindow : p.outgoingWindow.Required number
  handleMax : p.handleMax.Optional number
  offeredCapabilities : p.offeredCapabilities = .null
  desiredCapabilities : p.desiredCapabilities = .null
  properties : p.properties = .null

/-- A source of which any fields may be absent. -/
structure AmqpSource.Plain (s : AmqpSource) : Prop where
  address : s.address.Optional fun _ => True
  durable : s.durable.Optional number
  expiryPeriod : s.expiryPeriod.Optional fun e => ∃ policy, e = .enumerator policy
  timeout : s.timeout.Optional number
  dynamic : s.dynamic.Optional fun _ => True
  dynamicNodeProperties : s.dynamicNodeProperties = .null
  distributionMode : s.distributionMode.Optional fun e => ∃ mode, e = .enumerator mode
  filter : s.filter = .null
  defaultOutcome : s.defaultOutcome = .null
  outcomes : s.outcomes = .null
  capabilities : s.capabilities = .null

structure AmqpSource.Sendable (s : AmqpSource) : Prop extends AmqpSource.Plain number s where
  noMode : s.distributionMode = .null
  present : ∃ t ∈ s.slots, t ≠ none

structure AmqpTarget.Sendable (t : AmqpTarget) : Prop where
  address : t.address.Optional fun _ => True
  durable : t.durable.Optional number
  expiryPeriod : t.expiryPeriod.Optional fun e => ∃ policy, e = .enumerator policy
  timeout : t.timeout.Optional number
  dynamic : t.dynamic.Optional fun _ => True
  dynamicNodeProperties : t.dynamicNodeProperties = .null
  capabilities : t.capabilities = .null
  present : ∃ slot ∈ t.slots, slot ≠ none

structure AmqpAttach.Sendable (p : AmqpAttach) : Prop where
  name : p.name.Required fun _ => True
  handle : p.handle.Required number
  role : p.role.Required fun _ => True
  sndSettleMode : p.sndSettleMode.Optional number
  rcvSettleMode : p.rcvSettleMode.Optional number
  source : p.source.Optional (AmqpSource.Sendable number)
  target : p.target.Optional (AmqpTarget.Sendable number)
  unsettled : p.unsettled = .null
  incompleteUnsettled : p.incompleteUnsettled.Optional number
  initialDeliveryCount : p.initialDeliveryCount.Optional number
  maxMessageSize : p.maxMessageSize.Optional number
  offeredCapabilities : p.offeredCapabilities = .null
  desiredCapabilities : p.desiredCapabilities = .null
  properties : p.properties = .null

structure AmqpDisposition.Sendable (p : AmqpDisposition) : Prop where
  role : p.role.Required fun _ => True
  first : p.first.Required number
  last : p.last.Optional number
  settled : p.settled.Optional fun _ => True
  state : p.state.Optional fun s => ∃ code, s.code = .is code
  batchable : p.batchable.Optional fun _ => True

structure AmqpDetach.Sendable (p : AmqpDetach) : Prop where
  handle : p.handle.Required number
  closed : p.closed.Optional fun _ => True
  error : p.error = .null

/-- A transfer; its delivery tag comes with its length. -/
structure AmqpTransfer.Sendable (p : AmqpTransfer) : Prop where
  handle : p.handle.Required number
  deliveryId : p.deliveryId.Optional number
  deliveryTag : p.deliveryTag.Optional fun tag => p.deliveryTagLength = .ref tag.length
  messageFormat : p.messageFormat.Optional fun m => ∃ n, m.messageFormat = .is n ∧ number n
  settled : p.settled.Optional fun _ => True
  more : p.more.Optional fun _ => True
  rcvSettleMode : p.rcvSettleMode.Optional number
  state : p.state.Optional fun s => ∃ code, s.code = .is code
  resume : p.resume.Optional fun _ => True
  aborted : p.aborted.Optional fun _ => True
  batchable : p.batchable.Optional fun _ => True

end Sendable

/-- A SASL-Init; its response comes with its length. -/
structure SaslInit.Sendable (p : SaslInit) : Prop where
  mechanism : p.mechanism.Required fun m => ∃ s, m.value = .ref s
  initialResponse : p.initialResponse.Optional fun data => p.initialResponseLength = .is data.length
  hostName : p.hostName.Optional fun _ => True

/-- An error of which any fields may be absent. -/
structure AmqpError.Plain (e : AmqpError) : Prop where
  condition : e.condition.Optional fun n : Int => 0 ≤ n ∧ n < errorCodes.length
  description : e.description.Optional fun _ => True
  info : e.info = .null

/-! ### Their lists -/

section Lists

variable {number : Int → Prop}

theorem openArguments_makes {p : AmqpOpen} (h : p.Sendable number) :
    Makes (openArguments p) HeaderCode.open.toByte p.slots (∀ n, number n → 0 ≤ n) := by
  obtain ⟨s, hs, -⟩ := h.containerId.eq_ref
  refine makes_of_eq (openArguments_eq hs) ?_ ⟨_, List.mem_cons_self, slotOf_ne_none h.containerId⟩
  simp only [AmqpOpen.slots, List.forall_mem_cons, List.not_mem_nil, false_implies, implies_true,
    and_true]
  exact ⟨slotOf_wraps h.containerId.optional fun s _ => wrapString_wraps s,
    slotOf_wraps h.hostname fun s _ => wrapString_wraps s,
    slotOf_wraps h.maxFrameSize fun _ => wrapNumber_wraps,
    slotOf_wraps h.channelMax fun n _ => wrapInt_wraps n,
    slotOf_wraps h.idleTimeout fun _ => wrapNumber_wraps⟩

theorem beginArguments_makes {p : AmqpBegin} (h : p.Sendable number) :
    Makes (beginArguments p) HeaderCode.begin.toByte p.slots (∀ n, number n → 0 ≤ n) := by
  obtain ⟨x, hx, -⟩ := h.nextOutgoingId.eq_ref
  obtain ⟨y, hy, -⟩ := h.incomingWindow.eq_ref
  refine makes_of_eq (beginArguments_eq hx hy) ?_
    ⟨_, List.mem_cons_of_mem _ List.mem_cons_self, slotOf_ne_none h.nextOutgoingId⟩
  simp only [AmqpBegin.slots, List.forall_mem_cons, List.not_mem_nil, false_implies, implies_true,
    and_true]
  exact ⟨slotOf_wraps h.remoteChannel fun n _ => wrapInt_wraps n,
    slotOf_wraps h.nextOutgoingId.optional fun _ => wrapNumber_wraps,
    slotOf_wraps h.incomingWindow.optional fun _ => wrapNumber_wraps,
    slotOf_wraps h.outgoingWindow.optional fun _ => wrapNumber_wraps,
    slotOf_wraps h.handleMax fun _ => wrapNumber_wraps, slotPtr_null h.offeredCapabilities,
    slotPtr_null h.desiredCapabilities, slotPtr_null h.properties⟩

theorem wrapExpiryPeriod_wraps {whole : Prop} {e : EnumOrChars TerminusExpiryPolicy}
    (h : ∃ policy, e = .enumerator policy) : Wraps whole (wrapExpiryPeriod e) := by
  obtain ⟨policy, rfl⟩ := h
  exact wrapSymbol_wraps (stringTerminusExpiryPolicy policy)

theorem AmqpSource.Plain.wraps {s : AmqpSource} (h : s.Plain number)
    (hmode : s.distributionMode = .null) :
    ∀ t ∈ s.slots, ∀ wrap ∈ t, Wraps (∀ n, number n → 0 ≤ n) wrap := by
  simp only [AmqpSource.slots, List.forall_mem_cons, List.not_mem_nil, false_implies, implies_true,
    and_true]
  exact ⟨slotOf_wraps h.address fun s _ => wrapString_wraps s,
    slotOf_wraps h.durable fun _ => wrapNumber_wraps,
    slotOf_wraps h.expiryPeriod fun _ => wrapExpiryPeriod_wraps,
    slotOf_wraps h.timeout fun _ => wrapNumber_wraps,
    slotOf_wraps h.dynamic fun n _ => wrapBool_wraps n, slotPtr_null h.dynamicNodeProperties,
    slotPtr_null hmode, slotPtr_null h.filter, slotPtr_null h.defaultOutcome,
    slotPtr_null h.outcomes, slotPtr_null h.capabilities⟩

theorem AmqpTarget.Sendable.wraps {t : AmqpTarget} (h : t.Sendable number) :
    ∀ slot ∈ t.slots, ∀ wrap ∈ slot, Wraps (∀ n, number n → 0 ≤ n) wrap := by
  simp only [AmqpTarget.slots, List.forall_mem_cons, List.not_mem_nil, false_implies, implies_true,
    and_true]
  exact ⟨slotOf_wraps h.address fun s _ => wrapString_wraps s,
    slotOf_wraps h.durable fun _ => wrapNumber_wraps,
    slotOf_wraps h.expiryPeriod fun _ => wrapExpiryPeriod_wraps,
    slotOf_wraps h.timeout fun _ => wrapNumber_wraps,
    slotOf_wraps h.dynamic fun n _ => wrapBool_wraps n, slotPtr_null h.dynamicNodeProperties,
    slotPtr_null h.capabilities⟩

/-- A list inside a list. -/
theorem deref_node (m : Run TlvList) :
    (do ((← (fun l => Ptr.ref (TlvList.node l)) <$> m).deref)) = TlvList.node <$> m := by
  cases m <;> rfl

theorem wrapAmqpSource_wraps {s : AmqpSource} (h : s.Sendable number) :
    Wraps (∀ n, number n → 0 ≤ n) (do (← wrapAmqpSource s).deref) := by
  rw [wrapAmqpSource_eq h.dynamicNodeProperties, deref_node]
  exact (listArguments_wraps _ (h.toPlain.wraps h.noMode) h.present).1

theorem wrapAmqpTarget_wraps {t : AmqpTarget} (h : t.Sendable number) :
    Wraps (∀ n, number n → 0 ≤ n) (do (← wrapAmqpTarget t).deref) := by
  rw [wrapAmqpTarget_eq h.dynamicNodeProperties, deref_node]
  exact (listArguments_wraps _ h.wraps h.present).1

theorem attachArguments_makes {p : AmqpAttach} (h : p.Sendable number) :
    Makes (attachArguments p) HeaderCode.attach.toByte p.slots (∀ n, number n → 0 ≤ n) := by
  obtain ⟨name, hname, -⟩ := h.name.eq_ref
  obtain ⟨handle, hhandle, -⟩ := h.handle.eq_ref
  obtain ⟨role, hrole, -⟩ := h.role.eq_ref
  refine makes_of_eq (attachArguments_eq hname hhandle hrole) ?_
    ⟨_, List.mem_cons_self, slotOf_ne_none h.name⟩
  simp only [AmqpAttach.slots, List.forall_mem_cons, List.not_mem_nil, false_implies, implies_true,
    and_true]
  exact ⟨slotOf_wraps h.name.optional fun s _ => wrapString_wraps s,
    slotOf_wraps h.handle.optional fun _ => wrapNumber_wraps,
    slotOf_wraps h.role.optional fun role _ => wrapBool_wraps role.toInt,
    slotOf_wraps h.sndSettleMode fun mode _ => wrapShort_wraps (toShort mode),
    slotOf_wraps h.rcvSettleMode fun mode _ => wrapShort_wraps (toShort mode),
    slotPtr_wraps h.source fun _ => wrapAmqpSource_wraps,
    slotPtr_wraps h.target fun _ => wrapAmqpTarget_wraps, slotPtr_null h.unsettled,
    slotOf_wraps h.incompleteUnsettled fun n _ => wrapInt_wraps n,
    slotOf_wraps h.initialDeliveryCount fun _ => wrapNumber_wraps,
    slotOf_wraps h.maxMessageSize fun _ => wrapNumber_wraps, slotPtr_null h.offeredCapabilities,
    slotPtr_null h.desiredCapabilities, slotPtr_null h.properties⟩

theorem wrapCode_wraps {whole : Prop} {state : AmqpState} (h : ∃ code, state.code = .is code) :
    Wraps whole (wrapState state) := by
  obtain ⟨code, hcode⟩ := h
  obtain ⟨_⟩ := state
  subst hcode
  exact wrapState_wraps code

theorem dispositionArguments_makes {p : AmqpDisposition} (h : p.Sendable number) :
    Makes (dispositionArguments p) HeaderCode.disposition.toByte p.slots
      (∀ n, number n → 0 ≤ n) := by
  obtain ⟨role, hrole, -⟩ := h.role.eq_ref
  obtain ⟨first, hfirst, -⟩ := h.first.eq_ref
  refine makes_of_eq (dispositionArguments_eq hrole hfirst) ?_
    ⟨_, List.mem_cons_self, slotOf_ne_none h.role⟩
  simp only [AmqpDisposition.slots, List.forall_mem_cons, List.not_mem_nil, false_implies,
    implies_true, and_true]
  exact ⟨slotOf_wraps h.role.optional fun role _ => wrapBool_wraps role.toInt,
    slotOf_wraps h.first.optional fun _ => wrapNumber_wraps,
    slotOf_wraps h.last fun _ => wrapNumber_wraps,
    slotOf_wraps h.settled fun n _ => wrapBool_wraps n,
    slotOf_wraps h.state fun _ => wrapCode_wraps,
    slotOf_wraps h.batchable fun n _ => wrapBool_wraps n⟩

theorem detachArguments_makes {p : AmqpDetach} (h : p.Sendable number) :
    Makes (detachArguments p) HeaderCode.detach.toByte p.slots (∀ n, number n → 0 ≤ n) := by
  obtain ⟨handle, hhandle, -⟩ := h.handle.eq_ref
  refine makes_of_eq (detachArguments_eq hhandle) ?_
    ⟨_, List.mem_cons_self, slotOf_ne_none h.handle⟩
  simp only [AmqpDetach.slots, List.forall_mem_cons, List.not_mem_nil, false_implies, implies_true,
    and_true]
  refine ⟨slotOf_wraps h.handle.optional fun _ => wrapNumber_wraps,
    slotOf_wraps h.closed fun n _ => wrapBool_wraps n, ?_⟩
  rw [h.error]
  intro w hw
  cases hw

theorem transferArguments_makes {p : AmqpTransfer} (h : p.Sendable number)
    (haborted : p.aborted = .null) :
    Makes (transferArguments p) HeaderCode.transfer.toByte p.slots (∀ n, number n → 0 ≤ n) := by
  obtain ⟨handle, hhandle, -⟩ := h.handle.eq_ref
  refine makes_of_eq (transferArguments_eq hhandle) ?_
    ⟨_, List.mem_cons_self, slotOf_ne_none h.handle⟩
  simp only [AmqpTransfer.slots, List.forall_mem_cons, List.not_mem_nil, false_implies,
    implies_true, and_true]
  refine ⟨slotOf_wraps h.handle.optional fun _ => wrapNumber_wraps,
    slotOf_wraps h.deliveryId fun _ => wrapNumber_wraps,
    slotOf_wraps h.deliveryTag fun tag htag => ?_,
    slotOf_wraps h.messageFormat fun m hm => ?_,
    slotOf_wraps h.settled fun n _ => wrapBool_wraps n,
    slotOf_wraps h.more fun n _ => wrapBool_wraps n,
    slotOf_wraps h.rcvSettleMode fun mode _ => wrapShort_wraps (toShort mode),
    slotOf_wraps h.state fun _ => wrapCode_wraps,
    slotOf_wraps h.resume fun n _ => wrapBool_wraps n, slotPtr_null haborted,
    slotOf_wraps h.batchable fun n _ => wrapBool_wraps n⟩
  · rw [htag]
    exact wrapBinary_wraps tag
  · obtain ⟨n, hn, hnumber⟩ := hm
    rw [hn]
    exact wrapNumber_wraps hnumber

theorem SaslInit.Sendable.wraps {p : SaslInit} {whole : Prop} (h : p.Sendable) :
    ∀ t ∈ p.slots, ∀ wrap ∈ t, Wraps whole wrap := by
  simp only [SaslInit.slots, List.forall_mem_cons, List.not_mem_nil, false_implies, implies_true,
    and_true]
  refine ⟨slotOf_wraps h.mechanism.optional fun m hm => ?_,
    slotOf_wraps h.initialResponse fun data hdata => ?_,
    slotOf_wraps h.hostName fun s _ => wrapString_wraps s⟩
  · obtain ⟨_⟩ := m
    obtain ⟨s, rfl⟩ := hm
    exact wrapSymbol_wraps s
  · rw [hdata]
    exact wrapBinary_wraps data

theorem stringErrorCode_ok {n : Int} (h : 0 ≤ n ∧ n < errorCodes.length) :
    ∃ s, stringErrorCode n = .ok s := by
  have hlt : n.toNat < errorCodes.length := by omega
  unfold stringErrorCode
  rw [if_neg (by omega), List.getElem?_eq_getElem hlt]
  exact ⟨_, rfl⟩

theorem AmqpError.Plain.wraps {e : AmqpError} {whole : Prop} (h : e.Plain) :
    ∀ t ∈ e.slots, ∀ wrap ∈ t, Wraps whole wrap := by
  simp only [AmqpError.slots, List.forall_mem_cons, List.not_mem_nil, false_implies, implies_true,
    and_true]
  refine ⟨slotOf_wraps h.condition fun n hn => ?_,
    slotOf_wraps h.description fun s _ => wrapString_wraps s, slotPtr_null h.info⟩
  obtain ⟨s, hs⟩ := stringErrorCode_ok hn
  rw [hs]
  exact wrapSymbol_wraps s

theorem initArguments_makes {p : SaslInit} {whole : Prop} (h : p.Sendable)
    (hcond : p.initialResponse = .null → p.hostName = .null) :
    Makes (initArguments p) HeaderCode.init.toByte p.slots whole := by
  obtain ⟨m, hm, -⟩ := h.mechanism.eq_ref
  have hwraps : ∀ t ∈ p.slots, ∀ wrap ∈ t, Wraps True wrap := h.wraps
  obtain ⟨l, hl, hpositional⟩ := initArguments_wraps hm hwraps hcond
  exact ⟨l, hl, hpositional, fun _ => hpositional.holds _ hwraps⟩

/-- The only argument of an END or CLOSE is a null. -/
def nullArguments (code : UInt8) : List UInt8 :=
  listBytes (listConstructor code .narrow) .narrow 2 1 [AmqpType.amqpNull.toByte]

theorem emptyArguments_holds (code : HeaderCode) :
    ∃ l, emptyArguments code = .ok (.ref l) ∧ Holds l.node (nullArguments code.toByte) := by
  have hnull : List.Forall₂ Fills ([wrapNull].take 1) [[some AmqpType.amqpNull.toByte]] :=
    .cons wrapNull_holds.fills .nil
  have hconstructor : 0 < (listConstructor code.toByte .narrow).length :=
    List.length_pos_of_ne_nil (List.cons_ne_nil _ _)
  obtain ⟨l, hl, hfills⟩ : ∃ l, getBytes ⟨[wrapNull], listConstructor code.toByte .narrow,
      .is Width.narrow.bytes, .is (2 : Nat), .is (1 : Nat), .indet, .indet⟩ = .ok l ∧
      Fills l.node (listCells (listConstructor code.toByte .narrow) .narrow 2 1
        [[some AmqpType.amqpNull.toByte]].flatten) :=
    getBytes_fills hnull (Nat.le_refl 1) hconstructor (by decide) (by decide) (by decide)
  refine ⟨l, ?_, Fills.holds hfills⟩
  unfold emptyArguments calculateBytes
  rw [Cell.get_is, ok_bind, if_neg (by decide)]
  exact bind_eq_ok.2 ⟨l, hl, rfl⟩

end Lists

end IotClient.Amqp
