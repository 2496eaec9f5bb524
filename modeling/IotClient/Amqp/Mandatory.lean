import IotClient.Amqp.MessageBody

/-!
# Mandatory fields

`add_arguments` returns `NULL` for a header without a field it asks for, and the lemmas
`…Arguments_null` say which fields these are: of a BEGIN the outgoing window is not one of them,
of an ATTACH the initial delivery count is not. `amqp_encode` follows the pointer it is given,
so a header is sent properly exactly when no mandatory field is absent.
-/

namespace IotClient.Amqp

open Mem

/-- The frames handed to `raw_fire`. -/
def amqpEncodeAndFire (header : AmqpHeader) : Run (List (Block × Int)) := do
  let frame ← amqpEncode header
  pure [frame]

/-- A mandatory field is absent; a packet without a case has no mandatory field. -/
def Packet.Missing : Packet → Prop
  | .init p => p.mechanism = .null
  | .open p => p.containerId = .null
  | .begin p => p.nextOutgoingId = .null ∨ p.incomingWindow = .null ∨ p.outgoingWindow = .null
  | .attach p => p.name = .null ∨ p.handle = .null ∨ p.role = .null ∨
      (p.role = .ref .sender ∧ p.initialDeliveryCount = .null)
  | .transfer p => p.handle = .null
  | .disposition p => p.role = .null ∨ p.first = .null
  | .detach p => p.handle = .null
  | _ => False

/-- What is asked of the mandatory fields of a header with the packet `p`. -/
structure MandatoryChecked (header : AmqpHeader) (p : Packet) : Prop where
  rejects : addArguments header = .ok .null ↔ p.Missing
  sendsNothing : p.Missing → amqpEncodeAndFire header = .ok []

/-! ### What `add_arguments` asks for -/

theorem guard_null {α β : Type} {p : Ptr α} {c : Run (Ptr β)}
    (h : (do if ← p.nonNull then c else pure .null) = .ok .null) : p = .null ∨ c = .ok .null := by
  cases p with
  | indet => cases h
  | null => exact .inl rfl
  | ref v => exact .inr h

/-- A list that was made is not `NULL`. -/
theorem list_ne_null {x : Run TlvList} : (do let list ← x; pure (Ptr.ref list)) ≠ .ok .null := by
  intro h
  obtain ⟨list, -, h⟩ := bind_eq_ok.1 h
  cases h

theorem bind_ne_null {α β : Type} {x : Run α} {f : α → Run (Ptr β)}
    (h : ∀ a, f a ≠ .ok .null) : (x >>= f) ≠ .ok .null := by
  intro hnull
  obtain ⟨a, -, ha⟩ := bind_eq_ok.1 hnull
  exact h a ha

theorem initArguments_null {p : SaslInit} (h : initArguments p = .ok .null) :
    p.mechanism = .null := by
  rcases guard_null h with hmechanism | hrest
  · exact hmechanism
  · refine absurd hrest (bind_ne_null fun _ => bind_ne_null fun _ => bind_ne_null fun _ => ?_)
    exact list_ne_null

theorem openArguments_null {p : AmqpOpen} (h : openArguments p = .ok .null) :
    p.containerId = .null := by
  rcases guard_null h with hcontainer | hrest
  · exact hcontainer
  · refine absurd hrest (bind_ne_null fun _ => bind_ne_null fun _ => bind_ne_null fun _ =>
      bind_ne_null fun _ => bind_ne_null fun _ => ?_)
    exact list_ne_null

/-- `incoming_window` is tested twice, `outgoing_window` never. -/
theorem beginArguments_null {p : AmqpBegin} (h : beginArguments p = .ok .null) :
    p.nextOutgoingId = .null ∨ p.incomingWindow = .null := by
  obtain ⟨a, -, hsecond⟩ := bind_eq_ok.1 h
  rcases guard_null hsecond with hnext | hrest
  · exact .inl hnext
  obtain ⟨a, -, hthird⟩ := bind_eq_ok.1 hrest
  rcases guard_null hthird with hwindow | hrest
  · exact .inr hwindow
  · refine absurd hrest (bind_ne_null fun _ => bind_ne_null fun _ => bind_ne_null fun _ =>
      bind_ne_null fun _ => bind_ne_null fun _ => bind_ne_null fun _ => ?_)
    exact list_ne_null

/-- The delivery count is asked for when the role is absent. -/
theorem deliveryCount_none {p : AmqpAttach} {a : Args} (h : deliveryCount p a = .ok none) :
    p.role = .null := by
  unfold deliveryCount at h
  obtain ⟨present, -, h⟩ := bind_eq_ok.1 h
  cases present with
  | true =>
    obtain ⟨b, -, hb⟩ := bind_eq_ok.1 h
    cases hb
  | false =>
    cases hrole : p.role with
    | indet => rw [hrole] at h; cases h
    | null => rfl
    | ref role => rw [hrole] at h; cases h

/-- `role` is compared with `SENDER` as a pointer, so the delivery count is never asked for. -/
theorem attachArguments_null {p : AmqpAttach} (h : attachArguments p = .ok .null) :
    p.name = .null ∨ p.handle = .null ∨ p.role = .null := by
  rcases guard_null h with hname | hrest
  · exact .inl hname
  obtain ⟨a, -, hsecond⟩ := bind_eq_ok.1 hrest
  rcases guard_null hsecond with hhandle | hrest
  · exact .inr (.inl hhandle)
  obtain ⟨a, -, hthird⟩ := bind_eq_ok.1 hrest
  rcases guard_null hthird with hrole | hrest
  · exact .inr (.inr hrole)
  obtain ⟨a, -, hrest⟩ := bind_eq_ok.1 hrest
  obtain ⟨a, -, hrest⟩ := bind_eq_ok.1 hrest
  obtain ⟨a, -, hrest⟩ := bind_eq_ok.1 hrest
  obtain ⟨a, -, hrest⟩ := bind_eq_ok.1 hrest
  obtain ⟨a, -, hrest⟩ := bind_eq_ok.1 hrest
  obtain ⟨a, -, hrest⟩ := bind_eq_ok.1 hrest
  obtain ⟨a, -, hrest⟩ := bind_eq_ok.1 hrest
  obtain ⟨counted, hcounted, hrest⟩ := bind_eq_ok.1 hrest
  cases counted with
  | none => exact .inr (.inr (deliveryCount_none hcounted))
  | some a =>
    refine absurd hrest (bind_ne_null fun _ => bind_ne_null fun _ => bind_ne_null fun _ =>
      bind_ne_null fun _ => ?_)
    exact list_ne_null

theorem transferArguments_null {p : AmqpTransfer} (h : transferArguments p = .ok .null) :
    p.handle = .null := by
  rcases guard_null h with hhandle | hrest
  · exact hhandle
  · refine absurd hrest (bind_ne_null fun _ => bind_ne_null fun _ => bind_ne_null fun _ =>
      bind_ne_null fun _ => bind_ne_null fun _ => bind_ne_null fun _ => bind_ne_null fun _ =>
      bind_ne_null fun _ => bind_ne_null fun _ => bind_ne_null fun _ => bind_ne_null fun _ => ?_)
    exact list_ne_null

theorem dispositionArguments_null {p : AmqpDisposition}
    (h : dispositionArguments p = .ok .null) : p.role = .null ∨ p.first = .null := by
  rcases guard_null h with hrole | hrest
  · exact .inl hrole
  rcases guard_null hrest with hfirst | hrest
  · exact .inr hfirst
  · refine absurd hrest (bind_ne_null fun _ => bind_ne_null fun _ => bind_ne_null fun _ =>
      bind_ne_null fun _ => bind_ne_null fun _ => bind_ne_null fun _ => ?_)
    exact list_ne_null

theorem detachArguments_null {p : AmqpDetach} (h : detachArguments p = .ok .null) :
    p.handle = .null := by
  rcases guard_null h with hhandle | hrest
  · exact hhandle
  · refine absurd hrest (bind_ne_null fun _ => bind_ne_null fun _ => bind_ne_null fun _ => ?_)
    exact list_ne_null

/-! ### The header -/

section Header

variable {header : AmqpHeader} {p : Packet}

/-- A header is rejected for a mandatory field only. -/
theorem addArguments_null (hcode : header.code = .is p.code.toByte)
    (hpacket : header.packet = .ref p) (h : addArguments header = .ok .null) : p.Missing := by
  unfold addArguments at h
  rw [hcode, Cell.get_is, ok_bind, HeaderCode.ofByte_toByte] at h
  unfold castPacket at h
  rw [hpacket, Ptr.deref_ref] at h
  cases p with
  | init p => exact initArguments_null h
  | «open» p => exact openArguments_null h
  | begin p => exact (beginArguments_null h).imp_right .inl
  | attach p =>
    rcases attachArguments_null h with hname | hhandle | hrole
    · exact .inl hname
    · exact .inr (.inl hhandle)
    · exact .inr (.inr (.inl hrole))
  | transfer p => exact transferArguments_null h
  | disposition p => exact dispositionArguments_null h
  | detach p => exact detachArguments_null h
  | amqpEnd => exact absurd h list_ne_null
  | close => exact absurd h list_ne_null
  | flow => cases h
  | mechanisms p => cases h
  | challenge p => cases h
  | response => cases h
  | outcome p => cases h
  | proto p => cases h

/-- `amqp_encode` does not look at what `add_arguments` returned. -/
theorem amqpEncodeAndFire_rejected (hcode : header.code = .is p.code.toByte)
    (hproto : p.code ≠ .proto) (h : addArguments header = .ok .null) :
    amqpEncodeAndFire header = .error .nullDeref := by
  have hframe : encodeFrame p.code.toByte header = .error .nullDeref := by
    unfold encodeFrame
    rw [h]
    rfl
  unfold amqpEncodeAndFire amqpEncode
  rw [hcode, Cell.get_is, ok_bind, HeaderCode.ofByte_toByte]
  cases p with
  | proto p => exact absurd rfl hproto
  | _ => exact congrArg (· >>= fun frame => pure [frame]) hframe

/-- Whatever is encoded is sent. -/
theorem amqpEncodeAndFire_ne_nil : amqpEncodeAndFire header ≠ .ok [] := by
  intro h
  obtain ⟨frame, -, h⟩ := bind_eq_ok.1 h
  cases h

/-- The mandatory fields are dealt with exactly when none of them is absent. -/
theorem mandatoryChecked_iff (hcode : header.code = .is p.code.toByte)
    (hpacket : header.packet = .ref p) : MandatoryChecked header p ↔ ¬ p.Missing := by
  refine ⟨fun h hmissing => amqpEncodeAndFire_ne_nil (h.sendsNothing hmissing), fun h => ?_⟩
  exact ⟨⟨addArguments_null hcode hpacket, fun hmissing => absurd hmissing h⟩,
    fun hmissing => absurd hmissing h⟩

end Header

/-! ### OPEN -/

def plainOpen (containerId : Ptr CString) : AmqpOpen where
  containerId := containerId
  hostname := .null
  maxFrameSize := .null
  channelMax := .null
  idleTimeout := .null
  outgoingLocales := .null
  incomingLocales := .null
  offeredCapabilities := .null
  desiredCapabilities := .null
  properties := .null

def openHeader (containerId : Ptr CString) : AmqpHeader :=
  ⟨.is HeaderCode.open.toByte, .is 2, .is 0, .is 0, .ref (.open (plainOpen containerId))⟩

theorem openHeader_checked :
    MandatoryChecked (openHeader (.ref (.literal "c"))) (.open (plainOpen (.ref (.literal "c")))) :=
  (mandatoryChecked_iff rfl rfl).2 fun h => by cases h

/-- Without a container ID the frame is not dropped: the `NULL` is followed. -/
theorem openHeader_not_checked : addArguments (openHeader .null) = .ok .null ∧
    amqpEncodeAndFire (openHeader .null) = .error .nullDeref ∧
    ¬ MandatoryChecked (openHeader .null) (.open (plainOpen .null)) := by
  refine ⟨rfl, rfl, fun h => ?_⟩
  have hsent := h.sendsNothing rfl
  cases hsent

end IotClient.Amqp
