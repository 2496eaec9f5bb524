import IotClient.Amqp.Sendable

/-!
# Lists of the fields in their places

`plainList_positional`: a packet that can be sent is encoded as the list of its fields, each in its
place. The packets whose encoders slip are `UnevenList`, and `unevenList_iff` says for which of
them the list is made.
-/

namespace IotClient.Amqp

open Mem

/-! ### Lists that are made -/

/-- The list of a performative, as `add_arguments` makes it. -/
def performativeList (code : HeaderCode) (packet : Packet) (doff type channel : Cell Int) :
    Run (Ptr TlvAmqp) :=
  Ptr.map TlvList.node <$> addArguments ⟨.is code.toByte, doff, type, channel, .ref packet⟩

/-- A packet, source or target that is listed. -/
inductive PlainList where
  | open (p : AmqpOpen) (h : p.Sendable fun _ => True)
  | begin (p : AmqpBegin) (h : p.Sendable fun _ => True)
  | attach (p : AmqpAttach) (h : p.Sendable fun _ => True)
  | disposition (p : AmqpDisposition) (h : p.Sendable fun _ => True)
  | detach (p : AmqpDetach) (h : p.Sendable fun _ => True)
  | source (s : AmqpSource) (h : s.Sendable fun _ => True)
  | target (t : AmqpTarget) (h : t.Sendable fun _ => True)

namespace PlainList

/-- The code of the descriptor. -/
def code : PlainList → UInt8
  | .open .. => HeaderCode.open.toByte
  | .begin .. => HeaderCode.begin.toByte
  | .attach .. => HeaderCode.attach.toByte
  | .disposition .. => HeaderCode.disposition.toByte
  | .detach .. => HeaderCode.detach.toByte
  | .source .. => AmqpType.source.toByte
  | .target .. => AmqpType.target.toByte

def slots : PlainList → List Slot
  | .open p _ => p.slots
  | .begin p _ => p.slots
  | .attach p _ => p.slots
  | .disposition p _ => p.slots
  | .detach p _ => p.slots
  | .source s _ => s.slots
  | .target t _ => t.slots

/-- The list that is made, of a performative in a header. -/
def encode (doff type channel : Cell Int) : PlainList → Run (Ptr TlvAmqp)
  | .open p _ => performativeList .open (.open p) doff type channel
  | .begin p _ => performativeList .begin (.begin p) doff type channel
  | .attach p _ => performativeList .attach (.attach p) doff type channel
  | .disposition p _ => performativeList .disposition (.disposition p) doff type channel
  | .detach p _ => performativeList .detach (.detach p) doff type channel
  | .source s _ => wrapAmqpSource s
  | .target t _ => wrapAmqpTarget t

theorem of_makes {arguments : Run (Ptr TlvList)} {code : UInt8} {ts : List Slot} {whole : Prop}
    (h : Makes arguments code ts whole) :
    ∃ node, Ptr.map TlvList.node <$> arguments = .ok (.ref node) ∧ Positional code ts node := by
  obtain ⟨l, hl, hpositional, -⟩ := h
  exact ⟨l.node, by rw [hl]; rfl, hpositional⟩

end PlainList

theorem plainSource_listed {s : AmqpSource} (h : s.Sendable fun _ => True) :
    ∃ node, wrapAmqpSource s = .ok (.ref node) ∧
      Positional AmqpType.source.toByte s.slots node := by
  obtain ⟨-, l, hl, hpositional⟩ := listArguments_wraps AmqpType.source.toByte
    (h.toPlain.wraps h.noMode) h.present
  refine ⟨l.node, ?_, hpositional⟩
  rw [wrapAmqpSource_eq h.dynamicNodeProperties, hl]
  rfl

theorem plainTarget_listed {t : AmqpTarget} (h : t.Sendable fun _ => True) :
    ∃ node, wrapAmqpTarget t = .ok (.ref node) ∧
      Positional AmqpType.target.toByte t.slots node := by
  obtain ⟨-, l, hl, hpositional⟩ := listArguments_wraps AmqpType.target.toByte h.wraps h.present
  refine ⟨l.node, ?_, hpositional⟩
  rw [wrapAmqpTarget_eq h.dynamicNodeProperties, hl]
  rfl

/-- Each field is in its place. -/
theorem plainList_positional (x : PlainList) (doff type channel : Cell Int) :
    ∃ node, x.encode doff type channel = .ok (.ref node) ∧ Positional x.code x.slots node := by
  cases x with
  | «open» p h => exact PlainList.of_makes (openArguments_makes h)
  | «begin» p h => exact PlainList.of_makes (beginArguments_makes h)
  | attach p h => exact PlainList.of_makes (attachArguments_makes h)
  | disposition p h => exact PlainList.of_makes (dispositionArguments_makes h)
  | detach p h => exact PlainList.of_makes (detachArguments_makes h)
  | source s h => exact plainSource_listed h
  | target t h => exact plainTarget_listed h

/-- A container id and an idle timeout, and nothing between them. -/
def idleOpen : PlainList :=
  .open ⟨.ref (.ofBytes [0x63]), .null, .null, .null, .ref 60000, .null, .null, .null, .null, .null⟩
    ⟨trivial, trivial, trivial, trivial, trivial⟩

example (doff type channel : Cell Int) : ∃ node k,
    idleOpen.encode doff type channel = .ok (.ref node) ∧ node.length = .is 17 ∧
      node.bytes = .ref (Block.part [0, 0x53, 0x10, 0xc0, 11, 5, 0xa1, 1, 0x63, 0x40, 0x40, 0x40,
        0x70, 0, 0, 0xea, 0x60] k) :=
  ⟨_, _, rfl, rfl, rfl⟩

/-! ### Lists that are not always made -/

/-- A packet, error or source whose encoder slips for some of its fields. -/
inductive UnevenList where
  | transfer (p : AmqpTransfer) (h : p.Sendable fun _ => True)
  | init (p : SaslInit) (h : p.Sendable)
  | error (e : AmqpError) (h : e.Plain)
  | source (s : AmqpSource) (h : s.Plain fun _ => True)

/-- The slots with the node of `aborted`, which the encoder stores elsewhere. -/
def AmqpTransfer.positions (p : AmqpTransfer) : List Slot :=
  p.slots.set 9 (slotOf p.aborted wrapBool)

/-- The slots with the node of `distribution_mode`, which the wrapper stores elsewhere. -/
def AmqpSource.positions (s : AmqpSource) : List Slot :=
  s.slots.set 6
    (slotOf s.distributionMode fun e => do wrapSymbol ⟨.ref (stringDistributionMode (← e.get))⟩)

namespace UnevenList

/-- The code of the descriptor. -/
def code : UnevenList → UInt8
  | transfer .. => HeaderCode.transfer.toByte
  | init .. => HeaderCode.init.toByte
  | error .. => AmqpType.error.toByte
  | source .. => AmqpType.source.toByte

def positions : UnevenList → List Slot
  | transfer p _ => p.positions
  | init p _ => p.slots
  | error e _ => e.slots
  | source s _ => s.positions

/-- The list that is made, of a performative in a header. -/
def encode (doff type channel : Cell Int) : UnevenList → Run (Ptr TlvAmqp)
  | transfer p _ => performativeList .transfer (.transfer p) doff type channel
  | init p _ => performativeList .init (.init p) doff type channel
  | error e _ => .ref <$> wrapAmqpError e
  | source s _ => wrapAmqpSource s

/-- The list is made, with each field in its place. -/
def Listed (doff type channel : Cell Int) (x : UnevenList) : Prop :=
  ∃ node, x.encode doff type channel = .ok (.ref node) ∧ Positional x.code x.positions node

/-- A transfer is not aborted, an INIT with a host name has a response, an error has a field, and
a source has one, but no distribution mode. -/
def Regular : UnevenList → Prop
  | transfer p _ => p.aborted = .null
  | init p _ => p.initialResponse = .null → p.hostName = .null
  | error e _ => ∃ t ∈ e.slots, t ≠ none
  | source s _ => s.distributionMode = .null ∧ ∃ t ∈ s.slots, t ≠ none

end UnevenList

/-- The wrappers of a list made their nodes. -/
theorem Positional.wrap_ok {code : UInt8} {ts : List Slot} {tlv : TlvAmqp} {wrap : Run TlvAmqp}
    (h : Positional code ts tlv) (hmem : some wrap ∈ ts) : ∃ tlv', wrap = .ok tlv' := by
  obtain ⟨cs, hcs, -⟩ := h
  clear * - hcs hmem
  induction hcs with
  | nil => exact absurd hmem List.not_mem_nil
  | cons ht _ ih =>
    rcases List.mem_cons.1 hmem with rfl | hmem
    · cases ht with
      | present htlv _ => exact ⟨_, htlv⟩
    · exact ih hmem

/-- A field whose wrapper returns `NULL` is absent from every list. -/
theorem Positional.absent {α : Type} {P : α → Prop} {p : Ptr α} {wrap : α → Run (Ptr TlvAmqp)}
    {code : UInt8} {ts : List Slot} {tlv : TlvAmqp} (h : Positional code ts tlv)
    (hmem : slotPtr p wrap ∈ ts) (hp : p.Optional P) (hwrap : ∀ x tlv', wrap x ≠ .ok (.ref tlv')) :
    p = .null := by
  cases p with
  | indet => exact hp.elim
  | null => rfl
  | ref x =>
    obtain ⟨tlv', htlv'⟩ := h.wrap_ok hmem
    obtain ⟨q, hq, hderef⟩ := bind_eq_ok.1 htlv'
    cases q with
    | indet => cases hderef
    | null => cases hderef
    | ref tlv'' => exact absurd hq (hwrap x tlv'')

theorem wrapAborted_ne_ref (n : Int) (tlv : TlvAmqp) : wrapAborted n ≠ .ok (.ref tlv) := by
  intro h
  obtain ⟨tlv', -, h⟩ := bind_eq_ok.1 h
  cases h

theorem wrapDistributionMode_ne_ref (e : EnumOrChars DistributionMode) (tlv : TlvAmqp) :
    wrapDistributionMode e ≠ .ok (.ref tlv) := by
  intro h
  obtain ⟨mode, -, h⟩ := bind_eq_ok.1 h
  obtain ⟨tlv', -, h⟩ := bind_eq_ok.1 h
  cases h

theorem AmqpTransfer.positions_of_null {p : AmqpTransfer} (h : p.aborted = .null) :
    p.positions = p.slots := by
  unfold positions slots
  rw [h]
  rfl

theorem AmqpSource.positions_of_null {s : AmqpSource} (h : s.distributionMode = .null) :
    s.positions = s.slots := by
  unfold positions slots
  rw [h]
  rfl

section Uneven

variable {doff type channel : Cell Int}

theorem transfer_listed_iff (p : AmqpTransfer) (h : p.Sendable fun _ => True) :
    (UnevenList.transfer p h).Listed doff type channel ↔ p.aborted = .null := by
  constructor
  · rintro ⟨node, hnode, -⟩
    obtain ⟨l, hl, rfl⟩ := ptrMap_ok hnode
    have hpositional := (listArguments_ok _ p.nodesFill (transferArguments_ok hl)).1
    exact hpositional.absent (by simp [AmqpTransfer.slots]) h.aborted wrapAborted_ne_ref
  · intro haborted
    obtain ⟨node, hnode, hpositional⟩ := PlainList.of_makes (transferArguments_makes h haborted)
    refine ⟨node, hnode, ?_⟩
    show Positional _ p.positions node
    rw [AmqpTransfer.positions_of_null haborted]
    exact hpositional

theorem init_listed_iff (p : SaslInit) (h : p.Sendable) :
    (UnevenList.init p h).Listed doff type channel ↔
      (p.initialResponse = .null → p.hostName = .null) := by
  constructor
  · rintro ⟨node, hnode, -⟩
    obtain ⟨l, hl, rfl⟩ := ptrMap_ok hnode
    exact (initArguments_ok hl).2
  · intro hcond
    exact PlainList.of_makes (initArguments_makes (p := p) h hcond : Makes _ _ _ True)

theorem error_listed_iff (e : AmqpError) (h : e.Plain) :
    (UnevenList.error e h).Listed doff type channel ↔ ∃ t ∈ e.slots, t ≠ none := by
  have hencode : (UnevenList.error e h).encode doff type channel =
      (fun l => Ptr.ref (TlvList.node l)) <$> listArguments AmqpType.error.toByte e.slots := by
    show Ptr.ref <$> wrapAmqpError e = _
    rw [wrapAmqpError_eq h.info]
    cases listArguments AmqpType.error.toByte e.slots <;> rfl
  constructor
  · rintro ⟨node, hnode, -⟩
    rw [hencode] at hnode
    obtain ⟨l, hl, -⟩ := map_ref_ok hnode
    exact (listArguments_ok _ e.nodesFill hl).2
  · intro hpresent
    obtain ⟨-, l, hl, hpositional⟩ := listArguments_wraps AmqpType.error.toByte
      (h.wraps : ∀ t ∈ e.slots, ∀ wrap ∈ t, Wraps True wrap) hpresent
    refine ⟨l.node, ?_, hpositional⟩
    rw [hencode, hl]
    rfl

theorem source_listed_iff (s : AmqpSource) (h : s.Plain fun _ => True) :
    (UnevenList.source s h).Listed doff type channel ↔
      s.distributionMode = .null ∧ ∃ t ∈ s.slots, t ≠ none := by
  constructor
  · rintro ⟨node, hnode, -⟩
    obtain ⟨l, hl, -⟩ := wrapAmqpSource_ok hnode
    obtain ⟨hpositional, hpresent⟩ := listArguments_ok _ s.nodesFill hl
    exact ⟨hpositional.absent (by simp [AmqpSource.slots]) h.distributionMode
      wrapDistributionMode_ne_ref, hpresent⟩
  · rintro ⟨hmode, hpresent⟩
    obtain ⟨node, hnode, hpositional⟩ := plainSource_listed ⟨h, hmode, hpresent⟩
    refine ⟨node, hnode, ?_⟩
    show Positional _ s.positions node
    rw [AmqpSource.positions_of_null hmode]
    exact hpositional

end Uneven

/-- The lists of the other kinds are made exactly of regular packets. -/
theorem unevenList_iff (x : UnevenList) (doff type channel : Cell Int) :
    x.Listed doff type channel ↔ x.Regular := by
  cases x with
  | transfer p h => exact transfer_listed_iff p h
  | init p h => exact init_listed_iff p h
  | error e h => exact error_listed_iff e h
  | source s h => exact source_listed_iff s h

/-- A transfer of which only the handle and `aborted` are set. -/
def abortedTransfer : AmqpTransfer where
  handle := .ref 1
  deliveryId := .null
  deliveryTag := .null
  deliveryTagLength := .null
  messageFormat := .null
  settled := .null
  more := .null
  rcvSettleMode := .null
  state := .null
  resume := .null
  aborted := .ref 1
  batchable := .null
  sections := .null
  sectionNumber := .null

theorem abortedTransfer_sendable : abortedTransfer.Sendable fun _ => True := by
  constructor <;> trivial

/-- `NULL` is dereferenced for the node of `aborted`. -/
theorem abortedTransfer_not_listed :
    ¬ (UnevenList.transfer abortedTransfer abortedTransfer_sendable).Listed (.is 2) (.is 0) (.is 1) :=
  fun h => nomatch (transfer_listed_iff _ _).1 h

end IotClient.Amqp
