import IotClient.Amqp.Carried

/-!
# Fields that a frame does not carry

`init_header` assigns an optional field only from an argument that is there and no null. Any other
one holds what its memory held before, so a decoded packet is the same in all memory if and only if
the frame carries every optional argument. The target of an ATTACH, the length of a delivery tag and
the error of a DETACH are never assigned, or not whole: these packets never are.
-/

namespace IotClient.Amqp

open Mem

/-! ### Packets -/

structure OpenSame (args : List TlvAmqp) (p : AmqpOpen) : Prop where
  containerId : p.containerId.SameWith Whole
  hostname : FieldSame args 1 Whole p.hostname
  maxFrameSize : FieldSame args 2 Whole p.maxFrameSize
  channelMax : FieldSame args 3 Whole p.channelMax
  idleTimeout : FieldSame args 4 Whole p.idleTimeout
  outgoingLocales : FieldSame args 5 Unwrapped.Same p.outgoingLocales
  incomingLocales : FieldSame args 6 Unwrapped.Same p.incomingLocales
  offeredCapabilities : FieldSame args 7 Unwrapped.Same p.offeredCapabilities
  desiredCapabilities : FieldSame args 8 Unwrapped.Same p.desiredCapabilities
  properties : FieldSame args 9 Whole p.properties

structure BeginSame (args : List TlvAmqp) (p : AmqpBegin) : Prop where
  remoteChannel : FieldSame args 0 Whole p.remoteChannel
  nextOutgoingId : p.nextOutgoingId.SameWith Whole
  incomingWindow : p.incomingWindow.SameWith Whole
  outgoingWindow : p.outgoingWindow.SameWith Whole
  handleMax : FieldSame args 4 Whole p.handleMax
  offeredCapabilities : FieldSame args 5 Unwrapped.Same p.offeredCapabilities
  desiredCapabilities : FieldSame args 6 Unwrapped.Same p.desiredCapabilities
  properties : FieldSame args 7 Whole p.properties

/-- The values of an array that was unwrapped. -/
def ValuesSame (values : List (Ptr Unwrapped)) : Prop := ∀ p ∈ values, p.SameWith Unwrapped.Same

structure SourceSame (p : AmqpSource) : Prop where
  address : p.address.Same
  durable : p.durable.Same
  expiryPeriod : p.expiryPeriod.Same
  timeout : p.timeout.Same
  dynamic : p.dynamic.Same
  dynamicNodeProperties : p.dynamicNodeProperties.Same
  distributionMode : p.distributionMode.Same
  filter : p.filter.Same
  defaultOutcome : p.defaultOutcome.SameWith (·.code.Same)
  outcomes : p.outcomes.SameWith ValuesSame
  capabilities : p.capabilities.SameWith ValuesSame

structure TargetSame (p : AmqpTarget) : Prop where
  address : p.address.Same
  durable : p.durable.Same
  expiryPeriod : p.expiryPeriod.Same
  timeout : p.timeout.Same
  dynamic : p.dynamic.Same
  dynamicNodeProperties : p.dynamicNodeProperties.Same
  capabilities : p.capabilities.SameWith ValuesSame

structure AttachSame (args : List TlvAmqp) (p : AmqpAttach) : Prop where
  name : p.name.SameWith Whole
  handle : p.handle.SameWith Whole
  role : p.role.SameWith Whole
  sndSettleMode : FieldSame args 3 Whole p.sndSettleMode
  rcvSettleMode : FieldSame args 4 Whole p.rcvSettleMode
  source : FieldSame args 5 SourceSame p.source
  target : FieldSame args 6 TargetSame p.target
  unsettled : FieldSame args 7 Whole p.unsettled
  incompleteUnsettled : FieldSame args 8 Whole p.incompleteUnsettled
  initialDeliveryCount : FieldSame args 9 Whole p.initialDeliveryCount
  maxMessageSize : FieldSame args 10 Whole p.maxMessageSize
  offeredCapabilities : FieldSame args 11 ValuesSame p.offeredCapabilities
  desiredCapabilities : FieldSame args 12 ValuesSame p.desiredCapabilities
  properties : FieldSame args 13 Whole p.properties

/-- The length of the delivery tag has no argument of its own. -/
structure TransferSame (args : List TlvAmqp) (p : AmqpTransfer) : Prop where
  handle : p.handle.SameWith Whole
  deliveryId : FieldSame args 1 Whole p.deliveryId
  deliveryTag : FieldSame args 2 Whole p.deliveryTag
  deliveryTagLength : FieldSame args 2 Whole p.deliveryTagLength
  messageFormat : FieldSame args 3 (·.messageFormat.Same) p.messageFormat
  settled : FieldSame args 4 Whole p.settled
  more : FieldSame args 5 Whole p.more
  rcvSettleMode : FieldSame args 6 Whole p.rcvSettleMode
  state : FieldSame args 7 (·.code.Same) p.state
  resume : FieldSame args 8 Whole p.resume
  aborted : FieldSame args 9 Whole p.aborted
  batchable : FieldSame args 10 Whole p.batchable
  sections : p.sections.Same
  sectionNumber : p.sectionNumber.SameWith Cell.Same

structure DispositionSame (args : List TlvAmqp) (p : AmqpDisposition) : Prop where
  role : p.role.SameWith Whole
  first : p.first.SameWith Whole
  last : FieldSame args 2 Whole p.last
  settled : FieldSame args 3 Whole p.settled
  state : FieldSame args 4 (·.code.Same) p.state
  batchable : FieldSame args 5 Whole p.batchable

structure ErrorSame (p : AmqpError) : Prop where
  condition : p.condition.Same
  description : p.description.Same
  info : p.info.Same

structure DetachSame (args : List TlvAmqp) (p : AmqpDetach) : Prop where
  handle : p.handle.SameWith Whole
  closed : FieldSame args 1 Whole p.closed
  error : FieldSame args 2 ErrorSame p.error

/-! ### What is read -/

section Read

variable {list : TlvAmqp} {args : List TlvAmqp}

/-- The optional arguments of an OPEN. -/
def openOptional : List Nat := [1, 2, 3, 4, 5, 6, 7, 8, 9]

/-- The optional arguments of a BEGIN. -/
def beginOptional : List Nat := [0, 4, 5, 6, 7]

/-- The optional arguments of a DISPOSITION. -/
def dispositionOptional : List Nat := [2, 3, 4, 5]

theorem made_of_element (h : Made list) {n : Int} (hn : list.count = .ref n) {k : Nat}
    {e : TlvAmqp} (he : list.element k = .ok e) : Made e := by
  obtain ⟨values, hvalues, hlen, hvalue⟩ := values_of_element h hn he
  have ha : Announces list values := ⟨n, hn, hlen, .inr hvalues⟩
  exact ha.made h e (List.mem_of_getElem? hvalue)

theorem readOpen_same (hmade : Made list) (ha : Announces list args) {q : Packet}
    (hq : readOpen list = .ok (some q)) :
    ∃ p, q = .open p ∧ (OpenSame args p ↔ ∀ k ∈ openOptional, Carried args k) := by
  obtain ⟨n, hn, -, hq⟩ := counted_eq_ok hq
  obtain ⟨first, hfirst, hq⟩ := bind_eq_ok.1 hq
  obtain ⟨containerId, hcontainer, hq⟩ := bind_eq_ok.1 hq
  obtain ⟨hostname, h1, hq⟩ := bind_eq_ok.1 hq
  obtain ⟨maxFrameSize, h2, hq⟩ := bind_eq_ok.1 hq
  obtain ⟨channelMax, h3, hq⟩ := bind_eq_ok.1 hq
  obtain ⟨idleTimeout, h4, hq⟩ := bind_eq_ok.1 hq
  obtain ⟨outgoingLocales, h5, hq⟩ := bind_eq_ok.1 hq
  obtain ⟨incomingLocales, h6, hq⟩ := bind_eq_ok.1 hq
  obtain ⟨offeredCapabilities, h7, hq⟩ := bind_eq_ok.1 hq
  obtain ⟨desiredCapabilities, h8, hq⟩ := bind_eq_ok.1 hq
  obtain ⟨properties, h9, hq⟩ := bind_eq_ok.1 hq
  cases hq
  refine ⟨_, rfl, ?_⟩
  have h0 : containerId.SameWith Whole :=
    unwrapCodes_whole first (made_of_element hmade hn hfirst) _ hcontainer
  simp only [openOptional, List.forall_mem_cons,
    ← optional_same hmade ha unwrapCodes_whole h1, ← optional_same hmade ha unwrapCodes_whole h2,
    ← optional_same hmade ha unwrapCodes_whole h3, ← optional_same hmade ha unwrapCodes_whole h4,
    ← optional_same hmade ha unwrapArrayHead_same h5,
    ← optional_same hmade ha unwrapArrayHead_same h6,
    ← optional_same hmade ha unwrapArrayHead_same h7,
    ← optional_same hmade ha unwrapArrayHead_same h8,
    ← optional_same (P := Whole) hmade ha unwrapNothing_same h9]
  constructor
  · rintro ⟨-, s1, s2, s3, s4, s5, s6, s7, s8, s9⟩
    exact ⟨s1, s2, s3, s4, s5, s6, s7, s8, s9, List.forall_mem_nil _⟩
  · rintro ⟨s1, s2, s3, s4, s5, s6, s7, s8, s9, -⟩
    exact ⟨h0, s1, s2, s3, s4, s5, s6, s7, s8, s9⟩

theorem readBegin_same (hmade : Made list) (ha : Announces list args) {q : Packet}
    (hq : readBegin list = .ok (some q)) :
    ∃ p, q = .begin p ∧ (BeginSame args p ↔ ∀ k ∈ beginOptional, Carried args k) := by
  obtain ⟨remoteChannel, h0, hq⟩ := bind_eq_ok.1 hq
  obtain ⟨nextOutgoingId, h1, hq⟩ := bind_eq_ok.1 hq
  obtain ⟨incomingWindow, h2, hq⟩ := bind_eq_ok.1 hq
  obtain ⟨outgoingWindow, h3, hq⟩ := bind_eq_ok.1 hq
  obtain ⟨handleMax, h4, hq⟩ := bind_eq_ok.1 hq
  obtain ⟨offeredCapabilities, h5, hq⟩ := bind_eq_ok.1 hq
  obtain ⟨desiredCapabilities, h6, hq⟩ := bind_eq_ok.1 hq
  obtain ⟨properties, h7, hq⟩ := bind_eq_ok.1 hq
  cases hq
  refine ⟨_, rfl, ?_⟩
  simp only [beginOptional, List.forall_mem_cons,
    ← optional_same hmade ha unwrapCodes_whole h0, ← optional_same hmade ha unwrapCodes_whole h4,
    ← optional_same hmade ha unwrapArrayHead_same h5,
    ← optional_same hmade ha unwrapArrayHead_same h6,
    ← optional_same (P := Whole) hmade ha unwrapNothing_same h7]
  constructor
  · rintro ⟨s0, -, -, -, s4, s5, s6, s7⟩
    exact ⟨s0, s4, s5, s6, s7, List.forall_mem_nil _⟩
  · rintro ⟨s0, s4, s5, s6, s7, -⟩
    -- the required arguments stand before optional ones that are there
    obtain ⟨e, he, -⟩ := (optional_same (P := Whole) hmade ha unwrapNothing_same h7).1 s7
    obtain ⟨hlt, -⟩ := List.getElem?_eq_some_iff.1 he
    exact ⟨s0, (required_same hmade ha unwrapCodes_whole h1).2 (by omega),
      (required_same hmade ha unwrapCodes_whole h2).2 (by omega),
      (required_same hmade ha unwrapCodes_whole h3).2 (by omega), s4, s5, s6, s7⟩

/-- The state of a DISPOSITION. -/
theorem readState_same (hmade : Made list) (ha : Announces list args) {p : Ptr AmqpState}
    (hp : optionalList list 4 (fun element => some <$> unwrapState element) = .ok (some p)) :
    FieldSame args 4 (·.code.Same) p ↔ Carried args 4 := by
  refine given_same (Option.some_injective _) hmade ha (fun e hmade' q hq => ?_) hp
  obtain ⟨b, -, hq⟩ := bind_eq_ok.1 hq
  cases b with
  | false => cases hq
  | true =>
    rw [if_pos rfl] at hq
    dsimp only at hq
    cases hstate : unwrapState e with
    | error f =>
      rw [hstate] at hq
      cases hq
    | ok state =>
      rw [hstate] at hq
      cases hq
      exact unwrapState_same e hmade' q hstate

theorem readDisposition_same (hmade : Made list) (ha : Announces list args) {q : Packet}
    (hq : readDisposition list = .ok (some q)) :
    ∃ p, q = .disposition p ∧
      (DispositionSame args p ↔ ∀ k ∈ dispositionOptional, Carried args k) := by
  obtain ⟨-, hq⟩ := unless_eq_ok hq
  obtain ⟨role, h0, hq⟩ := bind_eq_ok.1 hq
  obtain ⟨first, h1, hq⟩ := bind_eq_ok.1 hq
  obtain ⟨last, h2, hq⟩ := bind_eq_ok.1 hq
  obtain ⟨settled, h3, hq⟩ := bind_eq_ok.1 hq
  obtain ⟨state, h4, hq⟩ := nested_eq_ok hq
  obtain ⟨batchable, h5, hq⟩ := bind_eq_ok.1 hq
  cases hq
  refine ⟨_, rfl, ?_⟩
  simp only [dispositionOptional, List.forall_mem_cons,
    ← optional_same hmade ha unwrapCodes_whole h2, ← optional_same hmade ha unwrapBool_same h3,
    ← readState_same hmade ha h4, ← optional_same hmade ha unwrapBool_same h5]
  constructor
  · rintro ⟨-, -, s2, s3, s4, s5⟩
    exact ⟨s2, s3, s4, s5, List.forall_mem_nil _⟩
  · rintro ⟨s2, s3, s4, s5, -⟩
    obtain ⟨e, he, -⟩ := (optional_same hmade ha unwrapBool_same h5).1 s5
    obtain ⟨hlt, -⟩ := List.getElem?_eq_some_iff.1 he
    have : Nonempty RoleCode := ⟨.sender⟩
    exact ⟨(required_same hmade ha (copied_same fun _ => trivial) h0).2 (by omega),
      (required_same hmade ha unwrapCodes_whole h1).2 (by omega), s2, s3, s4, s5⟩

/-! ### Packets that are never whole -/

/-- The target is read and forgotten. -/
theorem readAttachTarget_indet {p : Ptr AmqpTarget} (hp : readAttachTarget list = .ok (some p)) :
    p = .indet := by
  obtain ⟨n, -, hp⟩ := bind_eq_ok.1 hp
  split at hp
  case isFalse =>
    cases hp
    rfl
  case isTrue =>
    obtain ⟨e, -, hp⟩ := bind_eq_ok.1 hp
    obtain ⟨code, -, hp⟩ := bind_eq_ok.1 hp
    split at hp
    case isFalse =>
      cases hp
      rfl
    case isTrue =>
      obtain ⟨target, -, hp⟩ := bind_eq_ok.1 hp
      cases target with
      | none => cases hp
      | some target =>
        cases hp
        rfl

theorem not_fieldSame_indet {α : Type} [Nonempty α] {P : α → Prop} {k : Nat} :
    ¬ FieldSame args k P (.indet : Ptr α) :=
  fun h => Ptr.not_same_indet h.sameWith.same

theorem readAttach_not_same (args : List TlvAmqp) {q : Packet} (hq : readAttach list = .ok (some q)) :
    ∃ p, q = .attach p ∧ ¬ AttachSame args p := by
  obtain ⟨p, rfl, -, -, -, htarget⟩ := readAttach_ok hq
  refine ⟨p, rfl, fun h => ?_⟩
  have hsame := h.target
  rw [readAttachTarget_indet htarget] at hsame
  have : Nonempty AmqpTarget := ⟨⟨.null, .null, .null, .null, .null, .null, .null⟩⟩
  exact not_fieldSame_indet hsame

/-- Nothing is assigned to the length of the tag, whatever sections follow. -/
theorem readTransfer_not_same (args : List TlvAmqp) {q : Packet} (hq : readTransfer list = .ok (some q)) :
    ∃ p, q = .transfer p ∧
      ∀ sections number, ¬ TransferSame args { p with sections, sectionNumber := number } := by
  obtain ⟨p, heq, -, -, hlength⟩ := readTransfer_ok hq
  cases heq
  refine ⟨p, rfl, fun sections number h => ?_⟩
  have hsame := h.deliveryTagLength
  dsimp only at hsame
  rw [hlength] at hsame
  exact not_fieldSame_indet hsame

theorem element_beyond (h : Made list) {n : Int} (hn : list.count = .ref n) {k : Nat}
    (hle : n ≤ k) : ¬ Returns (list.element k) := by
  rintro ⟨e, he⟩
  obtain ⟨values, -, hlen, hvalue⟩ := values_of_element h hn he
  obtain ⟨hlt, -⟩ := List.getElem?_eq_some_iff.1 hvalue
  omega

/-- The arguments of the error would stand in the sixth argument of the DETACH. -/
theorem readError_condition (h : Made list) {n : Int} (hn : list.count = .ref n) (hle : n ≤ 3)
    {error : AmqpError} (herror : readError list = .ok error) : error.condition = .indet := by
  obtain ⟨condition, hcondition, herror⟩ := bind_eq_ok.1 herror
  obtain ⟨_, -, herror⟩ := bind_eq_ok.1 herror
  obtain ⟨_, -, herror⟩ := bind_eq_ok.1 herror
  cases herror
  obtain ⟨element, -, hcondition⟩ := bind_eq_ok.1 hcondition
  obtain ⟨count, -, hcondition⟩ := bind_eq_ok.1 hcondition
  split at hcondition
  case isTrue =>
    obtain ⟨e, he, -⟩ := bind_eq_ok.1 hcondition
    exact absurd ⟨e, he⟩ (element_beyond h hn (by omega))
  case isFalse =>
    cases hcondition
    rfl

theorem readDetachError_cases (h : Made list) {n : Int} (hn : list.count = .ref n) (hle : n ≤ 3)
    {p : Ptr AmqpError} (hp : readDetachError list = .ok (some p)) :
    p = .indet ∨ ∃ error, p = .ref error ∧ error.condition = .indet := by
  obtain ⟨m, -, hp⟩ := bind_eq_ok.1 hp
  split at hp
  case isFalse =>
    cases hp
    exact .inl rfl
  case isTrue =>
    obtain ⟨e, -, hp⟩ := bind_eq_ok.1 hp
    obtain ⟨code, -, hp⟩ := bind_eq_ok.1 hp
    split at hp
    case isFalse =>
      cases hp
      exact .inl rfl
    case isTrue =>
      obtain ⟨b, -, hp⟩ := bind_eq_ok.1 hp
      cases b with
      | false => cases hp
      | true =>
        rw [if_pos rfl] at hp
        cases herror : readError list with
        | error f =>
          rw [herror] at hp
          cases hp
        | ok error =>
          rw [herror] at hp
          cases hp
          exact .inr ⟨error, rfl, readError_condition h hn hle herror⟩

theorem readDetach_not_same (args : List TlvAmqp) (h : Made list) {q : Packet}
    (hq : readDetach list = .ok (some q)) :
    ∃ p, q = .detach p ∧ ¬ DetachSame args p := by
  obtain ⟨p, rfl, -, herror, n, hn, hle⟩ := readDetach_ok hq
  refine ⟨p, rfl, fun hs => ?_⟩
  rcases readDetachError_cases h hn hle herror with hindet | ⟨error, herror, hcondition⟩
  · have hsame := hs.error
    rw [hindet] at hsame
    have : Nonempty AmqpError := ⟨⟨.null, .null, .null⟩⟩
    exact not_fieldSame_indet hsame
  · have hsame := (hs.error.sameWith.target error herror).condition
    rw [hcondition] at hsame
    exact Ptr.not_same_indet hsame

end Read

/-! ### Frames -/

/-- The packets that the client reads arguments of once it is connected. -/
inductive PerformativeKind where
  | open | begin | attach | transfer | disposition | detach
  deriving DecidableEq

def PerformativeKind.code : PerformativeKind → HeaderCode
  | .open => .open
  | .begin => .begin
  | .attach => .attach
  | .transfer => .transfer
  | .disposition => .disposition
  | .detach => .detach

/-- The list of a performative, with its descriptor. -/
def listVal (code : HeaderCode) (w : Width) (arguments : List Val) : Val :=
  .described (.fixed .smallUlong [code.toByte]) (.list w arguments)

def performativeBody (code : HeaderCode) (w : Width) (arguments : List Val)
    (sections : List Section) : List UInt8 :=
  (listVal code w arguments).enc ++ (sections.map fun s => s.val.enc).flatten

/-- A frame of any arguments; only a TRANSFER has sections. -/
structure PerformativeFrame where
  kind : PerformativeKind
  channel : UInt16
  width : Width
  arguments : List Val
  sections : List Section
  ok : (Val.list width arguments).Ok
  sections_nil : kind ≠ .transfer → sections = []
  size_lt : 8 + (performativeBody kind.code width arguments sections).length < 2 ^ 31

/-- The packet does not depend on what memory held, and has `NULL` for what is not carried. -/
def Packet.SameIn (args : List TlvAmqp) : Packet → Prop
  | .open p => OpenSame args p
  | .begin p => BeginSame args p
  | .attach p => AttachSame args p
  | .transfer p => TransferSame args p
  | .disposition p => DispositionSame args p
  | .detach p => DetachSame args p
  | _ => False

namespace PerformativeFrame

variable (f : PerformativeFrame)

def body : List UInt8 := performativeBody f.kind.code f.width f.arguments f.sections

def wire : List UInt8 := rawFrame (UInt32.ofNat (8 + f.body.length)) 2 0 f.channel f.body

def list : TlvAmqp := (listVal f.kind.code f.width f.arguments).node

/-- The arguments as they are read. -/
def args : List TlvAmqp := f.arguments.map Val.node

/-- `amqp_decode` reads the frame, and what it makes of it depends on the frame alone. -/
def DecodedSame : Prop :=
  ∃ p, amqpDecode f.wire f.wire.length = .ok (.ref (.decoded f.kind.code.toByte 2 0
    f.channel.toInt16.toInt (.ref p))) ∧ p.SameIn f.args

/-- The list is a `LIST_8` of an OPEN, BEGIN or DISPOSITION that carries all optional arguments, and
those that are looked into are of the types that are read without a fault. -/
def Complete : Prop :=
  f.width = .narrow ∧ match f.kind with
    | .open => OpenFits f.args ∧ ∀ k ∈ openOptional, Carried f.args k
    | .begin => BeginFits f.args ∧ ∀ k ∈ beginOptional, Carried f.args k
    | .disposition => DispositionReads f.args ∧ ∀ k ∈ dispositionOptional, Carried f.args k
    | .attach | .transfer | .detach => False

theorem node : Node (listVal f.kind.code f.width f.arguments).enc f.list := by
  have hok : (listVal f.kind.code f.width f.arguments).Ok :=
    .described (.fixed rfl) f.ok trivial
  have hread : getTlv (listVal f.kind.code f.width f.arguments).enc 0 =
      .ok (f.list, 0 + (listVal f.kind.code f.width f.arguments).enc.length) :=
    hok.readable.1 _ _ 0 [] (by omega) (List.append_nil _).symm
  obtain ⟨out, s, hd, hlen, hnode⟩ := getTlv_iff.1 hread
  rw [List.drop_zero] at hd
  rw [Nat.zero_add, Nat.zero_add] at hlen
  obtain ⟨rfl, -⟩ := List.append_inj ((List.append_nil _).trans hd) hlen
  exact hnode

theorem described : f.list.Described f.kind.code.toByte :=
  ⟨_, _, [], rfl, rfl, rfl⟩

theorem count_eq : f.list.count = .ref f.args.length := by
  unfold list listVal args
  rw [Val.node_described, Val.body, Val.nodes_eq]
  rfl

theorem list_eq : f.list.list = match f.width with
    | .narrow => .ref f.args
    | .wide => .indet := by
  unfold list listVal args
  rw [Val.node_described, Val.body, Val.nodes_eq]
  rfl

/-- Arguments of a `LIST_32` are not found. -/
theorem announces_iff {args : List TlvAmqp} :
    Announces f.list args ↔ args = f.args ∧ (f.width = .narrow ∨ args = []) := by
  have hall (h : f.width = .narrow ∨ f.args = []) : Announces f.list f.args := by
    refine ⟨_, f.count_eq, (Int.toNat_natCast _).symm, ?_⟩
    rcases h with hw | hnil
    · right
      rw [f.list_eq, hw]
    · exact .inl hnil
  constructor
  · intro h
    obtain ⟨n, hn, hlen, hlist⟩ := id h
    have hshape : f.width = .narrow ∨ args = [] := by
      rcases hlist with hnil | hlist
      · exact .inr hnil
      · left
        rw [f.list_eq] at hlist
        cases hw : f.width with
        | narrow => rfl
        | wide =>
          rw [hw] at hlist
          cases hlist
    obtain rfl : n = f.args.length := Ptr.ref.inj (hn.symm.trans f.count_eq)
    refine ⟨?_, hshape⟩
    rcases hshape with hw | rfl
    · exact h.unique (hall (.inl hw))
    · exact (List.eq_nil_of_length_eq_zero (by rw [← Int.toNat_natCast f.args.length, ← hlen]; rfl)).symm
  · rintro ⟨rfl, h⟩
    exact hall h

/-- The frame is long enough and of the length it says. -/
theorem decode_eq : amqpDecode f.wire f.wire.length =
    .ref <$> decodeFrame f.wire f.body.length 2 0 f.channel.toInt16.toInt := by
  have hn : (UInt32.ofNat (8 + f.body.length)).toInt32.toInt = f.body.length + 8 := by
    have hlt : 8 + f.body.length < 2 ^ 31 := f.size_lt
    have hsize := getInt_size (i := 0) (r := []) hlt rfl
    have hread := (getInt_drop (i := 0) (r := []) rfl).symm.trans hsize
    rw [Except.ok.inj hread]
    omega
  have hne : f.body ≠ [] := by
    unfold body performativeBody
    exact List.append_ne_nil_of_left_ne_nil (List.ne_nil_of_length_pos (Val.enc_pos _)) _
  exact amqpDecode_sized hn hne (.inl rfl) fun h => by cases h.2.2.1

theorem wire_drop : f.wire.drop 8 = (listVal f.kind.code f.width f.arguments).enc ++
    (f.sections.map fun s => s.val.enc).flatten := rfl

/-- The packet that was read. -/
theorem decoded_iff (hne : f.kind ≠ .transfer) {p : Packet} :
    amqpDecode f.wire f.wire.length = .ok (.ref (.decoded f.kind.code.toByte 2 0
        f.channel.toInt16.toInt (.ref p))) ↔
      initPacket f.kind.code.toByte f.list = .ok (some p) := by
  have hcode : f.kind.code.toByte ≠ HeaderCode.transfer.toByte := by
    cases hp : f.kind <;> first | exact absurd hp hne | decide
  rw [decode_eq, decodeFrame_node f.wire_drop f.node f.described hcode]
  cases initPacket f.kind.code.toByte f.list with
  | error e => exact iff_of_false (fun h => by cases h) fun h => by cases h
  | ok r =>
    cases r with
    | none => exact iff_of_false (fun h => by cases h) fun h => by cases h
    | some q =>
      constructor
      · intro h
        cases h
        rfl
      · intro h
        cases h
        rfl

/-- A packet whose optional fields are all assigned from their arguments. -/
theorem decodedSame_iff (hne : f.kind ≠ .transfer) {read : TlvAmqp → Run (Option Packet)}
    {Fits : List TlvAmqp → Prop} {optionals : List Nat}
    (hread : initPacket f.kind.code.toByte f.list = read f.list)
    (hgives : Gives (read f.list) ↔ ∃ args, Announces f.list args ∧ Fits args)
    (hsame : ∀ {args}, Announces f.list args → ∀ {q}, read f.list = .ok (some q) →
      (q.SameIn args ↔ ∀ k ∈ optionals, Carried args k))
    (hoptional : optionals ≠ []) : f.DecodedSame ↔
      f.width = .narrow ∧ Fits f.args ∧ ∀ k ∈ optionals, Carried f.args k := by
  unfold DecodedSame
  simp only [f.decoded_iff hne, hread]
  constructor
  · rintro ⟨q, hq, hs⟩
    obtain ⟨args, ha, hfits⟩ := hgives.1 ⟨q, hq⟩
    obtain ⟨rfl, hw⟩ := f.announces_iff.1 ha
    have hcarried := (hsame ha hq).1 hs
    refine ⟨hw.resolve_right fun hnil => ?_, hfits, hcarried⟩
    obtain ⟨k, hk⟩ := List.exists_mem_of_ne_nil _ hoptional
    exact not_carried_none (by rw [hnil]; rfl) (hcarried k hk)
  · rintro ⟨hw, hfits, hcarried⟩
    have ha := f.announces_iff.2 ⟨rfl, .inl hw⟩
    obtain ⟨q, hq⟩ := hgives.2 ⟨f.args, ha, hfits⟩
    exact ⟨q, hq, (hsame ha hq).2 hcarried⟩

theorem not_decodedSame_transfer (h : f.kind = .transfer) : ¬ f.DecodedSame := by
  rintro ⟨p, hp, hs⟩
  have hdescribed := f.described
  rw [h] at hdescribed hp
  rw [decode_eq, decodeFrame_transfer_node f.wire_drop f.node hdescribed] at hp
  obtain ⟨header, hheader, heq⟩ := map_ref_ok hp
  obtain ⟨r, hr, hheader⟩ := bind_eq_ok.1 hheader
  obtain ⟨transfer, htransfer, hheader⟩ := bind_eq_ok.1 hheader
  obtain ⟨⟨number, sections⟩, -, hheader⟩ := bind_eq_ok.1 hheader
  cases hheader
  cases heq
  cases r with
  | none => cases htransfer
  | some q =>
    obtain ⟨t, rfl, hnot⟩ := readTransfer_not_same f.args hr
    cases htransfer
    exact hnot _ _ hs

end PerformativeFrame

/-- What `amqp_decode` makes of a performative is the same in all memory if and only if it is an OPEN,
BEGIN or DISPOSITION that carries all optional arguments. -/
theorem performative_decodedSame_iff (f : PerformativeFrame) : f.DecodedSame ↔ f.Complete := by
  have hmade := f.node.made
  unfold PerformativeFrame.Complete
  cases hp : f.kind with
  | «open» =>
    have hread : initPacket f.kind.code.toByte f.list = readOpen f.list := by rw [hp]; rfl
    refine f.decodedSame_iff (by rw [hp]; decide) hread (gives_readOpen hmade) ?_ (by decide)
    intro args ha q hq
    obtain ⟨p, rfl, hiff⟩ := readOpen_same hmade ha hq
    exact hiff
  | begin =>
    have hread : initPacket f.kind.code.toByte f.list = readBegin f.list := by rw [hp]; rfl
    refine f.decodedSame_iff (by rw [hp]; decide) hread (gives_readBegin hmade) ?_ (by decide)
    intro args ha q hq
    obtain ⟨p, rfl, hiff⟩ := readBegin_same hmade ha hq
    exact hiff
  | disposition =>
    have hread : initPacket f.kind.code.toByte f.list = readDisposition f.list := by
      rw [hp]; rfl
    refine f.decodedSame_iff (by rw [hp]; decide) hread (gives_readDisposition hmade) ?_ (by decide)
    intro args ha q hq
    obtain ⟨p, rfl, hiff⟩ := readDisposition_same hmade ha hq
    exact hiff
  | attach =>
    refine iff_of_false ?_ And.right
    rintro ⟨q, hq, hs⟩
    have hread := (f.decoded_iff (by rw [hp]; decide)).1 hq
    rw [hp] at hread
    obtain ⟨p, rfl, hnot⟩ := readAttach_not_same f.args hread
    exact hnot hs
  | transfer => exact iff_of_false (f.not_decodedSame_transfer hp) And.right
  | detach =>
    refine iff_of_false ?_ And.right
    rintro ⟨q, hq, hs⟩
    have hread := (f.decoded_iff (by rw [hp]; decide)).1 hq
    rw [hp] at hread
    obtain ⟨p, rfl, hnot⟩ := readDetach_not_same f.args hmade hread
    exact hnot hs

/-- The container id `c`. -/
def containerArguments : List Val := [.sized .narrow .string [0x63]]

theorem containerArguments_ok : (Val.list .narrow containerArguments).Ok := by
  refine .list (fun x hx => ?_) (by decide) (by decide)
  rw [List.mem_singleton.1 hx]
  exact .sized (by decide)

theorem container_size_lt :
    8 + (performativeBody .open .narrow containerArguments []).length < 2 ^ 31 := by
  decide

/-- An OPEN with nothing but a container id. -/
def containerOnly : PerformativeFrame where
  kind := .open
  channel := 0
  width := .narrow
  arguments := containerArguments
  sections := []
  ok := containerArguments_ok
  sections_nil _ := rfl
  size_lt := container_size_lt

/-- Its hostname is not `NULL`, but never assigned. -/
theorem containerOnly_not_decodedSame : ¬ containerOnly.DecodedSame := by
  rintro ⟨p, hp, hs⟩
  have hread := (containerOnly.decoded_iff (by decide)).1 hp
  cases hread
  have hnull := hs.hostname.absent (not_carried_none rfl)
  cases hnull

end IotClient.Amqp
