import IotClient.Amqp.Frame

/-!
# Performatives and back

`Performative` are the OPEN, BEGIN, DISPOSITION and DETACH that the client can send: the fields
the encoder implements, of which the optional ones may be absent. `Packet.Keeps p q` says that
`q` has every field of `p` that is present. `amqpDecode_amqpEncode`: the frame of a performative
decodes to a header with a packet that keeps it; the data offset is a byte of the frame, so it
comes back modulo 256.
-/

namespace IotClient.Amqp

open Mem

inductive Performative where
  | open (containerId : ShortString) (hostname : Option ShortString)
    (maxFrameSize idleTimeout : Option UInt8)
  | begin (nextOutgoingId incomingWindow outgoingWindow : UInt8) (handleMax : Option UInt8)
  | disposition (role : RoleCode) (first : UInt8) (last : Option UInt8) (settled : Option Bool)
    (state : Option UInt8) (batchable : Option Bool)
  | detach (handle : UInt8) (closed : Option Bool)

/-- The value of an `int` field that holds a byte. -/
def byteValue (n : UInt8) : Int := n.toNat

/-- The value of a flag. -/
def flagValue (b : Bool) : Int := b.toNat

def stateValue (code : UInt8) : AmqpState := ⟨.is code⟩

namespace Performative

def code : Performative → HeaderCode
  | .open .. => .open
  | .begin .. => .begin
  | .disposition .. => .disposition
  | .detach .. => .detach

/-! The packets; `ptr` makes the pointers of their optional fields. -/

section Packets

variable (ptr : {α : Type} → Option α → Ptr α)

def openPacket (containerId : ShortString) (hostname : Option ShortString)
    (maxFrameSize idleTimeout : Option UInt8) : AmqpOpen where
  containerId := .ref containerId.string
  hostname := ptr (hostname.map (·.string))
  maxFrameSize := ptr (maxFrameSize.map byteValue)
  channelMax := ptr none
  idleTimeout := ptr (idleTimeout.map byteValue)
  outgoingLocales := ptr none
  incomingLocales := ptr none
  offeredCapabilities := ptr none
  desiredCapabilities := ptr none
  properties := ptr none

def beginPacket (nextOutgoingId incomingWindow outgoingWindow : UInt8) (handleMax : Option UInt8) :
    AmqpBegin where
  remoteChannel := ptr none
  nextOutgoingId := .ref (byteValue nextOutgoingId)
  incomingWindow := .ref (byteValue incomingWindow)
  outgoingWindow := .ref (byteValue outgoingWindow)
  handleMax := ptr (handleMax.map byteValue)
  offeredCapabilities := ptr none
  desiredCapabilities := ptr none
  properties := ptr none

def dispositionPacket (role : RoleCode) (first : UInt8) (last : Option UInt8)
    (settled : Option Bool) (state : Option UInt8) (batchable : Option Bool) :
    AmqpDisposition where
  role := .ref role
  first := .ref (byteValue first)
  last := ptr (last.map byteValue)
  settled := ptr (settled.map flagValue)
  state := ptr (state.map stateValue)
  batchable := ptr (batchable.map flagValue)

def detachPacket (handle : UInt8) (closed : Option Bool) : AmqpDetach where
  handle := .ref (byteValue handle)
  closed := ptr (closed.map flagValue)
  error := ptr none

def packet : Performative → Packet
  | .open containerId hostname maxFrameSize idleTimeout =>
    .open (openPacket ptr containerId hostname maxFrameSize idleTimeout)
  | .begin nextOutgoingId incomingWindow outgoingWindow handleMax =>
    .begin (beginPacket ptr nextOutgoingId incomingWindow outgoingWindow handleMax)
  | .disposition role first last settled state batchable =>
    .disposition (dispositionPacket ptr role first last settled state batchable)
  | .detach handle closed => .detach (detachPacket ptr handle closed)

end Packets

theorem code_ne_transfer (p : Performative) : p.code ≠ .transfer := by
  intro h
  cases p <;> cases h

/-- The header that is sent. -/
def header (p : Performative) (doff channel : Int) : AmqpHeader where
  code := .is p.code.toByte
  doff := .is doff
  type := .is 0
  channel := .is channel
  packet := .ref (packet .ofOption p)

/-- The slots of its list of arguments. -/
def slots : Performative → List (Option Sent)
  | .open containerId hostname maxFrameSize idleTimeout =>
    [some (.string containerId), hostname.map .string, maxFrameSize.map .uint, none,
      idleTimeout.map .uint]
  | .begin nextOutgoingId incomingWindow outgoingWindow handleMax =>
    [none, some (.uint nextOutgoingId), some (.uint incomingWindow), some (.uint outgoingWindow),
      handleMax.map .uint, none, none, none]
  | .disposition role first last settled state batchable =>
    [some (.bool (role = .receiver)), some (.uint first), last.map .uint, settled.map .bool,
      state.map .state, batchable.map .bool]
  | .detach handle closed => [some (.uint handle), closed.map .bool, none]

end Performative

/-! ### Fields that are kept -/

/-- A field that is present is read with its value. -/
def Kept {α : Type} (p q : Ptr α) : Prop := ∀ x, p = .ref x → q = .ref x

theorem kept_ref {α : Type} (x : α) : Kept (.ref x) (.ref x) := fun _ h => h

theorem kept_ofRead {α : Type} (x : Option α) : Kept (.ofOption x) (.ofRead x) := by
  cases x with
  | none => exact fun _ h => nomatch h
  | some x => exact kept_ref x

structure AmqpOpen.Keeps (p q : AmqpOpen) : Prop where
  containerId : Kept p.containerId q.containerId
  hostname : Kept p.hostname q.hostname
  maxFrameSize : Kept p.maxFrameSize q.maxFrameSize
  channelMax : Kept p.channelMax q.channelMax
  idleTimeout : Kept p.idleTimeout q.idleTimeout
  outgoingLocales : Kept p.outgoingLocales q.outgoingLocales
  incomingLocales : Kept p.incomingLocales q.incomingLocales
  offeredCapabilities : Kept p.offeredCapabilities q.offeredCapabilities
  desiredCapabilities : Kept p.desiredCapabilities q.desiredCapabilities
  properties : Kept p.properties q.properties

structure AmqpBegin.Keeps (p q : AmqpBegin) : Prop where
  remoteChannel : Kept p.remoteChannel q.remoteChannel
  nextOutgoingId : Kept p.nextOutgoingId q.nextOutgoingId
  incomingWindow : Kept p.incomingWindow q.incomingWindow
  outgoingWindow : Kept p.outgoingWindow q.outgoingWindow
  handleMax : Kept p.handleMax q.handleMax
  offeredCapabilities : Kept p.offeredCapabilities q.offeredCapabilities
  desiredCapabilities : Kept p.desiredCapabilities q.desiredCapabilities
  properties : Kept p.properties q.properties

structure AmqpDisposition.Keeps (p q : AmqpDisposition) : Prop where
  role : Kept p.role q.role
  first : Kept p.first q.first
  last : Kept p.last q.last
  settled : Kept p.settled q.settled
  state : Kept p.state q.state
  batchable : Kept p.batchable q.batchable

structure AmqpDetach.Keeps (p q : AmqpDetach) : Prop where
  handle : Kept p.handle q.handle
  closed : Kept p.closed q.closed
  error : Kept p.error q.error

/-- Every field of the packet that is present is kept. -/
def Packet.Keeps : Packet → Packet → Prop
  | .open p, .open q => p.Keeps q
  | .begin p, .begin q => p.Keeps q
  | .disposition p, .disposition q => p.Keeps q
  | .detach p, .detach q => p.Keeps q
  | _, _ => False

theorem Performative.packet_keeps (p : Performative) :
    (packet .ofOption p).Keeps (packet .ofRead p) := by
  cases p <;> constructor <;> first | exact kept_ref _ | exact kept_ofRead _ | exact kept_ofRead none

/-! ### Encoding -/

namespace Performative

variable (containerId : ShortString) (hostname : Option ShortString)
  (maxFrameSize idleTimeout handleMax last state : Option UInt8)
  (nextOutgoingId incomingWindow outgoingWindow first handle : UInt8) (role : RoleCode)
  (settled batchable closed : Option Bool)

theorem open_lists :
    Lists TlvList.node
      (openArguments (openPacket .ofOption containerId hostname maxFrameSize idleTimeout))
      HeaderCode.open.toByte (slots (.open containerId hostname maxFrameSize idleTimeout)) := by
  unfold openArguments openPacket
  rw [Ptr.nonNull_ref, ok_bind, if_pos rfl]
  refine Collected.empty.field (field_ref 1 (wrapString_writes containerId)) rfl fun a ha => ?_
  refine ha.field (option_collects 2 hostname wrapString_writes) rfl fun a ha => ?_
  refine ha.field (option_collects 3 maxFrameSize wrapLong_writes) rfl fun a ha => ?_
  refine ha.field (field_null 4) rfl fun a ha => ?_
  refine ha.field (option_collects 5 idleTimeout wrapLong_writes) rfl fun a ha => ?_
  exact Args.finish_lists _ ha (k := 0) rfl fun _ => rfl

theorem begin_lists :
    Lists TlvList.node
      (beginArguments (beginPacket .ofOption nextOutgoingId incomingWindow outgoingWindow handleMax))
      HeaderCode.begin.toByte
      (slots (.begin nextOutgoingId incomingWindow outgoingWindow handleMax)) := by
  unfold beginArguments beginPacket
  refine Collected.empty.field (field_null 1) rfl fun a ha => ?_
  rw [Ptr.nonNull_ref, ok_bind, if_pos rfl]
  refine ha.field (field_ref 2 (wrapLong_writes nextOutgoingId)) rfl fun a ha => ?_
  rw [Ptr.nonNull_ref, ok_bind, if_pos rfl]
  refine ha.field (field_ref 3 (wrapLong_writes incomingWindow)) rfl fun a ha => ?_
  refine ha.field (field_ref 4 (wrapLong_writes outgoingWindow)) rfl fun a ha => ?_
  refine ha.field (option_collects 5 handleMax wrapLong_writes) rfl fun a ha => ?_
  refine ha.field (fieldPtr_null 6) rfl fun a ha => ?_
  refine ha.field (fieldPtr_null 7) rfl fun a ha => ?_
  refine ha.field (fieldPtr_null 8) rfl fun a ha => ?_
  exact Args.finish_lists _ ha (k := 1) rfl fun _ => rfl

theorem disposition_lists :
    Lists TlvList.node
      (dispositionArguments (dispositionPacket .ofOption role first last settled state batchable))
      HeaderCode.disposition.toByte
      (slots (.disposition role first last settled state batchable)) := by
  unfold dispositionArguments dispositionPacket
  rw [Ptr.nonNull_ref, ok_bind, if_pos rfl,
    Ptr.nonNull_ref, ok_bind, if_pos rfl]
  refine Collected.empty.field (field_ref 1 (wrapRole_writes role)) rfl fun a ha => ?_
  refine ha.field (field_ref 2 (wrapLong_writes first)) rfl fun a ha => ?_
  refine ha.field (option_collects 3 last wrapLong_writes) rfl fun a ha => ?_
  refine ha.field (option_collects 4 settled wrapBool_writes) rfl fun a ha => ?_
  refine ha.field (option_collects 5 state wrapState_writes) rfl fun a ha => ?_
  refine ha.field (option_collects 6 batchable wrapBool_writes) rfl fun a ha => ?_
  exact Args.finish_lists _ ha (k := 0) rfl fun _ => rfl

theorem detach_lists :
    Lists TlvList.node (detachArguments (detachPacket .ofOption handle closed))
      HeaderCode.detach.toByte (slots (.detach handle closed)) := by
  unfold detachArguments detachPacket
  rw [Ptr.nonNull_ref, ok_bind, if_pos rfl]
  refine Collected.empty.field (field_ref 1 (wrapLong_writes handle)) rfl fun a ha => ?_
  refine ha.field (option_collects 2 closed wrapBool_writes) rfl fun a ha => ?_
  refine ha.field (field_null 3) rfl fun a ha => ?_
  exact Args.finish_lists _ ha (k := 0) rfl fun _ => rfl

theorem addArguments_lists (p : Performative) (doff channel : Int) :
    Lists TlvList.node (addArguments (p.header doff channel)) p.code.toByte p.slots := by
  have hcode : (p.header doff channel).code = .is p.code.toByte := rfl
  unfold addArguments
  rw [hcode, Cell.get_is, ok_bind, HeaderCode.ofByte_toByte]
  cases p with
  | «open» containerId hostname maxFrameSize idleTimeout =>
    exact open_lists containerId hostname maxFrameSize idleTimeout
  | «begin» nextOutgoingId incomingWindow outgoingWindow handleMax =>
    exact begin_lists handleMax nextOutgoingId incomingWindow outgoingWindow
  | disposition role first last settled state batchable =>
    exact disposition_lists last state first role settled batchable
  | detach handle closed => exact detach_lists handle closed

/-! ### Decoding -/

theorem readOpen_list {h} :
    readOpen (Sent.list HeaderCode.open.toByte
        (slots (.open containerId hostname maxFrameSize idleTimeout)) h).node =
      .ok (some (.open (openPacket .ofRead containerId hostname maxFrameSize idleTimeout))) := by
  have hfirst : (slots (.open containerId hostname maxFrameSize idleTimeout))[0]? =
      some (some (.string containerId)) := rfl
  have hpos := lt_length_trim hfirst
  unfold readOpen
  rw [list_count, Ptr.deref_ref, ok_bind, if_neg (by omega),
    list_element (getElem?_trim hfirst), ok_bind, slotTlv, unwrapString_sent, ok_bind,
    optional_slot (x := hostname) rfl unwrapString_sent, ok_bind,
    optional_slot (x := maxFrameSize) rfl unwrapUint_sent, ok_bind, optional_none rfl, ok_bind,
    optional_slot (x := idleTimeout) rfl unwrapUint_sent, ok_bind, optional_none rfl, ok_bind,
    optional_none rfl, ok_bind, optional_none rfl, ok_bind, optional_none rfl, ok_bind,
    optional_none rfl, ok_bind]
  rfl

theorem readBegin_list {h} :
    readBegin (Sent.list HeaderCode.begin.toByte
        (slots (.begin nextOutgoingId incomingWindow outgoingWindow handleMax)) h).node =
      .ok (some (.begin
        (beginPacket .ofRead nextOutgoingId incomingWindow outgoingWindow handleMax))) := by
  unfold readBegin
  rw [optional_none rfl, ok_bind,
    required_some (s := .uint nextOutgoingId) rfl, unwrapUint_sent, ok_bind,
    required_some (s := .uint incomingWindow) rfl, unwrapUint_sent, ok_bind,
    required_some (s := .uint outgoingWindow) rfl, unwrapUint_sent, ok_bind,
    optional_slot (x := handleMax) rfl unwrapUint_sent, ok_bind, optional_none rfl, ok_bind,
    optional_none rfl, ok_bind, optional_none rfl, ok_bind]
  rfl

/-- The first argument is no null. -/
theorem nullFirst_list {code : UInt8} {ts : List (Option Sent)} {h} {s : Sent}
    (hk : ts[0]? = some (some s)) : nullFirst (Sent.list code ts h).node = .ok false := by
  have hpos := lt_length_trim hk
  unfold nullFirst
  rw [list_count, Ptr.deref_ref, ok_bind, if_pos (by omega),
    list_element (getElem?_trim hk), ok_bind, slotTlv, s.node_code, Cell.get_is, ok_bind,
    decide_eq_false s.code_ne]
  rfl

theorem readDisposition_list {h} :
    readDisposition (Sent.list HeaderCode.disposition.toByte
        (slots (.disposition role first last settled state batchable)) h).node =
      .ok (some (.disposition
        (dispositionPacket .ofRead role first last settled state batchable))) := by
  have hstate : ∀ code, some <$> unwrapState (Sent.state code).node =
      .ok (some (.ref (stateValue code))) := fun _ => rfl
  unfold readDisposition
  rw [nullFirst_list rfl, ok_bind, if_neg Bool.false_ne_true,
    required_some (s := .bool (role = .receiver)) rfl, unwrapRole_sent, ok_bind,
    required_some (s := .uint first) rfl, unwrapUint_sent, ok_bind,
    optional_slot (x := last) rfl unwrapUint_sent, ok_bind,
    optional_slot (x := settled) rfl unwrapBool_sent, ok_bind,
    optionalList_slot (x := state) rfl (fun _ => rfl) hstate, ok_bind]
  change (optional _ 5 unwrapBool >>= _) = _
  rw [optional_slot (x := batchable) rfl unwrapBool_sent, ok_bind]
  rfl

/-- Without an error there are at most two arguments. -/
theorem length_trim_detach : (trim (slots (.detach handle closed))).length ≤ 2 := by
  have htrim : trim (slots (.detach handle closed)) =
      trim [some (.uint handle), closed.map .bool] :=
    trim_none [some (Sent.uint handle), closed.map Sent.bool]
  rw [htrim]
  exact length_trim_le_length

theorem readDetach_list {h} :
    readDetach (Sent.list HeaderCode.detach.toByte (slots (.detach handle closed)) h).node =
      .ok (some (.detach (detachPacket .ofRead handle closed))) := by
  have hfirst : (slots (.detach handle closed))[0]? = some (some (.uint handle)) := rfl
  have hpos := lt_length_trim hfirst
  have hle := length_trim_detach handle closed
  unfold readDetach
  rw [list_count, Ptr.deref_ref, ok_bind, if_neg (by omega), nullFirst_list hfirst,
    ok_bind, if_neg Bool.false_ne_true, required_some hfirst, unwrapUint_sent, ok_bind,
    optional_slot (x := closed) rfl unwrapBool_sent, ok_bind, readDetachError, list_count,
    Ptr.deref_ref, ok_bind, if_neg (by omega)]
  rfl

/-- `init_header` finds every field in its place. -/
theorem initPacket_list (p : Performative) {h} :
    initPacket p.code.toByte (Sent.list p.code.toByte p.slots h).node =
      .ok (some (packet .ofRead p)) := by
  unfold initPacket
  rw [HeaderCode.ofByte_toByte]
  cases p with
  | «open» containerId hostname maxFrameSize idleTimeout =>
    exact readOpen_list containerId hostname maxFrameSize idleTimeout
  | «begin» nextOutgoingId incomingWindow outgoingWindow handleMax =>
    exact readBegin_list handleMax nextOutgoingId incomingWindow outgoingWindow
  | disposition role first last settled state batchable =>
    exact readDisposition_list last state first role settled batchable
  | detach handle closed => exact readDetach_list handle closed

theorem amqpEncode_eq (p : Performative) (doff channel : Int)
    (h : (argumentBytes p.slots).length ≤ 255) :
    amqpEncode (p.header doff channel) =
      .ok ((frame doff 0 channel (Sent.list p.code.toByte p.slots h).out).map some,
        (frame doff 0 channel (Sent.list p.code.toByte p.slots h).out).length) := by
  obtain ⟨l, hl, hholds⟩ := addArguments_lists p doff channel h
  have hcode : (p.header doff channel).code = .is p.code.toByte := rfl
  have hframe : encodeFrame p.code.toByte (p.header doff channel) = _ :=
    encodeFrame_eq p.code_ne_transfer hl hholds rfl rfl rfl
  unfold amqpEncode
  rw [hcode, Cell.get_is, ok_bind, HeaderCode.ofByte_toByte]
  cases p <;> exact hframe

end Performative

/-! ### The round trip -/

/-- The frame of `header` is read as `back`, with the same code, type and channel and with every
field that is present. -/
def ReadsBack (header back : AmqpHeader) : Prop :=
  ∃ data p q, amqpEncode header = .ok (data.map some, (data.length : Int)) ∧
    amqpDecode data data.length = .ok (.ref back) ∧ back.code = header.code ∧
    back.type = header.type ∧ back.channel = header.channel ∧ header.packet = .ref p ∧
    back.packet = .ref q ∧ p.Keeps q

theorem toNat_byte_ofInt (n : Int) : ((UInt8.ofInt n).toNat : Int) = n % 256 := by
  rw [UInt8.ofInt, UInt8.toNat_ofNat']
  omega

theorem toInt_short_ofInt {n : Int} (h0 : 0 ≤ n) (h : n ≤ 32767) :
    (UInt16.ofInt n).toInt16.toInt = n := by
  have hn := short_toNat_ofInt h0 (by omega)
  rw [UInt16.toInt16, Int16.toInt, BitVec.toInt_eq_toNat_of_lt]
  · exact hn
  · show 2 * (UInt16.ofInt n).toNat < _
    omega

theorem ReadsBack.unique {header b1 b2 : AmqpHeader} (h1 : ReadsBack header b1)
    (h2 : ReadsBack header b2) : b1 = b2 := by
  obtain ⟨d1, _, _, henc1, hdec1, -⟩ := h1
  obtain ⟨d2, _, _, henc2, hdec2, -⟩ := h2
  rw [henc1] at henc2
  obtain rfl : d1 = d2 :=
    List.map_injective_iff.mpr (Option.some_injective UInt8) (Prod.mk.inj (Except.ok.inj henc2)).1
  rw [hdec1] at hdec2
  exact Ptr.ref.inj (Except.ok.inj hdec2)

theorem Performative.readsBack (p : Performative) (doff : Int) {channel : Int} (h0 : 0 ≤ channel)
    (hchannel : channel ≤ 32767) (h : (argumentBytes p.slots).length ≤ 255) :
    ReadsBack (p.header doff channel)
      ⟨.is p.code.toByte, .is (doff % 256), .is 0, .is channel, .ref (packet .ofRead p)⟩ := by
  have hinit := p.initPacket_list (h := h)
  have hdecode := amqpDecode_list doff 0 channel p.code_ne_transfer hinit (.inl rfl)
  rw [toNat_byte_ofInt, toInt_short_ofInt h0 hchannel] at hdecode
  exact ⟨_, _, _, p.amqpEncode_eq doff channel h, hdecode, rfl, rfl, rfl, rfl, rfl, p.packet_keeps⟩

/-- A performative comes back from its frame, with the low byte of its data offset. -/
theorem amqpDecode_amqpEncode (p : Performative) (doff : Int) {channel : Int} (h0 : 0 ≤ channel)
    (hchannel : channel ≤ 32767) (h : (argumentBytes p.slots).length ≤ 255) :
    ∃ back, ReadsBack (p.header doff channel) back ∧ back.doff = .is (doff % 256) :=
  ⟨_, p.readsBack doff h0 hchannel h, rfl⟩

/-- An OPEN with a hostname and an idle timeout, but without a maximal frame size. -/
def openSensor : Performative :=
  .open ⟨.ofBytes [0x63, 0x31], by decide⟩ (some ⟨.ofBytes [0x68], by decide⟩) none (some 30)

theorem amqpDecode_amqpEncode_openSensor :
    ∃ back, ReadsBack (openSensor.header 2 32767) back ∧ back.doff = .is (2 % 256) :=
  amqpDecode_amqpEncode openSensor 2 (by decide) (by decide) (by decide)

/-- A data offset of 256 does not come back. -/
theorem doff_not_back : (argumentBytes (Performative.detach 0 none).slots).length ≤ 255 ∧
    ¬ ∃ back, ReadsBack ((Performative.detach 0 none).header 256 0) back ∧ back.doff = .is 256 := by
  refine ⟨by decide, ?_⟩
  rintro ⟨back, hback, hdoff⟩
  rw [hback.unique (Performative.readsBack _ 256 (by decide) (by decide) (by decide))] at hdoff
  exact absurd (Cell.is.inj hdoff) (by decide)

end IotClient.Amqp
