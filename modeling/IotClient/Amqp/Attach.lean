import IotClient.Amqp.Performatives

/-!
# ATTACH and back

`AttachFields` are the fields of an ATTACH that the encoder implements. The decoder reads a
target without storing it, takes `incomplete_unsettled` for a boolean and `max_message_size` for
an unsigned long, which the encoder does not write, and gives up on a sender's attach with a null
delivery count. `attachBack_iff`: an attach comes back exactly when it has none of these fields,
its source's `dynamic` is 0 or 1 and the frame has a type the decoder knows.
-/

namespace IotClient.Amqp

open Mem

/-- A flag that is written for any number. -/
def Sent.nonzero (n : UInt8) : Sent := .bool (n ≠ 0)

/-- What `wrap_int` makes of a byte, which `unwrap_bool` does not take. -/
def Sent.ushort (n : UInt8) : Sent :=
  .fixed .ushort (shortBytes (UInt16.ofInt (byteValue n))).reverse rfl (by decide)

/-! ### Termini -/

def terminusSlots (address : ShortString) (durable timeout dynamic : Option UInt8) :
    List (Option Sent) :=
  [some (.string address), durable.map .uint, none, timeout.map .uint, dynamic.map .nonzero]

/-- A source or target; its fields fit a list of arguments, since they are part of one. -/
structure Terminus where
  address : ShortString
  durable : Option UInt8
  timeout : Option UInt8
  dynamic : Option UInt8
  fits : (argumentBytes (terminusSlots address durable timeout dynamic)).length ≤ 255

namespace Terminus

def slots (t : Terminus) : List (Option Sent) :=
  terminusSlots t.address t.durable t.timeout t.dynamic

/-- The slots with `k` absent ones behind them. -/
def padded (t : Terminus) (k : Nat) : List (Option Sent) := t.slots ++ List.replicate k none

theorem padded_fits (t : Terminus) (k : Nat) : (argumentBytes (t.padded k)).length ≤ 255 := by
  unfold argumentBytes padded
  rw [trim_append_none]
  exact t.fits

/-- The source; `ptr` makes the pointers of its optional fields, `dynamic` is one of them. -/
def source (ptr : {α : Type} → Option α → Ptr α) (flag : UInt8 → Int) (t : Terminus) :
    AmqpSource where
  address := .ref t.address.string
  durable := ptr (t.durable.map byteValue)
  expiryPeriod := ptr none
  timeout := ptr (t.timeout.map byteValue)
  dynamic := ptr (t.dynamic.map flag)
  dynamicNodeProperties := ptr none
  distributionMode := ptr none
  filter := ptr none
  defaultOutcome := ptr none
  outcomes := ptr none
  capabilities := ptr none

def target (ptr : {α : Type} → Option α → Ptr α) (flag : UInt8 → Int) (t : Terminus) :
    AmqpTarget where
  address := .ref t.address.string
  durable := ptr (t.durable.map byteValue)
  expiryPeriod := ptr none
  timeout := ptr (t.timeout.map byteValue)
  dynamic := ptr (t.dynamic.map flag)
  dynamicNodeProperties := ptr none
  capabilities := ptr none

end Terminus

/-- The flag that is read for a number. -/
def nonzeroFlag (n : UInt8) : Int := flagValue (n ≠ 0)

def Sent.source (t : Terminus) : Sent :=
  .list AmqpType.source.toByte (t.padded 6) (t.padded_fits 6)

def Sent.target (t : Terminus) : Sent :=
  .list AmqpType.target.toByte (t.padded 2) (t.padded_fits 2)

theorem wrapNonzero_writes (n : UInt8) : Writes (wrapBool (byteValue n)) (.nonzero n) := by
  obtain ⟨tlv, htlv, hholds⟩ := wrapBool_holds (byteValue n)
  refine ⟨tlv, htlv, ?_⟩
  have hn : byteValue n ≠ 0 ↔ n ≠ 0 := by
    unfold byteValue
    exact_mod_cast not_congr (UInt8.toNat_inj (b := 0))
  by_cases h : n = 0
  · subst h
    exact hholds
  · unfold boolBytes at hholds
    rw [if_pos (hn.mpr h)] at hholds
    unfold Sent.nonzero
    rw [decide_eq_true h]
    exact hholds

theorem wrapShort_writes (n : UInt8) : Writes (wrapShort (toShort (byteValue n))) (.ubyte n) := by
  have hlt := n.toNat_lt
  have hshort : toShort (byteValue n) = byteValue n := by
    unfold byteValue
    exact Int16.toInt_ofInt_of_le (by omega) (by omega)
  obtain ⟨tlv, htlv, hholds⟩ := wrapShort_holds (Int.natCast_nonneg n.toNat)
  unfold ubyteBytes at hholds
  rw [byte_ofInt_toNat] at hholds
  rw [hshort]
  exact ⟨tlv, htlv, hholds⟩

theorem wrapInt_writes (n : UInt8) : Writes (wrapInt (byteValue n)) (.ushort n) :=
  wrapInt_holds (Int.natCast_nonneg n.toNat)

/-- The fields that a source and a target have in common. -/
theorem terminus_lists {γ : Type} {node : γ → TlvAmqp} {rest : Args → Run (Ptr γ)} {code : UInt8}
    {us : List (Option Sent)} (t : Terminus)
    (hrest : ∀ a, Collected a (t.slots.map (Option.map Sent.out)) → Lists node (rest a) code us) :
    Lists node (do
      let a ← field 1 (.ref t.address.string) wrapString .empty
      let a ← field 2 (.ofOption (t.durable.map byteValue)) wrapLong a
      let a ← field 3 .null wrapExpiryPeriod a
      let a ← field 4 (.ofOption (t.timeout.map byteValue)) wrapLong a
      let a ← field 5 (.ofOption (t.dynamic.map byteValue)) wrapBool a
      rest a) code us := by
  refine Collected.empty.field (field_ref 1 (wrapString_writes t.address)) rfl fun a ha => ?_
  refine ha.field (option_collects 2 t.durable wrapLong_writes) rfl fun a ha => ?_
  refine ha.field (field_null 3) rfl fun a ha => ?_
  refine ha.field (option_collects 4 t.timeout wrapLong_writes) rfl fun a ha => ?_
  refine ha.field (option_collects 5 t.dynamic wrapNonzero_writes) rfl fun a ha => ?_
  exact hrest a ha

theorem wrapAmqpSource_lists (t : Terminus) :
    Lists id (wrapAmqpSource (t.source .ofOption byteValue)) AmqpType.source.toByte (t.padded 6) := by
  have hnode : ∀ a, nodeProperties (t.source .ofOption byteValue).dynamicNodeProperties
      (t.source .ofOption byteValue).dynamic a = .ok (some a.skip) := fun _ => rfl
  unfold wrapAmqpSource
  refine terminus_lists t fun a ha => ?_
  rw [hnode, ok_bind]
  refine ha.skip.field (fieldPtr_null 7) rfl fun a ha => ?_
  refine ha.field (fieldPtr_null 8) rfl fun a ha => ?_
  refine ha.field (fieldPtr_null 9) rfl fun a ha => ?_
  refine ha.field (fieldPtr_null 10) rfl fun a ha => ?_
  refine ha.field (fieldPtr_null 11) rfl fun a ha => ?_
  exact Args.finish_lists (f := TlvList.node) _ ha (k := 0) rfl fun _ => rfl

theorem wrapAmqpTarget_lists (t : Terminus) :
    Lists id (wrapAmqpTarget (t.target .ofOption byteValue)) AmqpType.target.toByte (t.padded 2) := by
  have hnode : ∀ a, nodeProperties (t.target .ofOption byteValue).dynamicNodeProperties
      (t.target .ofOption byteValue).dynamic a = .ok (some a.skip) := fun _ => rfl
  unfold wrapAmqpTarget
  refine terminus_lists t fun a ha => ?_
  rw [hnode, ok_bind]
  refine ha.skip.field (fieldPtr_null 7) rfl fun a ha => ?_
  exact Args.finish_lists (f := TlvList.node) _ ha (k := 0) rfl fun _ => rfl

/-! ### The attach -/

structure AttachFields where
  name : ShortString
  handle : UInt8
  role : RoleCode
  sndSettleMode : Option UInt8
  rcvSettleMode : Option UInt8
  source : Option Terminus
  target : Option Terminus
  incompleteUnsettled : Option UInt8
  initialDeliveryCount : Option UInt8
  maxMessageSize : Option UInt8

namespace AttachFields

/-- The packet that is sent. -/
def packet (f : AttachFields) : AmqpAttach where
  name := .ref f.name.string
  handle := .ref (byteValue f.handle)
  role := .ref f.role
  sndSettleMode := .ofOption (f.sndSettleMode.map byteValue)
  rcvSettleMode := .ofOption (f.rcvSettleMode.map byteValue)
  source := .ofOption (f.source.map (Terminus.source .ofOption byteValue))
  target := .ofOption (f.target.map (Terminus.target .ofOption byteValue))
  unsettled := .null
  incompleteUnsettled := .ofOption (f.incompleteUnsettled.map byteValue)
  initialDeliveryCount := .ofOption (f.initialDeliveryCount.map byteValue)
  maxMessageSize := .ofOption (f.maxMessageSize.map byteValue)
  offeredCapabilities := .null
  desiredCapabilities := .null
  properties := .null

def header (f : AttachFields) (doff type channel : Int) : AmqpHeader where
  code := .is HeaderCode.attach.toByte
  doff := .is doff
  type := .is type
  channel := .is channel
  packet := .ref (.attach f.packet)

/-- The slots up to that of `initial_delivery_count`. -/
def firstSlots (f : AttachFields) : List (Option Sent) :=
  [some (.string f.name), some (.uint f.handle), some (.bool (f.role = .receiver)),
    f.sndSettleMode.map .ubyte, f.rcvSettleMode.map .ubyte, f.source.map .source,
    f.target.map .target, none, f.incompleteUnsettled.map .ushort,
    f.initialDeliveryCount.map .uint]

def slots (f : AttachFields) : List (Option Sent) :=
  f.firstSlots ++ f.maxMessageSize.map .uint :: List.replicate 3 none

theorem deliveryCount_of {f : AttachFields} {a a' : Args}
    (h : field 10 f.packet.initialDeliveryCount wrapLong a = .ok a') :
    deliveryCount f.packet a = .ok (some a') := by
  cases hcount : f.initialDeliveryCount with
  | none =>
    unfold packet at h
    rw [hcount] at h
    unfold deliveryCount packet
    rw [hcount]
    obtain rfl := Except.ok.inj h
    rfl
  | some n =>
    unfold packet at h
    rw [hcount] at h
    unfold deliveryCount packet
    rw [hcount, Option.map_some, Ptr.ofOption, Ptr.nonNull_ref, ok_bind,
      if_pos rfl]
    exact congrArg (some <$> ·) h

theorem attachArguments_lists (f : AttachFields) :
    Lists TlvList.node (attachArguments f.packet) HeaderCode.attach.toByte f.slots := by
  have hname : f.packet.name.nonNull = .ok true := rfl
  have hhandle : f.packet.handle.nonNull = .ok true := rfl
  have hrole : f.packet.role.nonNull = .ok true := rfl
  have hsource : ∀ t : Terminus, ∃ tlv,
      wrapAmqpSource (t.source .ofOption byteValue) = .ok (.ref tlv) ∧
        Holds tlv (Sent.source t).out := fun t => wrapAmqpSource_lists t _
  have htarget : ∀ t : Terminus, ∃ tlv,
      wrapAmqpTarget (t.target .ofOption byteValue) = .ok (.ref tlv) ∧
        Holds tlv (Sent.target t).out := fun t => wrapAmqpTarget_lists t _
  unfold attachArguments
  rw [hname, ok_bind, if_pos rfl]
  refine Collected.empty.field (field_ref 1 (wrapString_writes f.name)) rfl fun a ha => ?_
  rw [hhandle, ok_bind, if_pos rfl]
  refine ha.field (field_ref 2 (wrapLong_writes f.handle)) rfl fun a ha => ?_
  rw [hrole, ok_bind, if_pos rfl]
  refine ha.field (field_ref 3 (wrapRole_writes f.role)) rfl fun a ha => ?_
  refine ha.field (option_collects 4 f.sndSettleMode wrapShort_writes) rfl fun a ha => ?_
  refine ha.field (option_collects 5 f.rcvSettleMode wrapShort_writes) rfl fun a ha => ?_
  refine ha.field (optionPtr_collects 6 f.source hsource) rfl fun a ha => ?_
  refine ha.field (optionPtr_collects 7 f.target htarget) rfl fun a ha => ?_
  refine ha.field (fieldPtr_null 8) rfl fun a ha => ?_
  refine ha.field (option_collects 9 f.incompleteUnsettled wrapInt_writes) rfl fun a ha => ?_
  obtain ⟨a', ha', hcol⟩ := option_collects 10 f.initialDeliveryCount wrapLong_writes a _ ha rfl
  rw [deliveryCount_of ha', ok_bind]
  have hfirst : Collected a' (f.firstSlots.map (Option.map Sent.out)) := hcol
  have hlen : f.firstSlots.length = 10 := rfl
  refine hfirst.field (option_collects 11 f.maxMessageSize wrapLong_writes) (by simp [hlen])
    fun a ha => ?_
  refine ha.field (fieldPtr_null 12) (by simp [hlen]) fun a ha => ?_
  refine ha.field (fieldPtr_null 13) (by simp [hlen]) fun a ha => ?_
  refine ha.field (fieldPtr_null 14) (by simp [hlen]) fun a ha => ?_
  have hslots : f.slots.map (Option.map Sent.out) = f.firstSlots.map (Option.map Sent.out) ++
      [(f.maxMessageSize.map Sent.uint).map Sent.out] ++ [none] ++ [none] ++ [none] := by
    simp [slots, List.replicate]
  rw [← hslots] at ha
  exact Args.finish_lists _ ha (k := 0) rfl fun _ => rfl

end AttachFields

/-! ### Reading the termini -/

theorem copiedUint_sent (n : UInt8) :
    copied id unwrapUint (Sent.uint n).node = .ok (.ref (byteValue n)) := by
  unfold copied
  rw [unwrapUint_sent]
  rfl

theorem unwrapNonzero_sent (n : UInt8) :
    unwrapBool (Sent.nonzero n).node = .ok (.ref (nonzeroFlag n)) := unwrapBool_sent _

theorem readNodeProperties_list {code : UInt8} {ts : List (Option Sent)} {h} {dynamic : Ptr Int}
    (hk : ts[5]?.join = none) :
    readNodeProperties (Sent.list code ts h).node dynamic = .ok (some .indet) :=
  (argument_none (k := 5) hk).trans (ite_self _)

theorem readDefaultOutcome_list {code : UInt8} {ts : List (Option Sent)} {h}
    (hk : ts[8]?.join = none) :
    readDefaultOutcome (Sent.list code ts h).node = .ok (some .indet) :=
  (argument_none (k := 8) hk).trans (ite_self _)

theorem readSource_sent (t : Terminus) :
    readSource (Sent.source t).node = .ok (some (t.source .ofRead nonzeroFlag)) := by
  unfold readSource Sent.source
  rw [optional_some (s := .string t.address) rfl, unwrapString_sent,
    ok_bind, optional_slot (x := t.durable) rfl copiedUint_sent, ok_bind, optional_none rfl, ok_bind,
    optional_slot (x := t.timeout) rfl unwrapUint_sent, ok_bind,
    optional_slot (x := t.dynamic) rfl unwrapNonzero_sent, ok_bind, readNodeProperties_list rfl,
    ok_bind]
  change (optional _ 6 _ >>= _) = _
  rw [optional_none rfl, ok_bind, optional_none rfl, ok_bind, readDefaultOutcome_list rfl, ok_bind]
  change (optional _ 9 _ >>= _) = _
  rw [optional_none rfl, ok_bind, optional_none rfl, ok_bind]
  rfl

theorem readTarget_sent (t : Terminus) :
    readTarget (Sent.target t).node = .ok (some (t.target .ofRead nonzeroFlag)) := by
  unfold readTarget Sent.target
  rw [optional_some (s := .string t.address) rfl, unwrapString_sent,
    ok_bind, optional_slot (x := t.durable) rfl copiedUint_sent, ok_bind, optional_none rfl, ok_bind,
    optional_slot (x := t.timeout) rfl unwrapUint_sent, ok_bind,
    optional_slot (x := t.dynamic) rfl unwrapNonzero_sent, ok_bind, readNodeProperties_list rfl,
    ok_bind]
  change (optional _ 6 _ >>= _) = _
  rw [optional_none rfl, ok_bind]
  rfl

/-! ### Reading the attach -/

/-- A field that is read, when it is present, by a function that does not take its node. -/
def lost {α β : Type} : Option β → Ptr α
  | none => .indet
  | some _ => .null

theorem lost_ne_ref {α β : Type} (x : Option β) (v : α) : lost x ≠ .ref v := by
  cases x <;> exact fun h => nomatch h

theorem optional_lost {α β : Type} {code : UInt8} {ts : List (Option Sent)} {h} {k : Nat}
    {unwrap : TlvAmqp → Run (Ptr α)} {x : Option β} {sent : β → Sent}
    (hk : ts[k]? = some (x.map sent)) (hu : ∀ v, unwrap (sent v).node = .ok .null) :
    optional (Sent.list code ts h).node k unwrap = .ok (lost x) := by
  cases x with
  | none => exact optional_none (by rw [hk]; rfl)
  | some v => rw [optional_some hk, hu]; rfl

theorem unwrapUlong_uint (n : UInt8) : unwrapUlong (Sent.uint n).node = .ok .null := by
  by_cases h : n = 0
  · subst h
    rfl
  · unfold Sent.uint
    rw [if_neg h]
    rfl

theorem unwrapBool_ushort (n : UInt8) : unwrapBool (Sent.ushort n).node = .ok .null := rfl

namespace AttachFields

variable (f : AttachFields) {h : (argumentBytes f.slots).length ≤ 255}

/-- The decoder stops at a null delivery count of a sender. -/
def GivesUp : Prop :=
  f.initialDeliveryCount = none ∧ f.maxMessageSize ≠ none ∧ f.role = .sender

instance : Decidable f.GivesUp := inferInstanceAs (Decidable (_ ∧ _ ∧ _))

/-- The packet that is read when the decoder does not give up. -/
def back : AmqpAttach where
  name := .ref f.name.string
  handle := .ref (byteValue f.handle)
  role := .ref f.role
  sndSettleMode := .ofRead (f.sndSettleMode.map byteValue)
  rcvSettleMode := .ofRead (f.rcvSettleMode.map byteValue)
  source := .ofRead (f.source.map (Terminus.source .ofRead nonzeroFlag))
  target := .indet
  unsettled := .indet
  incompleteUnsettled := lost f.incompleteUnsettled
  initialDeliveryCount := .ofRead (f.initialDeliveryCount.map byteValue)
  maxMessageSize := lost f.maxMessageSize
  offeredCapabilities := .indet
  desiredCapabilities := .indet
  properties := .indet

theorem readAttachSource_list :
    readAttachSource (Sent.list HeaderCode.attach.toByte f.slots h).node =
      .ok (some (.ofRead (f.source.map (Terminus.source .ofRead nonzeroFlag)))) := by
  refine optionalList_slot (x := f.source) rfl (fun t => rfl) fun t => ?_
  rw [readSource_sent, ok_bind]
  rfl

theorem readAttachTarget_list :
    readAttachTarget (Sent.list HeaderCode.attach.toByte f.slots h).node = .ok (some .indet) := by
  have hk : f.slots[6]? = some (f.target.map .target) := rfl
  cases ht : f.target with
  | none => exact (argument_none (k := 6) (by rw [hk, ht]; rfl)).trans (ite_self _)
  | some t =>
    refine (argument_some (k := 6) (hk.trans (by rw [ht]; rfl))).trans ?_
    rw [readTarget_sent, ok_bind]
    rfl

/-- Without a delivery count the list is longer than nine when there is a maximal size. -/
theorem nine_lt_length (hcount : f.initialDeliveryCount = none) :
    9 < (trim f.slots).length ↔ f.maxMessageSize ≠ none := by
  cases hmax : f.maxMessageSize with
  | none =>
    have hlast : f.firstSlots = f.firstSlots.take 9 ++ [none] := by
      unfold firstSlots
      rw [hcount]
      rfl
    have htrim : trim f.slots = trim (f.firstSlots.take 9) := by
      unfold slots
      rw [hmax]
      exact (trim_append_none f.firstSlots 4).trans ((congrArg trim hlast).trans (trim_none _))
    have hle : (trim f.slots).length ≤ 9 := by
      rw [htrim]
      exact length_trim_le_length
    exact iff_of_false (by omega) (not_not_intro rfl)
  | some n =>
    have hk : f.slots[10]? = some (some (.uint n)) := by
      unfold slots
      rw [hmax]
      rfl
    have hlt := lt_length_trim hk
    exact iff_of_true (by omega) (by simp)

theorem readDeliveryCount_list :
    readDeliveryCount (Sent.list HeaderCode.attach.toByte f.slots h).node (.ref f.role) =
      .ok (if f.GivesUp then none else some (.ofRead (f.initialDeliveryCount.map byteValue))) := by
  have hk : f.slots[9]? = some (f.initialDeliveryCount.map .uint) := rfl
  cases hcount : f.initialDeliveryCount with
  | none =>
    refine (argument_none (k := 9) (by rw [hk, hcount]; rfl)).trans ?_
    by_cases hmax : f.maxMessageSize = none
    · have hup : ¬ f.GivesUp := fun hup => hup.2.1 hmax
      rw [if_neg (by rw [f.nine_lt_length hcount]; exact not_not_intro hmax), if_neg hup]
      rfl
    · rw [if_pos ((f.nine_lt_length hcount).mpr hmax), Ptr.deref_ref, ok_bind]
      by_cases hrole : f.role = .sender
      · rw [if_pos hrole, if_pos ⟨hcount, hmax, hrole⟩]
        rfl
      · rw [if_neg hrole, if_neg fun hup => hrole hup.2.2]
        rfl
  | some n =>
    have hgo : ¬ f.GivesUp := fun hup => by rw [hup.1] at hcount; cases hcount
    refine (argument_some (k := 9) (hk.trans (by rw [hcount]; rfl))).trans ?_
    rw [unwrapUint_sent, if_neg hgo]
    rfl

theorem readAttach_list :
    readAttach (Sent.list HeaderCode.attach.toByte f.slots h).node =
      .ok (if f.GivesUp then none else some (.attach f.back)) := by
  have hrole : f.slots[2]? = some (some (.bool (f.role = .receiver))) := rfl
  have hlt := lt_length_trim hrole
  have hle : (trim f.slots).length ≤ 14 := length_trim_le_length
  unfold readAttach
  rw [list_count, Ptr.deref_ref, ok_bind, if_neg (by omega),
    required_some (s := .string f.name) rfl, unwrapString_sent, ok_bind,
    required_some (s := .uint f.handle) rfl, unwrapUint_sent, ok_bind, required_some hrole,
    unwrapRole_sent, ok_bind, optional_slot (x := f.sndSettleMode) rfl unwrapUbyte_sent, ok_bind,
    optional_slot (x := f.rcvSettleMode) rfl unwrapUbyte_sent, ok_bind, f.readAttachSource_list,
    ok_bind]
  change (readAttachTarget _ >>= _) = _
  rw [f.readAttachTarget_list, ok_bind]
  change (optional _ 7 _ >>= _) = _
  rw [optional_none rfl, ok_bind,
    optional_lost (x := f.incompleteUnsettled) rfl unwrapBool_ushort, ok_bind,
    f.readDeliveryCount_list, ok_bind]
  by_cases hup : f.GivesUp
  · rw [if_pos hup, if_pos hup]
    rfl
  · rw [if_neg hup, if_neg hup]
    change (optional _ 10 _ >>= _) = _
    rw [optional_lost (x := f.maxMessageSize) rfl unwrapUlong_uint, ok_bind, optional_none rfl,
      ok_bind, optional_none rfl, ok_bind, optional_none rfl, ok_bind]
    rfl

theorem amqpEncode_attach (doff type channel : Int) (h : (argumentBytes f.slots).length ≤ 255) :
    amqpEncode (f.header doff type channel) =
      .ok ((frame doff type channel (Sent.list HeaderCode.attach.toByte f.slots h).out).map some,
        (frame doff type channel (Sent.list HeaderCode.attach.toByte f.slots h).out).length) := by
  obtain ⟨l, hl, hholds⟩ := f.attachArguments_lists h
  have hcode : (f.header doff type channel).code = .is HeaderCode.attach.toByte := rfl
  have hargs : addArguments (f.header doff type channel) = .ok (.ref l) := by
    unfold addArguments
    rw [hcode, Cell.get_is, ok_bind, HeaderCode.ofByte_toByte]
    exact hl
  have hframe : encodeFrame HeaderCode.attach.toByte (f.header doff type channel) = _ :=
    encodeFrame_eq (by decide) hargs hholds rfl rfl rfl
  unfold amqpEncode
  rw [hcode, Cell.get_is, ok_bind, HeaderCode.ofByte_toByte]
  exact hframe

end AttachFields

/-! ### The round trip -/

structure AmqpSource.Keeps (p q : AmqpSource) : Prop where
  address : Kept p.address q.address
  durable : Kept p.durable q.durable
  expiryPeriod : Kept p.expiryPeriod q.expiryPeriod
  timeout : Kept p.timeout q.timeout
  dynamic : Kept p.dynamic q.dynamic
  dynamicNodeProperties : Kept p.dynamicNodeProperties q.dynamicNodeProperties
  distributionMode : Kept p.distributionMode q.distributionMode
  filter : Kept p.filter q.filter
  defaultOutcome : Kept p.defaultOutcome q.defaultOutcome
  outcomes : Kept p.outcomes q.outcomes
  capabilities : Kept p.capabilities q.capabilities

structure AmqpTarget.Keeps (p q : AmqpTarget) : Prop where
  address : Kept p.address q.address
  durable : Kept p.durable q.durable
  expiryPeriod : Kept p.expiryPeriod q.expiryPeriod
  timeout : Kept p.timeout q.timeout
  dynamic : Kept p.dynamic q.dynamic
  dynamicNodeProperties : Kept p.dynamicNodeProperties q.dynamicNodeProperties
  capabilities : Kept p.capabilities q.capabilities

/-- A nested field that is present is read with its own fields. -/
def KeptBy {α : Type} (keeps : α → α → Prop) (p q : Ptr α) : Prop :=
  ∀ x, p = .ref x → ∃ y, q = .ref y ∧ keeps x y

structure AmqpAttach.Keeps (p q : AmqpAttach) : Prop where
  name : Kept p.name q.name
  handle : Kept p.handle q.handle
  role : Kept p.role q.role
  sndSettleMode : Kept p.sndSettleMode q.sndSettleMode
  rcvSettleMode : Kept p.rcvSettleMode q.rcvSettleMode
  source : KeptBy AmqpSource.Keeps p.source q.source
  target : KeptBy AmqpTarget.Keeps p.target q.target
  unsettled : Kept p.unsettled q.unsettled
  incompleteUnsettled : Kept p.incompleteUnsettled q.incompleteUnsettled
  initialDeliveryCount : Kept p.initialDeliveryCount q.initialDeliveryCount
  maxMessageSize : Kept p.maxMessageSize q.maxMessageSize
  offeredCapabilities : Kept p.offeredCapabilities q.offeredCapabilities
  desiredCapabilities : Kept p.desiredCapabilities q.desiredCapabilities
  properties : Kept p.properties q.properties

/-- The frame of the attach is read as an attach with every field that is present. -/
def AttachBack (f : AttachFields) (doff type channel : Int) : Prop :=
  ∃ data header q, amqpEncode (f.header doff type channel) = .ok (data.map some, (data.length : Int)) ∧
    amqpDecode data data.length = .ok (.ref header) ∧ header.packet = .ref (.attach q) ∧
    f.packet.Keeps q

/-- The attach has no field that is lost. -/
structure AttachFields.Survives (f : AttachFields) : Prop where
  target : f.target = none
  incompleteUnsettled : f.incompleteUnsettled = none
  maxMessageSize : f.maxMessageSize = none
  dynamic : ∀ t, f.source = some t → ∀ n, t.dynamic = some n → n ≤ 1

section Kept

variable {α β : Type} {x : Option β} {f g : β → α}

theorem kept_map_iff :
    Kept (.ofOption (x.map f)) (.ofRead (x.map g)) ↔ ∀ v, x = some v → g v = f v := by
  cases x with
  | none => exact ⟨fun _ _ h => (nomatch h), fun _ _ h => (nomatch h)⟩
  | some v =>
    refine ⟨fun h w hw => ?_, fun h w hw => ?_⟩
    · obtain rfl := Option.some.inj hw
      exact Ptr.ref.inj (h (f v) rfl)
    · rw [← Ptr.ref.inj hw, ← h v rfl]
      rfl

theorem keptBy_map_iff {keeps : α → α → Prop} :
    KeptBy keeps (.ofOption (x.map f)) (.ofRead (x.map g)) ↔ ∀ v, x = some v → keeps (f v) (g v) := by
  cases x with
  | none => exact ⟨fun _ _ h => (nomatch h), fun _ _ h => (nomatch h)⟩
  | some v =>
    refine ⟨fun h w hw => ?_, fun h w hw => ⟨g v, rfl, ?_⟩⟩
    · obtain rfl := Option.some.inj hw
      obtain ⟨y, hy, hkeeps⟩ := h (f v) rfl
      rwa [← Ptr.ref.inj hy] at hkeeps
    · rw [← Ptr.ref.inj hw]
      exact h v rfl

theorem kept_lost_iff : Kept (.ofOption (x.map f)) (lost x) ↔ x = none := by
  cases x with
  | none => exact iff_of_true (fun _ h => (nomatch h)) rfl
  | some v => exact iff_of_false (fun h => lost_ne_ref _ _ (h (f v) rfl)) (by simp)

theorem keptBy_indet_iff {keeps : α → α → Prop} :
    KeptBy keeps (.ofOption (x.map f)) .indet ↔ x = none := by
  cases x with
  | none => exact iff_of_true (fun _ h => (nomatch h)) rfl
  | some v => exact iff_of_false (fun h => by obtain ⟨y, hy, -⟩ := h (f v) rfl; cases hy) (by simp)

theorem kept_null {q : Ptr α} : Kept .null q := fun _ h => nomatch h

end Kept

theorem nonzeroFlag_eq_iff (n : UInt8) : nonzeroFlag n = byteValue n ↔ n ≤ 1 := by
  revert n
  decide +kernel

theorem Terminus.keeps_source_iff (t : Terminus) :
    (t.source .ofOption byteValue).Keeps (t.source .ofRead nonzeroFlag) ↔
      ∀ n, t.dynamic = some n → n ≤ 1 := by
  have hdynamic := kept_map_iff (x := t.dynamic) (f := byteValue) (g := nonzeroFlag)
  simp only [nonzeroFlag_eq_iff] at hdynamic
  rw [← hdynamic]
  refine ⟨AmqpSource.Keeps.dynamic, fun h => ?_⟩
  exact ⟨kept_ref _, kept_ofRead _, kept_null, kept_ofRead _, h, kept_null, kept_null, kept_null,
    kept_null, kept_null, kept_null⟩

theorem AttachFields.keeps_back_iff (f : AttachFields) :
    f.packet.Keeps f.back ↔ f.Survives := by
  have hsource : KeptBy AmqpSource.Keeps f.packet.source f.back.source ↔ _ := keptBy_map_iff
  simp only [Terminus.keeps_source_iff] at hsource
  refine ⟨fun h => ?_, fun h => ?_⟩
  · exact ⟨keptBy_indet_iff.mp h.target, kept_lost_iff.mp h.incompleteUnsettled,
      kept_lost_iff.mp h.maxMessageSize, hsource.mp h.source⟩
  · exact ⟨kept_ref _, kept_ref _, kept_ref _, kept_ofRead _, kept_ofRead _, hsource.mpr h.dynamic,
      keptBy_indet_iff.mpr h.target, kept_null, kept_lost_iff.mpr h.incompleteUnsettled,
      kept_ofRead _, kept_lost_iff.mpr h.maxMessageSize, kept_null, kept_null, kept_null⟩

/-- What the decoder makes of the frame. -/
theorem AttachFields.amqpDecode_attach (f : AttachFields) {type : Int} (doff channel : Int)
    (h : (argumentBytes f.slots).length ≤ 255)
    (htype : UInt8.ofInt type = 0 ∨ UInt8.ofInt type = 1) :
    ∃ header, amqpDecode (frame doff type channel (Sent.list HeaderCode.attach.toByte f.slots h).out)
        (frame doff type channel (Sent.list HeaderCode.attach.toByte f.slots h).out).length =
          .ok (.ref header) ∧
      header.packet = .ofRead (if f.GivesUp then none else some (.attach f.back)) := by
  have hinit : initPacket HeaderCode.attach.toByte
      (Sent.list HeaderCode.attach.toByte f.slots h).node =
        .ok (if f.GivesUp then none else some (.attach f.back)) := by
    unfold initPacket
    rw [HeaderCode.ofByte_toByte]
    exact f.readAttach_list
  exact ⟨_, amqpDecode_list doff type channel (by decide) hinit htype, rfl⟩

theorem attachBack_of_survives {f : AttachFields} {doff type channel : Int}
    (h : (argumentBytes f.slots).length ≤ 255)
    (htype : UInt8.ofInt type = 0 ∨ UInt8.ofInt type = 1) (hsurvives : f.Survives) :
    AttachBack f doff type channel := by
  obtain ⟨header, hdecode, hpacket⟩ := f.amqpDecode_attach doff channel h htype
  rw [if_neg fun hup => hup.2.1 hsurvives.maxMessageSize] at hpacket
  exact ⟨_, header, f.back, f.amqpEncode_attach doff type channel h, hdecode, hpacket,
    f.keeps_back_iff.mpr hsurvives⟩

theorem survives_of_attachBack {f : AttachFields} {doff type channel : Int}
    (h : (argumentBytes f.slots).length ≤ 255) (hback : AttachBack f doff type channel) :
    (UInt8.ofInt type = 0 ∨ UInt8.ofInt type = 1) ∧ f.Survives := by
  obtain ⟨data, header, q, hdata, hdecode, hpacket, hkeeps⟩ := hback
  rw [f.amqpEncode_attach doff type channel h] at hdata
  obtain rfl : _ = data :=
    List.map_injective_iff.mpr (Option.some_injective UInt8) (Prod.mk.inj (Except.ok.inj hdata)).1
  by_cases htype : UInt8.ofInt type = 0 ∨ UInt8.ofInt type = 1
  · obtain ⟨header', hdecode', hpacket'⟩ := f.amqpDecode_attach doff channel h htype
    rw [hdecode'] at hdecode
    obtain rfl := Ptr.ref.inj (Except.ok.inj hdecode)
    rw [hpacket'] at hpacket
    by_cases hup : f.GivesUp
    · rw [if_pos hup] at hpacket
      cases hpacket
    · rw [if_neg hup] at hpacket
      obtain rfl := Packet.attach.inj (Ptr.ref.inj hpacket)
      exact ⟨htype, f.keeps_back_iff.mp hkeeps⟩
  · have hlen := length_list_out .attach h
    rw [amqpDecode_frame doff type channel (by omega) (by omega), if_neg htype] at hdecode
    cases hdecode

/-- An attach comes back exactly when the decoder knows the frame's type and no field is lost. -/
theorem attachBack_iff (f : AttachFields) (doff type channel : Int)
    (h : (argumentBytes f.slots).length ≤ 255) :
    AttachBack f doff type channel ↔
      (UInt8.ofInt type = 0 ∨ UInt8.ofInt type = 1) ∧ f.Survives :=
  ⟨survives_of_attachBack h, fun hs => attachBack_of_survives h hs.1 hs.2⟩

/-- The address `t` without further fields. -/
def plainTerminus : Terminus where
  address := ⟨.ofBytes [0x74], by decide⟩
  durable := none
  timeout := none
  dynamic := none
  fits := by decide

/-- The attach with which the client subscribes to `t`. -/
def subscriberAttach (target : Option Terminus) : AttachFields where
  name := ⟨.ofBytes [0x74], by decide⟩
  handle := 1
  role := .receiver
  sndSettleMode := some 2
  rcvSettleMode := none
  source := some plainTerminus
  target := target
  incompleteUnsettled := none
  initialDeliveryCount := none
  maxMessageSize := none

theorem attachBack_iff_subscriberAttach :
    AttachBack (subscriberAttach none) 2 0 0 ↔
      (UInt8.ofInt 0 = 0 ∨ UInt8.ofInt 0 = 1) ∧ (subscriberAttach none).Survives :=
  attachBack_iff (subscriberAttach none) 2 0 0 (by decide)

/-- Its target does not come back. -/
theorem target_not_back :
    (argumentBytes (subscriberAttach (some plainTerminus)).slots).length ≤ 255 ∧
      ¬ AttachBack (subscriberAttach (some plainTerminus)) 2 0 0 := by
  have h : (argumentBytes (subscriberAttach (some plainTerminus)).slots).length ≤ 255 := by decide
  refine ⟨h, fun hback => ?_⟩
  cases (survives_of_attachBack h hback).2.target

end IotClient.Amqp
