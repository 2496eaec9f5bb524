import IotClient.Amqp.Parser
import IotClient.Amqp.Positional

/-!
# The slots of the packets

Each packet that is sent as a list has its `slots`, in the order of its encoder. When the encoder
gets past the tests of the mandatory fields it is `listArguments` of them (`openArguments_eq` and
so on), and a list that it returns was made so (`openArguments_ok`).
-/

namespace IotClient.Amqp

open Mem

/-- The slot of a field whose wrapper may return `NULL`. -/
def slotPtr {α : Type} (p : Ptr α) (wrap : α → Run (Ptr TlvAmqp)) : Slot :=
  slotOf p fun x => do (← wrap x).deref

theorem fieldPtr_eq_put {α : Type} (count : Int) (p : Ptr α) (wrap : α → Run (Ptr TlvAmqp))
    (a : Args) : fieldPtr count p wrap a = a.put count (slotPtr p wrap) :=
  field_eq_put count p _ a

/-- The test of a mandatory field was passed. -/
theorem guard_ok {α β : Type} {p : Ptr α} {c : Run (Ptr β)} {x : β}
    (h : (do if ← p.nonNull then c else pure .null) = .ok (.ref x)) :
    (∃ v, p = .ref v) ∧ c = .ok (.ref x) := by
  cases p with
  | indet => cases h
  | null => cases h
  | ref v => exact ⟨⟨v, rfl⟩, h⟩

/-! ### Wrappers -/

section Wrappers

variable {whole : Prop}

theorem wrapString_wraps (s : CString) : Wraps whole (wrapString s) :=
  .of_holds (wrapString_holds s)

theorem wrapBool_wraps (n : Int) : Wraps whole (wrapBool n) := .of_holds (wrapBool_holds n)

theorem wrapShort_wraps (n : Int) : Wraps whole (wrapShort n) := by
  by_cases h : 0 ≤ n
  · exact .of_holds (wrapShort_holds h)
  · exact .of_holds (wrapShort_signed (by omega))

theorem wrapInt_wraps (n : Int) : Wraps whole (wrapInt n) := by
  by_cases h : 0 ≤ n
  · exact .of_holds (wrapInt_holds h)
  · exact .of_holds (wrapInt_signed (by omega))

theorem wrapLong_wraps {n : Int} (h : whole → 0 ≤ n) : Wraps whole (wrapLong n) := by
  by_cases hn : 0 ≤ n
  · exact .of_holds (wrapLong_holds hn)
  · exact .of_fills (wrapLong_signed (by omega)) fun hwhole => hn (h hwhole)

theorem wrapBinary_wraps (data : List UInt8) : Wraps whole (wrapBinary data data.length) :=
  .of_holds (wrapBinary_holds data)

theorem wrapState_wraps (code : UInt8) : Wraps whole (wrapState ⟨.is code⟩) :=
  .of_holds (wrapState_holds code)

theorem wrapSymbol_wraps (s : CString) : Wraps whole (wrapSymbol ⟨.ref s⟩) :=
  .of_holds (wrapSymbol_holds s)

theorem wrapString_fillable (s : CString) : Fillable (wrapString s) :=
  (wrapString_wraps s : Wraps True _).fillable

theorem wrapBool_fillable (n : Int) : Fillable (wrapBool n) :=
  (wrapBool_wraps n : Wraps True _).fillable

theorem wrapShort_fillable (n : Int) : Fillable (wrapShort n) :=
  (wrapShort_wraps n : Wraps True _).fillable

theorem wrapInt_fillable (n : Int) : Fillable (wrapInt n) :=
  (wrapInt_wraps n : Wraps True _).fillable

theorem wrapLong_fillable (n : Int) : Fillable (wrapLong n) :=
  (wrapLong_wraps False.elim : Wraps False _).fillable

theorem wrapSymbol_fillable (symbol : AmqpSymbol) : Fillable (wrapSymbol symbol) := by
  obtain ⟨value⟩ := symbol
  cases value with
  | indet => exact fillable_error _
  | null => exact fillable_error _
  | ref s => exact (wrapSymbol_wraps s : Wraps True _).fillable

theorem wrapState_fillable (state : AmqpState) : Fillable (wrapState state) := by
  obtain ⟨code⟩ := state
  cases code with
  | indet => exact fillable_error _
  | is code => exact (wrapState_wraps code : Wraps True _).fillable

theorem allocBytes_ok {n : Int} {cells bytes : Block} (h : allocBytes n cells = .ok bytes) :
    cells.length ≤ n * 8 ∧ ∃ tail, bytes = cells ++ tail := by
  obtain ⟨block, hblock, hcopy⟩ := bind_eq_ok.1 h
  unfold Block.mallocPtrs Block.alloc at hblock
  unfold Block.copyIn at hcopy
  by_cases hneg : n * pointerSize < 0
  · rw [if_pos hneg] at hblock
    cases hblock
  rw [if_neg hneg] at hblock
  cases hblock
  rw [if_neg (by omega), if_neg (by omega)] at hcopy
  by_cases hout : ((Block.malloc (n * pointerSize).toNat).length : Int) < (0 : Nat) + cells.length
  · rw [if_pos hout] at hcopy
    cases hcopy
  rw [if_neg hout, Int.toNat_natCast, List.take_length] at hcopy
  rw [Block.length_malloc] at hout
  have hsize : n * (pointerSize : Nat) = n * 8 := rfl
  exact ⟨by omega, _, (Except.ok.inj hcopy).symm⟩

theorem valueBytes_length {valueArray value : List UInt8} {n : Int}
    (h : valueBytes valueArray n = .ok value) : (value.length : Int) = max n 0 := by
  unfold valueBytes at h
  split at h
  · obtain ⟨k, rfl⟩ := Int.eq_ofNat_of_zero_le (by omega : 0 ≤ n)
    rw [copyOut_ok_length h]
    omega
  · obtain rfl := Except.ok.inj h
    rw [List.length_nil]
    omega

theorem variableWidth_eq (n : Int) :
    variableWidth n = 1 ∧ n ≤ 255 ∨ variableWidth n = 4 ∧ 255 < n := by
  unfold variableWidth
  split <;> omega

/-- A negative length writes only the code, and no length below -1 comes that far. -/
theorem initTlvVariable_fillable (code : AmqpType) (valueArray : List UInt8) (n : Int) :
    Fillable (initTlvVariable code valueArray n) := by
  intro tlv h
  obtain ⟨value, hvalue, h⟩ := bind_eq_ok.1 h
  obtain ⟨bytes, hbytes, h⟩ := bind_eq_ok.1 h
  obtain rfl := Except.ok.inj h
  obtain ⟨hroom, tail, rfl⟩ := allocBytes_ok hbytes
  -- the node's length is no more than was written, and positive
  have hlen : 0 < 1 + variableWidth n + n ∧ 1 + variableWidth n + n ≤
      (((code.toByte :: ((if variableWidth n = 1 then [UInt8.ofInt n] else littleInt n) ++
        value)).map some).length : Nat) := by
    have hvalue := valueBytes_length hvalue
    rcases variableWidth_eq n with ⟨hwidth, hn⟩ | ⟨hwidth, hn⟩
    · rw [hwidth, if_pos rfl] at hroom ⊢
      simp only [List.length_map, List.length_cons, List.length_append, List.length_nil] at hroom ⊢
      omega
    · have hlittle : (littleInt n).length = 4 := rfl
      rw [hwidth, if_neg (by decide)] at hroom ⊢
      simp only [List.length_map, List.length_cons, List.length_append, hlittle] at hroom ⊢
      omega
  generalize ((code.toByte :: ((if variableWidth n = 1 then [UInt8.ofInt n] else littleInt n) ++
    value)).map some) = cells at hlen ⊢
  obtain ⟨k, hk⟩ := Int.eq_ofNat_of_zero_le (by omega : 0 ≤ 1 + variableWidth n + n)
  have htake : (cells.take k).length = k := by
    rw [List.length_take]
    omega
  refine ⟨cells.take k, ?_, ⟨cells.drop k ++ tail, ?_⟩, by omega⟩
  · rw [htake, ← hk]
    show Cell.is (n + 1 + variableWidth n) = _
    rw [Cell.is.injEq]
    omega
  · rw [← List.append_assoc, List.take_append_drop]

theorem wrapBinary_fillable (array : List UInt8) (length : Int) :
    Fillable (wrapBinary array length) := initTlvVariable_fillable _ array length

end Wrappers

/-! ### Packets -/

theorem map_ref_ok {α β : Type} {f : α → β} {m : Run α} {y : β}
    (h : (fun x => Ptr.ref (f x)) <$> m = .ok (.ref y)) : ∃ x, m = .ok x ∧ f x = y := by
  cases m with
  | error e => cases h
  | ok x => exact ⟨x, rfl, Ptr.ref.inj (Except.ok.inj h)⟩

theorem ptrMap_ok {α β : Type} {f : α → β} {m : Run (Ptr α)} {y : β}
    (h : Ptr.map f <$> m = .ok (.ref y)) : ∃ x, m = .ok (.ref x) ∧ f x = y := by
  cases m with
  | error e => cases h
  | ok p =>
    cases p with
    | indet => cases h
    | null => cases h
    | ref x => exact ⟨x, rfl, Ptr.ref.inj (Except.ok.inj h)⟩

def AmqpOpen.slots (p : AmqpOpen) : List Slot :=
  [slotOf p.containerId wrapString, slotOf p.hostname wrapString, slotOf p.maxFrameSize wrapLong,
    slotOf p.channelMax wrapInt, slotOf p.idleTimeout wrapLong]

theorem openArguments_eq {p : AmqpOpen} {s : CString} (h : p.containerId = .ref s) :
    openArguments p = .ref <$> listArguments HeaderCode.open.toByte p.slots := by
  unfold openArguments listArguments AmqpOpen.slots
  simp only [h, Ptr.nonNull_ref, ok_bind, if_true, field_eq_put, collect, bind_assoc,
    map_eq_pure_bind, pure_bind, Int.reduceAdd]

theorem openArguments_ok {p : AmqpOpen} {l : TlvList} (h : openArguments p = .ok (.ref l)) :
    listArguments HeaderCode.open.toByte p.slots = .ok l := by
  obtain ⟨⟨s, hs⟩, -⟩ := guard_ok h
  rw [openArguments_eq hs] at h
  obtain ⟨l, hl, rfl⟩ := map_ref_ok (f := id) h
  exact hl

def AmqpBegin.slots (p : AmqpBegin) : List Slot :=
  [slotOf p.remoteChannel wrapInt, slotOf p.nextOutgoingId wrapLong,
    slotOf p.incomingWindow wrapLong, slotOf p.outgoingWindow wrapLong, slotOf p.handleMax wrapLong,
    slotPtr p.offeredCapabilities wrapNothing, slotPtr p.desiredCapabilities wrapNothing,
    slotPtr p.properties wrapNothing]

theorem beginArguments_eq {p : AmqpBegin} {x y : Int} (hx : p.nextOutgoingId = .ref x)
    (hy : p.incomingWindow = .ref y) :
    beginArguments p = .ref <$> listArguments HeaderCode.begin.toByte p.slots := by
  unfold beginArguments listArguments AmqpBegin.slots
  simp only [hx, hy, Ptr.nonNull_ref, ok_bind, if_true, field_eq_put, fieldPtr_eq_put, collect,
    bind_assoc, map_eq_pure_bind, pure_bind, Int.reduceAdd]

theorem beginArguments_ok {p : AmqpBegin} {l : TlvList} (h : beginArguments p = .ok (.ref l)) :
    listArguments HeaderCode.begin.toByte p.slots = .ok l := by
  obtain ⟨a, -, hnext⟩ := bind_eq_ok.1 h
  obtain ⟨⟨x, hx⟩, hrest⟩ := guard_ok hnext
  obtain ⟨a, -, hwindow⟩ := bind_eq_ok.1 hrest
  obtain ⟨⟨y, hy⟩, -⟩ := guard_ok hwindow
  rw [beginArguments_eq hx hy] at h
  obtain ⟨l, hl, rfl⟩ := map_ref_ok (f := id) h
  exact hl

def AmqpSource.slots (s : AmqpSource) : List Slot :=
  [slotOf s.address wrapString, slotOf s.durable wrapLong, slotOf s.expiryPeriod wrapExpiryPeriod,
    slotOf s.timeout wrapLong, slotOf s.dynamic wrapBool,
    slotPtr s.dynamicNodeProperties wrapNothing, slotPtr s.distributionMode wrapDistributionMode,
    slotPtr s.filter wrapNothing, slotPtr s.defaultOutcome wrapNothing,
    slotPtr s.outcomes wrapNothing, slotPtr s.capabilities wrapNothing]

def AmqpTarget.slots (t : AmqpTarget) : List Slot :=
  [slotOf t.address wrapString, slotOf t.durable wrapLong, slotOf t.expiryPeriod wrapExpiryPeriod,
    slotOf t.timeout wrapLong, slotOf t.dynamic wrapBool,
    slotPtr t.dynamicNodeProperties wrapNothing, slotPtr t.capabilities wrapNothing]

theorem nodeProperties_null (dynamic : Ptr Int) (a : Args) :
    nodeProperties .null dynamic a = some <$> a.put 6 none := rfl

/-- Node properties end the list or the run. -/
theorem nodeProperties_ok {properties : Ptr AmqpSymbolVoidEntry} {dynamic : Ptr Int} {a a' : Args}
    (h : nodeProperties properties dynamic a = .ok (some a')) : properties = .null := by
  cases properties with
  | indet => cases h
  | null => rfl
  | ref entry =>
    cases dynamic with
    | indet => cases h
    | null => cases h
    | ref n =>
      unfold nodeProperties at h
      simp only [Ptr.nonNull_ref, ok_bind, if_true, Ptr.deref_ref] at h
      split at h
      · cases h
      · cases h

theorem wrapAmqpSource_eq {s : AmqpSource} (h : s.dynamicNodeProperties = .null) :
    wrapAmqpSource s =
      (fun l => Ptr.ref l.node) <$> listArguments AmqpType.source.toByte s.slots := by
  unfold wrapAmqpSource listArguments AmqpSource.slots
  simp only [h, nodeProperties_null, field_eq_put, fieldPtr_eq_put, collect, bind_assoc,
    map_eq_pure_bind, pure_bind, Int.reduceAdd]
  rfl

theorem wrapAmqpTarget_eq {t : AmqpTarget} (h : t.dynamicNodeProperties = .null) :
    wrapAmqpTarget t =
      (fun l => Ptr.ref l.node) <$> listArguments AmqpType.target.toByte t.slots := by
  unfold wrapAmqpTarget listArguments AmqpTarget.slots
  simp only [h, nodeProperties_null, field_eq_put, fieldPtr_eq_put, collect, bind_assoc,
    map_eq_pure_bind, pure_bind, Int.reduceAdd]
  rfl

/-- The wrapper of a source or target that made a list found no node properties, the sixth field. -/
theorem properties_null {properties : Ptr AmqpSymbolVoidEntry} {dynamic : Ptr Int} {x : Run Args}
    {f₂ f₃ f₄ f₅ : Args → Run Args} {rest : Args → Run (Ptr TlvAmqp)} {tlv : TlvAmqp}
    (h : (do
      let a ← x
      let a ← f₂ a
      let a ← f₃ a
      let a ← f₄ a
      let a ← f₅ a
      match ← nodeProperties properties dynamic a with
      | none => pure Ptr.null
      | some a => rest a) = .ok (.ref tlv)) : properties = .null := by
  obtain ⟨a, -, h⟩ := bind_eq_ok.1 h
  obtain ⟨a, -, h⟩ := bind_eq_ok.1 h
  obtain ⟨a, -, h⟩ := bind_eq_ok.1 h
  obtain ⟨a, -, h⟩ := bind_eq_ok.1 h
  obtain ⟨a, -, h⟩ := bind_eq_ok.1 h
  obtain ⟨a, ha, h⟩ := bind_eq_ok.1 h
  cases a with
  | none => cases h
  | some a => exact nodeProperties_ok ha

theorem wrapAmqpSource_ok {s : AmqpSource} {tlv : TlvAmqp} (h : wrapAmqpSource s = .ok (.ref tlv)) :
    ∃ l, listArguments AmqpType.source.toByte s.slots = .ok l ∧ l.node = tlv := by
  have hproperties : s.dynamicNodeProperties = .null := properties_null h
  rw [wrapAmqpSource_eq hproperties] at h
  exact map_ref_ok h

theorem wrapAmqpTarget_ok {t : AmqpTarget} {tlv : TlvAmqp} (h : wrapAmqpTarget t = .ok (.ref tlv)) :
    ∃ l, listArguments AmqpType.target.toByte t.slots = .ok l ∧ l.node = tlv := by
  have hproperties : t.dynamicNodeProperties = .null := properties_null h
  rw [wrapAmqpTarget_eq hproperties] at h
  exact map_ref_ok h

def AmqpAttach.slots (p : AmqpAttach) : List Slot :=
  [slotOf p.name wrapString, slotOf p.handle wrapLong,
    slotOf p.role fun role => wrapBool role.toInt,
    slotOf p.sndSettleMode fun mode => wrapShort (toShort mode),
    slotOf p.rcvSettleMode fun mode => wrapShort (toShort mode), slotPtr p.source wrapAmqpSource,
    slotPtr p.target wrapAmqpTarget, slotPtr p.unsettled wrapNothing,
    slotOf p.incompleteUnsettled wrapInt, slotOf p.initialDeliveryCount wrapLong,
    slotOf p.maxMessageSize wrapLong, slotPtr p.offeredCapabilities wrapNothing,
    slotPtr p.desiredCapabilities wrapNothing, slotPtr p.properties wrapNothing]

theorem deliveryCount_eq {p : AmqpAttach} {role : RoleCode} (h : p.role = .ref role) (a : Args) :
    deliveryCount p a = some <$> a.put 10 (slotOf p.initialDeliveryCount wrapLong) := by
  unfold deliveryCount
  cases hcount : p.initialDeliveryCount with
  | indet => rfl
  | null => rw [h]; rfl
  | ref n => rfl

theorem attachArguments_eq {p : AmqpAttach} {name : CString} {handle : Int} {role : RoleCode}
    (hname : p.name = .ref name) (hhandle : p.handle = .ref handle) (hrole : p.role = .ref role) :
    attachArguments p = .ref <$> listArguments HeaderCode.attach.toByte p.slots := by
  unfold attachArguments listArguments AmqpAttach.slots
  simp only [hname, hhandle, deliveryCount_eq hrole]
  simp only [hrole, Ptr.nonNull_ref, ok_bind, if_true, field_eq_put, fieldPtr_eq_put, collect,
    bind_assoc, map_eq_pure_bind, pure_bind, Int.reduceAdd]

theorem attachArguments_ok {p : AmqpAttach} {l : TlvList} (h : attachArguments p = .ok (.ref l)) :
    listArguments HeaderCode.attach.toByte p.slots = .ok l := by
  obtain ⟨⟨name, hname⟩, hfirst⟩ := guard_ok h
  obtain ⟨a, -, hsecond⟩ := bind_eq_ok.1 hfirst
  obtain ⟨⟨handle, hhandle⟩, hrest⟩ := guard_ok hsecond
  obtain ⟨a, -, hthird⟩ := bind_eq_ok.1 hrest
  obtain ⟨⟨role, hrole⟩, -⟩ := guard_ok hthird
  rw [attachArguments_eq hname hhandle hrole] at h
  obtain ⟨l, hl, rfl⟩ := map_ref_ok (f := id) h
  exact hl

def AmqpTransfer.slots (p : AmqpTransfer) : List Slot :=
  [slotOf p.handle wrapLong, slotOf p.deliveryId wrapLong,
    slotOf p.deliveryTag fun tag => do wrapBinary tag (← p.deliveryTagLength.deref),
    slotOf p.messageFormat fun m => do wrapLong (← m.messageFormat.get), slotOf p.settled wrapBool,
    slotOf p.more wrapBool, slotOf p.rcvSettleMode fun mode => wrapShort (toShort mode),
    slotOf p.state wrapState, slotOf p.resume wrapBool, slotPtr p.aborted wrapAborted,
    slotOf p.batchable wrapBool]

theorem transferArguments_eq {p : AmqpTransfer} {handle : Int} (h : p.handle = .ref handle) :
    transferArguments p = .ref <$> listArguments HeaderCode.transfer.toByte p.slots := by
  unfold transferArguments listArguments AmqpTransfer.slots
  simp only [h, Ptr.nonNull_ref, ok_bind, if_true, field_eq_put, fieldPtr_eq_put, collect,
    bind_assoc, map_eq_pure_bind, pure_bind, Int.reduceAdd]

theorem transferArguments_ok {p : AmqpTransfer} {l : TlvList}
    (h : transferArguments p = .ok (.ref l)) :
    listArguments HeaderCode.transfer.toByte p.slots = .ok l := by
  obtain ⟨⟨handle, hhandle⟩, -⟩ := guard_ok h
  rw [transferArguments_eq hhandle] at h
  obtain ⟨l, hl, rfl⟩ := map_ref_ok (f := id) h
  exact hl

def AmqpDisposition.slots (p : AmqpDisposition) : List Slot :=
  [slotOf p.role fun role => wrapBool role.toInt, slotOf p.first wrapLong, slotOf p.last wrapLong,
    slotOf p.settled wrapBool, slotOf p.state wrapState, slotOf p.batchable wrapBool]

theorem dispositionArguments_eq {p : AmqpDisposition} {role : RoleCode} {first : Int}
    (hrole : p.role = .ref role) (hfirst : p.first = .ref first) :
    dispositionArguments p = .ref <$> listArguments HeaderCode.disposition.toByte p.slots := by
  unfold dispositionArguments listArguments AmqpDisposition.slots
  simp only [hrole, hfirst, Ptr.nonNull_ref, ok_bind, if_true, field_eq_put, collect, bind_assoc,
    map_eq_pure_bind, pure_bind, Int.reduceAdd]

theorem dispositionArguments_ok {p : AmqpDisposition} {l : TlvList}
    (h : dispositionArguments p = .ok (.ref l)) :
    listArguments HeaderCode.disposition.toByte p.slots = .ok l := by
  obtain ⟨⟨role, hrole⟩, hrest⟩ := guard_ok h
  obtain ⟨⟨first, hfirst⟩, -⟩ := guard_ok hrest
  rw [dispositionArguments_eq hrole hfirst] at h
  obtain ⟨l, hl, rfl⟩ := map_ref_ok (f := id) h
  exact hl

def AmqpError.slots (e : AmqpError) : List Slot :=
  [slotOf e.condition fun p => do wrapSymbol ⟨.ref (← stringErrorCode p)⟩,
    slotOf e.description wrapString, slotPtr e.info wrapNothing]

theorem wrapAmqpError_eq {e : AmqpError} (h : e.info = .null) :
    wrapAmqpError e = TlvList.node <$> listArguments AmqpType.error.toByte e.slots := by
  unfold wrapAmqpError listArguments AmqpError.slots
  simp only [h, field_eq_put, fieldPtr_eq_put, collect, bind_assoc, map_eq_pure_bind, pure_bind,
    Int.reduceAdd]
  rfl

def AmqpDetach.slots (p : AmqpDetach) : List Slot :=
  [slotOf p.handle wrapLong, slotOf p.closed wrapBool, slotOf p.error wrapAmqpError]

theorem detachArguments_eq {p : AmqpDetach} {handle : Int} (h : p.handle = .ref handle) :
    detachArguments p = .ref <$> listArguments HeaderCode.detach.toByte p.slots := by
  unfold detachArguments listArguments AmqpDetach.slots
  simp only [h, Ptr.nonNull_ref, ok_bind, if_true, field_eq_put, collect, bind_assoc,
    map_eq_pure_bind, pure_bind, Int.reduceAdd]

theorem detachArguments_ok {p : AmqpDetach} {l : TlvList} (h : detachArguments p = .ok (.ref l)) :
    listArguments HeaderCode.detach.toByte p.slots = .ok l := by
  obtain ⟨⟨handle, hhandle⟩, -⟩ := guard_ok h
  rw [detachArguments_eq hhandle] at h
  obtain ⟨l, hl, rfl⟩ := map_ref_ok (f := id) h
  exact hl

/-! ### INIT -/

def SaslInit.slots (p : SaslInit) : List Slot :=
  [slotOf p.mechanism wrapSymbol,
    slotOf p.initialResponse fun array => do wrapBinary array (← p.initialResponseLength.get),
    slotOf p.hostName wrapString]

/-- A node that was not assigned cannot be copied. -/
theorem copyValues_fresh {list : List TlvAmqp} (h : TlvAmqp.fresh ∈ list) :
    ∀ (b : Block) (pos : Int) (r : Block × Int), copyValues list b pos ≠ .ok r := by
  induction list with
  | nil => exact absurd h List.not_mem_nil
  | cons tlv list ih =>
    intro b pos r hcopy
    obtain ⟨bytes, hbytes, hcopy⟩ := bind_eq_ok.1 hcopy
    obtain ⟨length, -, hcopy⟩ := bind_eq_ok.1 hcopy
    obtain ⟨b', -, hrest⟩ := bind_eq_ok.1 hcopy
    rcases List.mem_cons.1 h with rfl | hmem
    · cases hbytes
    · exact ih hmem b' _ r hrest

theorem calculateBytes_fresh {list : TlvList} {size : Int} (count : Nat) (code : UInt8)
    (hsize : list.size = .is size) (hcount : list.count = .is count)
    (h : TlvAmqp.fresh ∈ list.list.take count) (l : TlvList) : calculateBytes list code ≠ .ok l := by
  have helems : ∀ values, (Ptr.ref list.list).elems count = .ok values →
      values = list.list.take count := by
    intro values hvalues
    unfold Ptr.elems at hvalues
    split at hvalues
    case isTrue h0 =>
      rw [h0, List.take_zero]
      exact (Except.ok.inj hvalues).symm
    case isFalse =>
      rw [Ptr.deref_ref, ok_bind] at hvalues
      split at hvalues
      · exact (Except.ok.inj hvalues).symm
      · cases hvalues
  have hget : ∀ list' : TlvList, list'.list = list.list → list'.count = .is count →
      getBytes list' ≠ .ok l := by
    intro list' hlist' hcount' hget
    unfold getBytes at hget
    rw [hlist', hcount'] at hget
    obtain ⟨width, -, hget⟩ := bind_eq_ok.1 hget
    obtain ⟨size, -, hget⟩ := bind_eq_ok.1 hget
    obtain ⟨count', hcount', hget⟩ := bind_eq_ok.1 hget
    obtain ⟨sizeBytes, -, hget⟩ := bind_eq_ok.1 hget
    obtain ⟨countBytes, -, hget⟩ := bind_eq_ok.1 hget
    obtain ⟨valueBytes, -, hget⟩ := bind_eq_ok.1 hget
    obtain ⟨values, hvalues, hget⟩ := bind_eq_ok.1 hget
    obtain ⟨r, hr, -⟩ := bind_eq_ok.1 hget
    obtain rfl : (count : Int) = count' := Except.ok.inj hcount'
    rw [Int.toNat_natCast] at hvalues
    rw [helems values hvalues] at hr
    exact copyValues_fresh h _ _ _ hr
  unfold calculateBytes
  rw [hsize, Cell.get_is, ok_bind]
  by_cases hwide : 255 < size
  · rw [if_pos hwide]
    exact hget _ rfl hcount
  · rw [if_neg hwide]
    exact hget _ rfl hcount

section Init

variable {α : Type} {p : Ptr α} {wrap : α → Run TlvAmqp} {list list' : TlvList} {k size : Int}
  {whole : Prop}

theorem initField_ok (hfillable : ∀ x, Fillable (wrap x)) (hsize : list.size = .is size)
    (h : initField k p wrap list = .ok list') :
    p = .null ∧ list' = { list with list := list.list ++ [TlvAmqp.fresh] } ∨
    ∃ x tlv cells, p = .ref x ∧ wrap x = .ok tlv ∧ Fills tlv cells ∧
      list' = { list with
        list := list.list ++ [tlv], count := .is k, size := .is (size + cells.length) } := by
  cases p with
  | indet => cases h
  | null => exact .inl ⟨rfl, (Except.ok.inj h).symm⟩
  | ref x =>
    unfold initField at h
    rw [Ptr.nonNull_ref, ok_bind, if_pos rfl, Ptr.deref_ref, ok_bind] at h
    obtain ⟨tlv, htlv, hrest⟩ := bind_eq_ok.1 h
    obtain ⟨cells, hfills⟩ := hfillable x tlv htlv
    rw [hsize, Cell.get_is, ok_bind, hfills.length, Cell.get_is, ok_bind] at hrest
    exact .inr ⟨x, tlv, cells, rfl, htlv, hfills, (Except.ok.inj hrest).symm⟩

theorem initField_wraps (h : ∀ w ∈ slotOf p wrap, Wraps whole w) (hsize : list.size = .is size) :
    ∃ list', initField k p wrap list = .ok list' := by
  cases p with
  | indet =>
    obtain ⟨tlv, cells, htlv, -⟩ := h _ rfl
    cases htlv
  | null => exact ⟨_, rfl⟩
  | ref x =>
    obtain ⟨tlv, cells, htlv, hfills, -⟩ := h _ rfl
    unfold initField
    rw [Ptr.nonNull_ref, ok_bind, if_pos rfl, Ptr.deref_ref, ok_bind, htlv, ok_bind, hsize,
      Cell.get_is, ok_bind, hfills.length, Cell.get_is, ok_bind]
    exact ⟨_, rfl⟩

/-- The list of the fields in front of the first one that is absent. -/
theorem calculateBytes_positional {ts : List Slot} {tlvs : List TlvAmqp} {css : List Block}
    (code : UInt8) (rest : List TlvAmqp) (h : List.Forall₂ Fills tlvs css) (hne : css ≠ [])
    (hts : List.Forall₂ SlotFills ts (css.map some ++ List.replicate rest.length none))
    (hlist : list.list = tlvs ++ rest) (hwidth : list.width = .is 1)
    (hsize : list.size = .is css.flatten.length) (hcount : list.count = .is css.length) :
    ∃ l, calculateBytes list code = .ok l ∧ Positional code ts l.node := by
  have hlen := h.length_eq
  have htake : list.list.take css.length = tlvs := by
    rw [hlist, ← hlen, List.take_left]
  have hpos : 0 < css.flatten.length := by
    cases h with
    | nil => exact absurd rfl hne
    | cons ht _ => simp [ht.pos]
  obtain ⟨l, hl, hfills⟩ := calculateBytes_fills code (htake ▸ h)
    (by rw [hlist, List.length_append]; omega) hwidth hsize hcount hpos
  have hslots : slotsCells (css.map some) = css.flatten := by
    simp [slotsCells, slotCells, Function.comp_def]
  refine ⟨l, hl, _, hts, ?_⟩
  rw [trim_append_none, trim_map_some, hslots, List.length_map]
  exact hfills

end Init

section InitArguments

variable {p : SaslInit} {list₁ list₂ list₃ l : TlvList} {whole : Prop}

/-- A third field behind an absent second one has a node in front of it that was not assigned. -/
theorem initFields_cases {m : AmqpSymbol} (hm : p.mechanism = .ref m)
    (h₁ : initField 1 p.mechanism wrapSymbol
      { TlvList.fresh with width := .is 1, size := .is 0 } = .ok list₁)
    (h₂ : initField 2 p.initialResponse
      (fun array => do wrapBinary array (← p.initialResponseLength.get)) list₁ = .ok list₂)
    (h₃ : initField 3 p.hostName wrapString list₂ = .ok list₃) :
    p.initialResponse = .null ∧ p.hostName ≠ .null ∧
        (∀ l, calculateBytes list₃ HeaderCode.init.toByte ≠ .ok l) ∨
      (p.initialResponse = .null → p.hostName = .null) ∧
        ∃ l, calculateBytes list₃ HeaderCode.init.toByte = .ok l ∧
          Positional HeaderCode.init.toByte p.slots l.node := by
  have hbinary : ∀ array : List UInt8,
      Fillable (do wrapBinary array (← p.initialResponseLength.get)) :=
    fun array => fillable_bind fun n => wrapBinary_fillable array n
  rcases initField_ok wrapSymbol_fillable rfl h₁ with ⟨hnull, -⟩ | ⟨x, t₁, c₁, hx, htlv₁, hf₁, rfl⟩
  · rw [hm] at hnull
    cases hnull
  rcases initField_ok hbinary rfl h₂ with ⟨hy, rfl⟩ | ⟨y, t₂, c₂, hy, htlv₂, hf₂, rfl⟩
  · rcases initField_ok wrapString_fillable rfl h₃ with ⟨hz, rfl⟩ | ⟨z, t₃, c₃, hz, htlv₃, hf₃, rfl⟩
    · refine .inr ⟨fun _ => hz, calculateBytes_positional _ [.fresh, .fresh]
        (.cons hf₁ .nil) (List.cons_ne_nil _ _) ?_ rfl rfl ?_ rfl⟩
      · rw [SaslInit.slots, hx, hy, hz]
        exact .cons (.present htlv₁ hf₁) (.cons .absent (.cons .absent .nil))
      · simp
    · refine .inl ⟨hy, fun hnull => ?_, calculateBytes_fresh 3 _ rfl rfl ?_⟩
      · rw [hz] at hnull
        cases hnull
      · exact List.mem_cons_of_mem _ List.mem_cons_self
  · rcases initField_ok wrapString_fillable rfl h₃ with ⟨hz, rfl⟩ | ⟨z, t₃, c₃, hz, htlv₃, hf₃, rfl⟩
    · refine .inr ⟨fun _ => hz, calculateBytes_positional _ [.fresh]
        (.cons hf₁ (.cons hf₂ .nil)) (List.cons_ne_nil _ _) ?_ rfl rfl ?_ rfl⟩
      · rw [SaslInit.slots, hx, hy, hz]
        exact .cons (.present htlv₁ hf₁) (.cons (.present htlv₂ hf₂) (.cons .absent .nil))
      · simp
    · refine .inr ⟨fun hnull => ?_, calculateBytes_positional _ []
        (.cons hf₁ (.cons hf₂ (.cons hf₃ .nil))) (List.cons_ne_nil _ _) ?_ rfl rfl ?_ rfl⟩
      · rw [hy] at hnull
        cases hnull
      · rw [SaslInit.slots, hx, hy, hz]
        exact .cons (.present htlv₁ hf₁) (.cons (.present htlv₂ hf₂)
          (.cons (.present htlv₃ hf₃) .nil))
      · simp [Int.add_assoc]

theorem initArguments_ok (h : initArguments p = .ok (.ref l)) :
    Positional HeaderCode.init.toByte p.slots l.node ∧
      (p.initialResponse = .null → p.hostName = .null) := by
  obtain ⟨⟨m, hm⟩, h⟩ := guard_ok h
  obtain ⟨list₁, h₁, h⟩ := bind_eq_ok.1 h
  obtain ⟨list₂, h₂, h⟩ := bind_eq_ok.1 h
  obtain ⟨list₃, h₃, h⟩ := bind_eq_ok.1 h
  obtain ⟨l', hl', h⟩ := bind_eq_ok.1 h
  obtain rfl : l' = l := Ptr.ref.inj (Except.ok.inj h)
  rcases initFields_cases hm h₁ h₂ h₃ with ⟨-, -, hfault⟩ | ⟨hcond, l, hl, hpositional⟩
  · exact absurd hl' (hfault l')
  · obtain rfl : l = l' := Except.ok.inj (hl.symm.trans hl')
    exact ⟨hpositional, hcond⟩

theorem initArguments_wraps {m : AmqpSymbol} (hm : p.mechanism = .ref m)
    (h : ∀ t ∈ p.slots, ∀ wrap ∈ t, Wraps whole wrap)
    (hcond : p.initialResponse = .null → p.hostName = .null) :
    ∃ l, initArguments p = .ok (.ref l) ∧ Positional HeaderCode.init.toByte p.slots l.node := by
  simp only [SaslInit.slots, List.forall_mem_cons, List.not_mem_nil, false_implies, implies_true,
    and_true] at h
  obtain ⟨hmechanism, hresponse, hhost⟩ := h
  have hbinary : ∀ array : List UInt8,
      Fillable (do wrapBinary array (← p.initialResponseLength.get)) :=
    fun array => fillable_bind fun n => wrapBinary_fillable array n
  obtain ⟨list₁, h₁⟩ := initField_wraps (k := 1) hmechanism
    (show { TlvList.fresh with width := .is 1, size := .is 0 }.size = .is 0 from rfl)
  obtain ⟨s₁, hs₁⟩ : ∃ s, list₁.size = .is s := by
    rcases initField_ok wrapSymbol_fillable rfl h₁ with ⟨-, rfl⟩ | ⟨-, -, -, -, -, -, rfl⟩ <;>
      exact ⟨_, rfl⟩
  obtain ⟨list₂, h₂⟩ := initField_wraps (k := 2) hresponse hs₁
  obtain ⟨s₂, hs₂⟩ : ∃ s, list₂.size = .is s := by
    rcases initField_ok hbinary hs₁ h₂ with ⟨-, rfl⟩ | ⟨-, -, -, -, -, -, rfl⟩
    · exact ⟨_, hs₁⟩
    · exact ⟨_, rfl⟩
  obtain ⟨list₃, h₃⟩ := initField_wraps (k := 3) hhost hs₂
  rcases initFields_cases hm h₁ h₂ h₃ with ⟨hnull, hne, -⟩ | ⟨-, l, hl, hpositional⟩
  · exact absurd (hcond hnull) hne
  · refine ⟨l, ?_, hpositional⟩
    have hguard : p.mechanism.nonNull = .ok true := by rw [hm]; rfl
    unfold initArguments
    rw [hguard, ok_bind, if_pos rfl]
    exact bind_eq_ok.2 ⟨list₁, h₁, bind_eq_ok.2 ⟨list₂, h₂, bind_eq_ok.2 ⟨list₃, h₃,
      bind_eq_ok.2 ⟨l, hl, rfl⟩⟩⟩⟩

end InitArguments

/-! ### Nodes of any slots -/

/-- Whatever the fields of a packet are, the nodes that their wrappers make have encodings. -/
def NodesFill (ts : List Slot) : Prop := ∀ t ∈ ts, ∀ wrap ∈ t, Fillable wrap

section NodesFill

theorem slotOf_fillable {α : Type} {p : Ptr α} {wrap : α → Run TlvAmqp}
    (h : ∀ x, Fillable (wrap x)) : ∀ w ∈ slotOf p wrap, Fillable w := by
  intro w hw
  cases p with
  | indet =>
    cases hw
    exact fillable_error _
  | null => cases hw
  | ref x =>
    cases hw
    exact h x

/-- A wrapper that returns `NULL` makes no node. -/
theorem slotPtr_fillable {α : Type} {p : Ptr α} {wrap : α → Run (Ptr TlvAmqp)}
    (h : ∀ x tlv, wrap x = .ok (.ref tlv) → ∃ cells, Fills tlv cells) :
    ∀ w ∈ slotPtr p wrap, Fillable w := by
  refine slotOf_fillable fun x tlv htlv => ?_
  obtain ⟨q, hq, hderef⟩ := bind_eq_ok.1 htlv
  cases q with
  | indet => cases hderef
  | null => cases hderef
  | ref tlv' =>
    cases hderef
    exact h x tlv hq

theorem slotPtr_nothing {α : Type} {p : Ptr α} : ∀ w ∈ slotPtr p wrapNothing, Fillable w :=
  slotPtr_fillable fun _ _ h => nomatch h

theorem AmqpOpen.nodesFill (p : AmqpOpen) : NodesFill p.slots := by
  simp only [NodesFill, AmqpOpen.slots, List.forall_mem_cons, List.not_mem_nil, false_implies,
    implies_true, and_true]
  exact ⟨slotOf_fillable wrapString_fillable, slotOf_fillable wrapString_fillable,
    slotOf_fillable wrapLong_fillable, slotOf_fillable wrapInt_fillable,
    slotOf_fillable wrapLong_fillable⟩

theorem AmqpBegin.nodesFill (p : AmqpBegin) : NodesFill p.slots := by
  simp only [NodesFill, AmqpBegin.slots, List.forall_mem_cons, List.not_mem_nil, false_implies,
    implies_true, and_true]
  exact ⟨slotOf_fillable wrapInt_fillable, slotOf_fillable wrapLong_fillable,
    slotOf_fillable wrapLong_fillable, slotOf_fillable wrapLong_fillable,
    slotOf_fillable wrapLong_fillable, slotPtr_nothing, slotPtr_nothing, slotPtr_nothing⟩

theorem wrapExpiryPeriod_fillable (p : EnumOrChars TerminusExpiryPolicy) :
    Fillable (wrapExpiryPeriod p) := fillable_bind fun _ => wrapSymbol_fillable _

theorem AmqpSource.nodesFill (s : AmqpSource) : NodesFill s.slots := by
  simp only [NodesFill, AmqpSource.slots, List.forall_mem_cons, List.not_mem_nil, false_implies,
    implies_true, and_true]
  refine ⟨slotOf_fillable wrapString_fillable, slotOf_fillable wrapLong_fillable,
    slotOf_fillable wrapExpiryPeriod_fillable, slotOf_fillable wrapLong_fillable,
    slotOf_fillable wrapBool_fillable, slotPtr_nothing, slotPtr_fillable fun mode tlv h => ?_,
    slotPtr_nothing, slotPtr_nothing, slotPtr_nothing, slotPtr_nothing⟩
  obtain ⟨m, -, h⟩ := bind_eq_ok.1 h
  obtain ⟨tlv', -, h⟩ := bind_eq_ok.1 h
  cases h

theorem AmqpTarget.nodesFill (t : AmqpTarget) : NodesFill t.slots := by
  simp only [NodesFill, AmqpTarget.slots, List.forall_mem_cons, List.not_mem_nil, false_implies,
    implies_true, and_true]
  exact ⟨slotOf_fillable wrapString_fillable, slotOf_fillable wrapLong_fillable,
    slotOf_fillable wrapExpiryPeriod_fillable, slotOf_fillable wrapLong_fillable,
    slotOf_fillable wrapBool_fillable, slotPtr_nothing, slotPtr_nothing⟩

theorem wrapAmqpSource_positional {s : AmqpSource} {tlv : TlvAmqp}
    (h : wrapAmqpSource s = .ok (.ref tlv)) : Positional AmqpType.source.toByte s.slots tlv := by
  obtain ⟨l, hl, rfl⟩ := wrapAmqpSource_ok h
  exact (listArguments_ok _ s.nodesFill hl).1

theorem wrapAmqpTarget_positional {t : AmqpTarget} {tlv : TlvAmqp}
    (h : wrapAmqpTarget t = .ok (.ref tlv)) : Positional AmqpType.target.toByte t.slots tlv := by
  obtain ⟨l, hl, rfl⟩ := wrapAmqpTarget_ok h
  exact (listArguments_ok _ t.nodesFill hl).1

theorem AmqpAttach.nodesFill (p : AmqpAttach) : NodesFill p.slots := by
  simp only [NodesFill, AmqpAttach.slots, List.forall_mem_cons, List.not_mem_nil, false_implies,
    implies_true, and_true]
  refine ⟨slotOf_fillable wrapString_fillable, slotOf_fillable wrapLong_fillable,
    slotOf_fillable fun role => wrapBool_fillable role.toInt,
    slotOf_fillable fun mode => wrapShort_fillable (toShort mode),
    slotOf_fillable fun mode => wrapShort_fillable (toShort mode),
    slotPtr_fillable fun s tlv h => ?_, slotPtr_fillable fun t tlv h => ?_, slotPtr_nothing,
    slotOf_fillable wrapInt_fillable, slotOf_fillable wrapLong_fillable,
    slotOf_fillable wrapLong_fillable, slotPtr_nothing, slotPtr_nothing, slotPtr_nothing⟩
  · obtain ⟨cs, -, hfills⟩ := wrapAmqpSource_positional h
    exact ⟨_, hfills⟩
  · obtain ⟨cs, -, hfills⟩ := wrapAmqpTarget_positional h
    exact ⟨_, hfills⟩

theorem AmqpTransfer.nodesFill (p : AmqpTransfer) : NodesFill p.slots := by
  simp only [NodesFill, AmqpTransfer.slots, List.forall_mem_cons, List.not_mem_nil, false_implies,
    implies_true, and_true]
  refine ⟨slotOf_fillable wrapLong_fillable, slotOf_fillable wrapLong_fillable,
    slotOf_fillable fun tag => fillable_bind fun n => wrapBinary_fillable tag n,
    slotOf_fillable fun m => fillable_bind fun n => wrapLong_fillable n,
    slotOf_fillable wrapBool_fillable, slotOf_fillable wrapBool_fillable,
    slotOf_fillable fun mode => wrapShort_fillable (toShort mode),
    slotOf_fillable wrapState_fillable, slotOf_fillable wrapBool_fillable,
    slotPtr_fillable fun n tlv h => ?_, slotOf_fillable wrapBool_fillable⟩
  obtain ⟨tlv', -, h⟩ := bind_eq_ok.1 h
  cases h

theorem AmqpDisposition.nodesFill (p : AmqpDisposition) : NodesFill p.slots := by
  simp only [NodesFill, AmqpDisposition.slots, List.forall_mem_cons, List.not_mem_nil,
    false_implies, implies_true, and_true]
  exact ⟨slotOf_fillable fun role => wrapBool_fillable role.toInt,
    slotOf_fillable wrapLong_fillable, slotOf_fillable wrapLong_fillable,
    slotOf_fillable wrapBool_fillable, slotOf_fillable wrapState_fillable,
    slotOf_fillable wrapBool_fillable⟩

theorem AmqpError.nodesFill (e : AmqpError) : NodesFill e.slots := by
  simp only [NodesFill, AmqpError.slots, List.forall_mem_cons, List.not_mem_nil, false_implies,
    implies_true, and_true]
  exact ⟨slotOf_fillable fun p => fillable_bind fun s => wrapSymbol_fillable _,
    slotOf_fillable wrapString_fillable, slotPtr_nothing⟩

/-- The information of an error has no wrapper, so an error that has it is no list. -/
theorem wrapAmqpError_fillable (e : AmqpError) : Fillable (wrapAmqpError e) := by
  intro tlv h
  have hinfo : e.info = .null := by
    obtain ⟨a, -, h⟩ := bind_eq_ok.1 h
    obtain ⟨a, -, h⟩ := bind_eq_ok.1 h
    obtain ⟨a', ha', -⟩ := bind_eq_ok.1 h
    cases hinfo : e.info with
    | null => rfl
    | indet =>
      rw [hinfo] at ha'
      cases ha'
    | ref entry =>
      rw [hinfo] at ha'
      cases ha'
  rw [wrapAmqpError_eq hinfo] at h
  obtain ⟨l, hl, hnode⟩ := bind_eq_ok.1 ((map_eq_pure_bind ..).symm.trans h)
  obtain rfl := Except.ok.inj hnode
  obtain ⟨⟨cs, -, hfills⟩, -⟩ := listArguments_ok _ e.nodesFill hl
  exact ⟨_, hfills⟩

theorem AmqpDetach.nodesFill (p : AmqpDetach) : NodesFill p.slots := by
  simp only [NodesFill, AmqpDetach.slots, List.forall_mem_cons, List.not_mem_nil, false_implies,
    implies_true, and_true]
  exact ⟨slotOf_fillable wrapLong_fillable, slotOf_fillable wrapBool_fillable,
    slotOf_fillable wrapAmqpError_fillable⟩

end NodesFill

end IotClient.Amqp
