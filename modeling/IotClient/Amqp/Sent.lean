import IotClient.Amqp.Arguments
import IotClient.Amqp.Parser
import IotClient.Amqp.TlvSync

/-!
# Arguments on both sides of the wire

A `Sent` is one argument: the bytes a wrapper writes and the node `get_tlv` makes of them, whose
code is not that of a null. `Sent.list` is a described list of arguments without the absent ones
behind the last one that is present, and an argument itself. `optional_slot` and `required_slot`
say what `init_header` finds in such a list.
-/

namespace IotClient.Amqp

open Mem

structure Sent where
  out : List UInt8
  node : TlvAmqp
  code : UInt8
  reads : Reads out node
  node_code : node.code = .is code
  code_ne : code ≠ nullCode
  pos : 0 < out.length

/-- The node of a value with a bare format code and data of a fixed size. -/
def plainTlv (t : AmqpType) (data : List UInt8) : TlvAmqp :=
  { t.fixedTlv data with constructor := .ref ⟨t.toByte, .indet⟩ }

theorem plainTlv_reads {t : AmqpType} {data : List UInt8} (h : t.fixedWidth = some data.length) :
    Reads (t.toByte :: data) (plainTlv t data) :=
  reads_plain (AmqpType.toByte_ne_zero t) (readsElement_fixed h)

theorem plainTlv_code (t : AmqpType) (data : List UInt8) :
    (plainTlv t data).code = .is t.toByte := by
  cases t <;> rfl

theorem AmqpType.toByte_ne_nullCode {t : AmqpType} (h : t ≠ amqpNull) : t.toByte ≠ nullCode := by
  intro hcode
  have hof := ofByte_toByte t
  rw [show t.toByte = amqpNull.toByte from hcode, ofByte_toByte] at hof
  exact h (Option.some.inj hof).symm

namespace Sent

/-! ### Values -/

def fixed (t : AmqpType) (data : List UInt8) (h : t.fixedWidth = some data.length)
    (ht : t ≠ .amqpNull) : Sent where
  out := t.toByte :: data
  node := plainTlv t data
  code := t.toByte
  reads := plainTlv_reads h
  node_code := plainTlv_code t data
  code_ne := AmqpType.toByte_ne_nullCode ht
  pos := Nat.succ_pos _

/-- What `wrap_long` makes of a byte. -/
def uint (n : UInt8) : Sent :=
  if n = 0 then fixed .uint0 [] rfl (by decide) else fixed .smallUint [n] rfl (by decide)

def ubyte (n : UInt8) : Sent := fixed .ubyte [n] rfl (by decide)

def bool (b : Bool) : Sent :=
  fixed (if b then .booleanTrue else .booleanFalse) [] (by cases b <;> rfl) (by cases b <;> decide)

end Sent

/-- A string whose length takes one byte. -/
structure ShortString where
  string : CString
  length_le : string.bytes.length ≤ 255

def Sent.string (s : ShortString) : Sent where
  out := AmqpType.string8.toByte :: (Width.narrow.field s.string.bytes.length ++ s.string.bytes)
  node := { sizedTlv .narrow .string s.string.bytes with
    constructor := .ref ⟨AmqpType.string8.toByte, .indet⟩ }
  code := AmqpType.string8.toByte
  reads := by
    have hfits : Width.narrow.Fits s.string.bytes.length := Nat.lt_succ_of_le s.length_le
    have hbody : ReadsElement (Width.narrow.variableType .string).toByte
        (Width.narrow.field s.string.bytes.length ++ s.string.bytes)
        (sizedTlv .narrow .string s.string.bytes) :=
      readsElement_sized hfits
    exact reads_plain (AmqpType.toByte_ne_zero .string8) hbody
  node_code := rfl
  code_ne := by decide
  pos := Nat.succ_pos _

/-- A string, symbol or binary whose length takes one byte. -/
def Sent.sized (kind : VariableKind) (data : List UInt8) (h : data.length ≤ 255) : Sent where
  out := (Width.narrow.variableType kind).toByte :: (Width.narrow.field data.length ++ data)
  node := { sizedTlv .narrow kind data with
    constructor := .ref ⟨(Width.narrow.variableType kind).toByte, .indet⟩ }
  code := (Width.narrow.variableType kind).toByte
  reads := reads_plain (AmqpType.toByte_ne_zero _) (readsElement_sized (Nat.lt_succ_of_le h))
  node_code := rfl
  code_ne := by cases kind <;> decide
  pos := Nat.succ_pos _

/-- The node of a descriptor. -/
def descriptorTlv (code : UInt8) : TlvAmqp := plainTlv .smallUlong [code]

theorem descriptor_reads (code list : UInt8) :
    ReadsConstructor [0, AmqpType.smallUlong.toByte, code, list] ⟨list, .ref (descriptorTlv code)⟩ :=
  readsConstructor_described list
    (plainTlv_reads (show AmqpType.smallUlong.fixedWidth = some [code].length from rfl))

theorem list0_reads : ReadsElement AmqpType.list0.toByte [] (AmqpType.list0.fixedTlv []) :=
  readsElement_fixed rfl

def Sent.state (code : UInt8) : Sent where
  out := stateBytes code
  node := { AmqpType.list0.fixedTlv [] with
    constructor := .ref ⟨AmqpType.list0.toByte, .ref (descriptorTlv code)⟩ }
  code := AmqpType.list0.toByte
  reads := reads_tlv (descriptor_reads code _) list0_reads
  node_code := rfl
  code_ne := by decide
  pos := Nat.succ_pos _

/-! ### Slots -/

/-- The bytes of a list of arguments. -/
def argumentBytes (ts : List (Option Sent)) : List UInt8 :=
  slotsBytes ((trim ts).map (Option.map Sent.out))

/-- The node of a slot; an absent one is a null. -/
def slotTlv : Option Sent → TlvAmqp
  | none => plainTlv .amqpNull []
  | some s => s.node

theorem slot_reads (t : Option Sent) : Reads (slotBytes (t.map Sent.out)) (slotTlv t) := by
  cases t with
  | none => exact plainTlv_reads (show AmqpType.amqpNull.fixedWidth = some 0 from rfl)
  | some s => exact s.reads

theorem slots_reads (ts : List (Option Sent)) :
    List.Forall₂ Reads ((ts.map (Option.map Sent.out)).map slotBytes) (ts.map slotTlv) := by
  induction ts with
  | nil => exact .nil
  | cons t ts ih => exact .cons (slot_reads t) ih

theorem slot_pos (t : Option Sent) : 0 < (slotBytes (t.map Sent.out)).length := by
  cases t with
  | none => exact Nat.zero_lt_one
  | some s => exact s.pos

theorem length_le_slotsBytes (ts : List (Option Sent)) :
    ts.length ≤ (slotsBytes (ts.map (Option.map Sent.out))).length := by
  induction ts with
  | nil => exact Nat.zero_le _
  | cons t ts ih =>
    have hpos := slot_pos t
    simp only [slotsBytes, List.map_cons, List.flatten_cons, List.length_append,
      List.length_cons] at ih ⊢
    omega

theorem length_trim_le (ts : List (Option Sent)) : (trim ts).length ≤ (argumentBytes ts).length :=
  length_le_slotsBytes (trim ts)

section Trim

variable {α : Type} {ts : List (Option α)} {k : Nat}

theorem getElem?_of_trim {t : Option α} (h : (trim ts)[k]? = some t) : ts[k]? = some t := by
  obtain ⟨n, hn⟩ := trim_append ts
  obtain ⟨hlt, -⟩ := List.getElem?_eq_some_iff.mp h
  rw [hn, List.getElem?_append_left hlt, h]

/-- A slot that is present is not trimmed. -/
theorem getElem?_trim {x : α} (h : ts[k]? = some (some x)) : (trim ts)[k]? = some (some x) := by
  obtain ⟨n, hn⟩ := trim_append ts
  rcases Nat.lt_or_ge k (trim ts).length with hlt | hge
  · rwa [hn, List.getElem?_append_left hlt] at h
  · rw [hn, List.getElem?_append_right hge] at h
    have hmem := List.mem_of_getElem? h
    rw [List.mem_replicate] at hmem
    cases hmem.2

theorem length_trim_le_length : (trim ts).length ≤ ts.length := by
  obtain ⟨n, hn⟩ := trim_append ts
  have hlen := congrArg List.length hn
  rw [List.length_append] at hlen
  omega

theorem lt_length_trim {x : α} (h : ts[k]? = some (some x)) : k < (trim ts).length :=
  (List.getElem?_eq_some_iff.mp (getElem?_trim h)).1

end Trim

/-! ### Lists of arguments -/

/-- A described list of arguments. -/
def Sent.list (code : UInt8) (ts : List (Option Sent)) (h : (argumentBytes ts).length ≤ 255) :
    Sent where
  out := listBytes [0, AmqpType.smallUlong.toByte, code, AmqpType.list8.toByte] .narrow
    (argumentBytes ts).length (trim ts).length (argumentBytes ts)
  node := { listTlv .narrow (argumentBytes ts).length ((trim ts).map slotTlv) with
    constructor := .ref ⟨AmqpType.list8.toByte, .ref (descriptorTlv code)⟩ }
  code := AmqpType.list8.toByte
  reads := by
    have hlen := length_trim_le ts
    have hcount : Width.narrow.Fits ((trim ts).map slotTlv).length := by
      rw [List.length_map]
      exact Nat.lt_succ_of_le (hlen.trans h)
    have hbody := readsElement_list (w := .narrow) (slots_reads (trim ts)) (Nat.lt_succ_of_le h)
      hcount
    rw [List.length_map] at hbody
    exact reads_tlv (descriptor_reads code _) hbody
  node_code := rfl
  code_ne := by decide
  pos := Nat.succ_pos _

section List

variable {α β : Type} {code : UInt8} {ts : List (Option Sent)} {h : (argumentBytes ts).length ≤ 255}
  {unwrap : TlvAmqp → Run (Ptr α)} {k : Nat}

theorem list_count : (Sent.list code ts h).node.count = .ref ((trim ts).length : Int) := by
  simp [Sent.list, listTlv]

theorem list_element {t : Option Sent} (hk : (trim ts)[k]? = some t) :
    (Sent.list code ts h).node.element k = .ok (slotTlv t) := by
  have hlist : (Sent.list code ts h).node.list = .ref ((trim ts).map slotTlv) := rfl
  unfold TlvAmqp.element
  rw [hlist, Ptr.deref_ref, ok_bind, List.getElem?_map, hk]
  rfl

theorem required_some {s : Sent} (hk : ts[k]? = some (some s)) :
    required (Sent.list code ts h).node k unwrap = unwrap s.node := by
  have hlt : ((trim ts).length : Int) > k := by exact_mod_cast lt_length_trim hk
  unfold required
  rw [list_count, Ptr.deref_ref, ok_bind, if_pos hlt, list_element (getElem?_trim hk)]
  rfl

/-- The argument `k` is looked at when it is present. -/
theorem argument_some {s : Sent} {f : TlvAmqp → Run β} {g e : Run β}
    (hk : ts[k]? = some (some s)) :
    (do
      if (← (Sent.list code ts h).node.count.deref) > k then
        let element ← (Sent.list code ts h).node.element k
        if (← element.code.get) ≠ nullCode then f element else g
      else e) = f s.node := by
  have hlt : ((trim ts).length : Int) > k := by exact_mod_cast lt_length_trim hk
  rw [list_count, Ptr.deref_ref, ok_bind, if_pos hlt, list_element (getElem?_trim hk), ok_bind,
    slotTlv, s.node_code, Cell.get_is, ok_bind, if_pos s.code_ne]

/-- An absent argument is a null or is behind the end of the list. -/
theorem argument_none {f : TlvAmqp → Run β} {g e : Run β} (hk : ts[k]?.join = none) :
    (do
      if (← (Sent.list code ts h).node.count.deref) > k then
        let element ← (Sent.list code ts h).node.element k
        if (← element.code.get) ≠ nullCode then f element else g
      else e) = if k < (trim ts).length then g else e := by
  rw [list_count, Ptr.deref_ref, ok_bind]
  rcases Nat.lt_or_ge k (trim ts).length with hlt | hge
  · have hget : (trim ts)[k]? = some (trim ts)[k] := List.getElem?_eq_getElem hlt
    have hnone : (trim ts)[k] = none := by
      rw [getElem?_of_trim hget] at hk
      exact hk
    rw [hnone] at hget
    rw [if_pos (by exact_mod_cast hlt), if_pos hlt, list_element hget]
    rfl
  · rw [if_neg (by omega), if_neg (by omega)]

theorem optional_some {s : Sent} (hk : ts[k]? = some (some s)) :
    optional (Sent.list code ts h).node k unwrap = unwrap s.node := argument_some hk

theorem optional_none (hk : ts[k]?.join = none) :
    optional (Sent.list code ts h).node k unwrap = .ok .indet :=
  (argument_none hk).trans (ite_self _)

/-- A nested list argument that may be absent, as it is read. -/
theorem optionalList_slot {read : TlvAmqp → Run (Option (Ptr α))} {x : Option β} {sent : β → Sent}
    {val : β → α} (hk : ts[k]? = some (x.map sent)) (hlist : ∀ v, (sent v).node.isList = .ok true)
    (hread : ∀ v, read (sent v).node = .ok (some (.ref (val v)))) :
    optionalList (Sent.list code ts h).node k read = .ok (some (.ofRead (x.map val))) := by
  cases x with
  | none => exact (argument_none (by rw [hk]; rfl)).trans (ite_self _)
  | some v =>
    refine (argument_some hk).trans ?_
    rw [hlist, ok_bind, if_pos rfl, hread]
    rfl

/-- A field that may be absent, as it is read. -/
theorem optional_slot {x : Option β} {sent : β → Sent} {val : β → α}
    (hk : ts[k]? = some (x.map sent)) (hu : ∀ v, unwrap (sent v).node = .ok (.ref (val v))) :
    optional (Sent.list code ts h).node k unwrap = .ok (.ofRead (x.map val)) := by
  cases x with
  | none => exact optional_none (by rw [hk]; rfl)
  | some v => rw [optional_some hk, hu]; rfl

end List

/-! ### Reading a value -/

theorem unwrapUint_sent (n : UInt8) : unwrapUint (Sent.uint n).node = .ok (.ref n.toNat) := by
  by_cases h : n = 0
  · subst h
    rfl
  · unfold Sent.uint
    rw [if_neg h]
    rfl

theorem unwrapUbyte_sent (n : UInt8) :
    copied id unwrapUbyte (Sent.ubyte n).node = .ok (.ref n.toNat) := rfl

theorem unwrapBool_sent (b : Bool) : unwrapBool (Sent.bool b).node = .ok (.ref b.toNat) := by
  cases b <;> rfl

theorem unwrapRole_sent (role : RoleCode) :
    copied RoleCode.ofInt unwrapBool (Sent.bool (role = .receiver)).node = .ok (.ref role) := by
  cases role <;> rfl

theorem stringValue_sized (kind : VariableKind) (s : CString) :
    stringValue (sizedTlv .narrow kind s.bytes) = .ok s := by
  have hcopy : copyOut s.bytes 0 s.bytes.length = .ok s.bytes := copyOut_drop (s := []) (by simp)
  change (copyOut s.bytes 0 s.bytes.length >>= _) = _
  rw [hcopy, ok_bind, CString.ofBytes_bytes]
  rfl

theorem unwrapString_sent (s : ShortString) :
    unwrapString (Sent.string s).node = .ok (.ref s.string) := by
  have hvalue : stringValue (Sent.string s).node = .ok s.string := stringValue_sized .string s.string
  change Ptr.ref <$> stringValue (Sent.string s).node = _
  rw [hvalue, ok_map]

/-! ### Writing a value -/

/-- The wrapper writes the argument. -/
def Writes (wrap : Run TlvAmqp) (s : Sent) : Prop := ∃ tlv, wrap = .ok tlv ∧ Holds tlv s.out

theorem wrapLong_writes (n : UInt8) : Writes (wrapLong n.toNat) (.uint n) := by
  obtain ⟨tlv, htlv, hholds⟩ := wrapLong_holds (Int.natCast_nonneg n.toNat)
  refine ⟨tlv, htlv, ?_⟩
  have hlt := n.toNat_lt
  by_cases h : n = 0
  · subst h
    exact hholds
  · have h0 : (n.toNat : Int) ≠ 0 := by
      exact_mod_cast fun h0 => h (UInt8.toNat_inj.mp h0)
    unfold uintBytes at hholds
    rw [if_neg h0, if_pos (by omega), byte_ofInt_toNat] at hholds
    unfold Sent.uint
    rw [if_neg h]
    exact hholds

theorem wrapBool_writes (b : Bool) : Writes (wrapBool b.toNat) (.bool b) := by
  obtain ⟨tlv, htlv, hholds⟩ := wrapBool_holds b.toNat
  refine ⟨tlv, htlv, ?_⟩
  cases b <;> exact hholds

theorem wrapRole_writes (role : RoleCode) :
    Writes (wrapBool role.toInt) (.bool (role = .receiver)) := by
  cases role with
  | sender => exact wrapBool_writes false
  | receiver => exact wrapBool_writes true

theorem wrapString_writes (s : ShortString) : Writes (wrapString s.string) (.string s) := by
  obtain ⟨tlv, htlv, hholds⟩ := wrapString_holds s.string
  unfold stringBytes sizedBytes at hholds
  rw [if_pos s.length_le] at hholds
  exact ⟨tlv, htlv, hholds⟩

theorem wrapState_writes (code : UInt8) : Writes (wrapState ⟨.is code⟩) (.state code) :=
  wrapState_holds code

/-! ### Writing a list -/

section Collect

variable {α β γ : Type} {a : Args} {ts : List (Option (List UInt8))}

theorem option_collects {wrap : α → Run TlvAmqp} {val : β → α} {sent : β → Sent} (k : Int)
    (x : Option β) (hw : ∀ v, Writes (wrap (val v)) (sent v)) :
    Collects (field k (.ofOption (x.map val)) wrap) k ((x.map sent).map Sent.out) := by
  cases x with
  | none => exact field_null k
  | some v => exact field_ref k (hw v)

theorem optionPtr_collects {wrap : α → Run (Ptr TlvAmqp)} {val : β → α} {sent : β → Sent}
    (k : Int) (x : Option β)
    (hw : ∀ v, ∃ tlv, wrap (val v) = .ok (.ref tlv) ∧ Holds tlv (sent v).out) :
    Collects (fieldPtr k (.ofOption (x.map val)) wrap) k ((x.map sent).map Sent.out) := by
  cases x with
  | none => exact fieldPtr_null k
  | some v => exact fieldPtr_ref k (hw v)

/-- A list is returned that holds the arguments `ts`, when they fit. -/
def Lists (node : γ → TlvAmqp) (arguments : Run (Ptr γ)) (code : UInt8)
    (ts : List (Option Sent)) : Prop :=
  ∀ h : (argumentBytes ts).length ≤ 255,
    ∃ l, arguments = .ok (.ref l) ∧ Holds (node l) (Sent.list code ts h).out

/-- One more field, and then the rest of the wrapper. -/
theorem Collected.field {node : γ → TlvAmqp} {c : Args → Run Args} {k : Int}
    {t : Option (List UInt8)} {rest : Args → Run (Ptr γ)} {code : UInt8} {us : List (Option Sent)}
    (h : Collected a ts) (hc : Collects c k t) (hk : k = ts.length + 1)
    (hrest : ∀ a', Collected a' (ts ++ [t]) → Lists node (rest a') code us) :
    Lists node (c a >>= rest) code us := by
  obtain ⟨a', ha', hcol⟩ := hc a ts h hk
  rw [ha', ok_bind]
  exact hrest a' hcol

end Collect

/-- The list of the fields that were collected. -/
theorem Args.finish_holds {a : Args} {ts : List (Option Sent)} (code : UInt8)
    (h : Collected a (ts.map (Option.map Sent.out))) (hne : trim ts ≠ [])
    (hsize : (argumentBytes ts).length ≤ 255) :
    ∃ l, a.finish code = .ok l ∧ Holds l.node (Sent.list code ts hsize).out := by
  obtain ⟨l, hl, hholds⟩ := finish_calculated code h (by rw [trim_map]; simpa using hne)
  rw [trim_map, List.length_map] at hholds
  have hout : calculatedBytes code (trim ts).length (argumentBytes ts) =
      (Sent.list code ts hsize).out := if_pos hsize
  exact ⟨l, hl, hout ▸ hholds⟩

theorem Args.finish_lists {γ : Type} {node : γ → TlvAmqp} {f : TlvList → γ} {a : Args}
    {ts : List (Option Sent)} {k : Nat} {s : Sent} (code : UInt8)
    (h : Collected a (ts.map (Option.map Sent.out))) (hk : ts[k]? = some (some s))
    (hf : ∀ l, node (f l) = l.node) :
    Lists node (do let list ← a.finish code; pure (.ref (f list))) code ts := by
  intro hsize
  have hlt := lt_length_trim hk
  obtain ⟨l, hl, hholds⟩ := finish_holds code h (List.ne_nil_of_length_pos (by omega)) hsize
  exact ⟨f l, by rw [hl, ok_bind]; rfl, hf l ▸ hholds⟩

end IotClient.Amqp
