import IotClient.Amqp.TlvSync

/-!
# What a node holds of a value

`Exposes v tlv` says that the node shows the value: the length and bytes of a string, symbol or
binary, the count and the elements of a list or array, the entries of a map, and so on below.
`get_element` stores no length for the 32-bit forms of the first and no elements for a
`LIST_32`; `exposes_iff` says that nothing else is missing.
-/

namespace IotClient.Amqp

open Mem

namespace Val

/-- The node shows the value, read as `AmqpType` says. -/
inductive Exposes : Val → TlvAmqp → Prop where
  | fixed {type : AmqpType} {data : List UInt8} {tlv : TlvAmqp} (code : tlv.code = .is type.toByte)
    (value : data ≠ [] → tlv.valueArray = .ref data) : Exposes (fixed type data) tlv
  | sized {w : Width} {kind : VariableKind} {data : List UInt8} {tlv : TlvAmqp}
    (length : tlv.length = .is data.length) (value : tlv.valueArray = .ref data) :
    Exposes (sized w kind data) tlv
  | list {w : Width} {xs : List Val} {tlv : TlvAmqp} {values : List TlvAmqp}
    (count : tlv.count = .ref xs.length) (stored : tlv.list.elems xs.length = .ok values)
    (elems : List.Forall₂ Exposes xs values) : Exposes (list w xs) tlv
  | map {w : Width} {es : List (Val × Val)} {tlv : TlvAmqp} {entries : List (TlvAmqp × TlvAmqp)}
    (stored : tlv.map.elems es.length = .ok entries)
    (keys : List.Forall₂ (fun e entry => Exposes e.1 entry.1) es entries)
    (values : List.Forall₂ (fun e entry => Exposes e.2 entry.2) es entries) : Exposes (map w es) tlv
  | array {w : Width} {descriptor : Option Val} {type : AmqpType} {xs : List Val} {tlv : TlvAmqp}
    {values : List TlvAmqp} (count : tlv.count = .ref xs.length)
    (stored : tlv.list.elems xs.length = .ok values) (elems : List.Forall₂ Exposes xs values) :
    Exposes (array w descriptor type xs) tlv
  | described {d v : Val} {tlv descriptor : TlvAmqp} {constructor : TlvConstructor TlvAmqp}
    (hconstructor : tlv.constructor = .ref constructor) (hdescriptor : constructor.tlv = .ref descriptor)
    (desc : Exposes d descriptor) (value : Exposes v tlv) : Exposes (described d v) tlv

/-- A value without a string, symbol or binary of 32-bit length and without a `LIST_32` that has
elements, except in the descriptor of an array, which no node keeps. -/
inductive Stored : Val → Prop where
  | fixed {type : AmqpType} {data : List UInt8} : Stored (fixed type data)
  | sized {kind : VariableKind} {data : List UInt8} : Stored (sized .narrow kind data)
  | list {w : Width} {xs : List Val} (wide : w = .wide → xs = []) (elems : ∀ x ∈ xs, Stored x) :
    Stored (list w xs)
  | map {w : Width} {es : List (Val × Val)} (keys : ∀ e ∈ es, Stored e.1)
    (values : ∀ e ∈ es, Stored e.2) : Stored (map w es)
  | array {w : Width} {descriptor : Option Val} {type : AmqpType} {xs : List Val}
    (elems : ∀ x ∈ xs, Stored x) : Stored (array w descriptor type xs)
  | described {d v : Val} (desc : Stored d) (value : Stored v) : Stored (described d v)

/-! ### Lists of nodes -/

theorem forall₂_exposes {f : Val → TlvAmqp} {xs : List Val}
    (h : ∀ x ∈ xs, Exposes x (f x) ↔ Stored x) :
    List.Forall₂ Exposes xs (xs.map f) ↔ ∀ x ∈ xs, Stored x := by
  rw [List.forall₂_map_right_iff, List.forall₂_same]
  exact forall₂_congr h

theorem elems_map {α β : Type} (f : α → β) (xs : List α) :
    (Ptr.ref (xs.map f)).elems xs.length = .ok (xs.map f) := by
  have helems := Ptr.elems_ref (xs.map f)
  rwa [List.length_map] at helems

/-! ### Each kind of value -/

section Kinds

variable {w : Width} {type : AmqpType} {tlv : TlvAmqp}

theorem exposes_fixed {data : List UInt8} : Exposes (fixed type data) tlv ↔
    tlv.code = .is type.toByte ∧ (data ≠ [] → tlv.valueArray = .ref data) := by
  constructor
  · intro h
    cases h with
    | fixed code value => exact ⟨code, value⟩
  · exact fun h => .fixed h.1 h.2

theorem exposes_sized {kind : VariableKind} {data : List UInt8} : Exposes (sized w kind data) tlv ↔
    tlv.length = .is data.length ∧ tlv.valueArray = .ref data := by
  constructor
  · intro h
    cases h with
    | sized length value => exact ⟨length, value⟩
  · exact fun h => .sized h.1 h.2

theorem exposes_list {xs : List Val} : Exposes (list w xs) tlv ↔ tlv.count = .ref xs.length ∧
    ∃ values, tlv.list.elems xs.length = .ok values ∧ List.Forall₂ Exposes xs values := by
  constructor
  · intro h
    cases h with
    | list count stored elems => exact ⟨count, _, stored, elems⟩
  · rintro ⟨count, values, stored, elems⟩
    exact .list count stored elems

theorem exposes_map {es : List (Val × Val)} : Exposes (map w es) tlv ↔
    ∃ entries, tlv.map.elems es.length = .ok entries ∧
      List.Forall₂ (fun e entry => Exposes e.1 entry.1) es entries ∧
      List.Forall₂ (fun e entry => Exposes e.2 entry.2) es entries := by
  constructor
  · intro h
    cases h with
    | map stored keys values => exact ⟨_, stored, keys, values⟩
  · rintro ⟨entries, stored, keys, values⟩
    exact .map stored keys values

theorem exposes_array {descriptor : Option Val} {xs : List Val} :
    Exposes (array w descriptor type xs) tlv ↔ tlv.count = .ref xs.length ∧
      ∃ values, tlv.list.elems xs.length = .ok values ∧ List.Forall₂ Exposes xs values := by
  constructor
  · intro h
    cases h with
    | array count stored elems => exact ⟨count, _, stored, elems⟩
  · rintro ⟨count, values, stored, elems⟩
    exact .array count stored elems

theorem exposes_described {d v : Val} : Exposes (described d v) tlv ↔
    (∃ constructor descriptor, tlv.constructor = .ref constructor ∧
      constructor.tlv = .ref descriptor ∧ Exposes d descriptor) ∧ Exposes v tlv := by
  constructor
  · intro h
    cases h with
    | described hconstructor hdescriptor desc value =>
      exact ⟨⟨_, _, hconstructor, hdescriptor, desc⟩, value⟩
  · rintro ⟨⟨_, _, hconstructor, hdescriptor, desc⟩, value⟩
    exact .described hconstructor hdescriptor desc value

/-- The constructor of a node says nothing about a value without a descriptor. -/
theorem exposes_constructor {v : Val} {constructor : Ptr (TlvConstructor TlvAmqp)} (hp : v.Plain) :
    Exposes v { tlv with constructor := constructor } ↔ Exposes v tlv := by
  cases v with
  | described d v => exact hp.elim
  | fixed => rw [exposes_fixed, exposes_fixed]
  | sized => rw [exposes_sized, exposes_sized]
  | list => rw [exposes_list, exposes_list]
  | map => rw [exposes_map, exposes_map]
  | array => rw [exposes_array, exposes_array]

theorem exposes_node {v : Val} (hp : v.Plain) : Exposes v v.node ↔ Exposes v v.body :=
  exposes_constructor hp

end Kinds

/-! ### The node of a value -/

theorem fixedTlv_exposes {type : AmqpType} {data : List UInt8}
    (h : type.fixedWidth = some data.length) : Exposes (fixed type data) (type.fixedTlv data) := by
  rw [exposes_fixed]
  cases type <;> simp only [AmqpType.fixedWidth, Option.some.injEq, reduceCtorEq] at h
  case amqpNull | booleanTrue | booleanFalse | uint0 | ulong0 | list0 =>
    have hnil : data = [] := List.eq_nil_of_length_eq_zero h.symm
    exact ⟨rfl, fun hne => absurd hnil hne⟩
  all_goals exact ⟨rfl, fun _ => rfl⟩

theorem sizedTlv_exposes_iff {w : Width} {kind : VariableKind} {data : List UInt8} :
    Exposes (sized w kind data) (sizedTlv w kind data) ↔ Stored (sized w kind data) := by
  rw [exposes_sized]
  cases w with
  | narrow => exact iff_of_true ⟨rfl, rfl⟩ .sized
  | wide =>
    refine iff_of_false (fun h => ?_) (fun h => ?_)
    · -- the length was never assigned
      cases h.1
    · cases h

theorem listTlv_exposes_iff {w : Width} {xs : List Val} {size : Nat}
    (ih : ∀ x ∈ xs, Exposes x x.node ↔ Stored x) :
    Exposes (list w xs) (listTlv w size (nodes xs)) ↔ Stored (list w xs) := by
  have hstored : Stored (list w xs) ↔ (w = .wide → xs = []) ∧ ∀ x ∈ xs, Stored x := by
    constructor
    · intro h
      cases h with
      | list wide elems => exact ⟨wide, elems⟩
    · exact fun h => .list h.1 h.2
  have hcount : (listTlv w size (nodes xs)).count = .ref xs.length := by
    show Ptr.ref ((nodes xs).length : Int) = _
    rw [nodes_eq, List.length_map]
  rw [exposes_list, hstored, ← forall₂_exposes ih]
  cases w with
  | narrow =>
    have hlist : (listTlv .narrow size (nodes xs)).list.elems xs.length = .ok (xs.map node) := by
      rw [nodes_eq]
      exact elems_map node xs
    rw [hlist]
    constructor
    · rintro ⟨-, values, hvalues, helems⟩
      obtain rfl := Except.ok.inj hvalues
      exact ⟨fun hw => (nomatch hw), helems⟩
    · rintro ⟨-, helems⟩
      exact ⟨hcount, _, rfl, helems⟩
  | wide =>
    cases xs with
    | nil => exact iff_of_true ⟨hcount, [], rfl, .nil⟩ ⟨fun _ => rfl, .nil⟩
    | cons x xs =>
      refine iff_of_false (fun h => ?_) (fun h => (nomatch h.1 rfl))
      -- the elements were read but not stored
      obtain ⟨-, values, hvalues, -⟩ := h
      cases hvalues

theorem mapTlv_exposes_iff {w : Width} {es : List (Val × Val)} {size count : Nat}
    (ihk : ∀ e ∈ es, Exposes e.1 e.1.node ↔ Stored e.1)
    (ihv : ∀ e ∈ es, Exposes e.2 e.2.node ↔ Stored e.2) :
    Exposes (map w es) (mapTlv w size count (entryNodes es)) ↔ Stored (map w es) := by
  have hstored : Stored (map w es) ↔ (∀ e ∈ es, Stored e.1) ∧ ∀ e ∈ es, Stored e.2 := by
    constructor
    · intro h
      cases h with
      | map keys values => exact ⟨keys, values⟩
    · exact fun h => .map h.1 h.2
  have hmap : (mapTlv w size count (entryNodes es)).map.elems es.length =
      .ok (es.map fun e => (e.1.node, e.2.node)) := by
    rw [entryNodes_eq]
    exact elems_map _ es
  have hkeys : List.Forall₂ (fun e entry => Exposes e.1 entry.1) es
      (es.map fun e => (e.1.node, e.2.node)) ↔ ∀ e ∈ es, Stored e.1 := by
    rw [List.forall₂_map_right_iff, List.forall₂_same]
    exact forall₂_congr ihk
  have hvalues : List.Forall₂ (fun e entry => Exposes e.2 entry.2) es
      (es.map fun e => (e.1.node, e.2.node)) ↔ ∀ e ∈ es, Stored e.2 := by
    rw [List.forall₂_map_right_iff, List.forall₂_same]
    exact forall₂_congr ihv
  rw [exposes_map, hstored, hmap, ← hkeys, ← hvalues]
  constructor
  · rintro ⟨entries, hentries, h⟩
    obtain rfl := Except.ok.inj hentries
    exact h
  · exact fun h => ⟨_, rfl, h⟩

theorem arrayTlv_exposes_iff {w : Width} {descriptor : Option Val} {type : AmqpType} {xs : List Val}
    {size : Nat} (ih : ∀ x ∈ xs, Exposes x x.body ↔ Stored x) :
    Exposes (array w descriptor type xs) (arrayTlv w size (bodies xs)) ↔
      Stored (array w descriptor type xs) := by
  have hstored : Stored (array w descriptor type xs) ↔ ∀ x ∈ xs, Stored x := by
    constructor
    · intro h
      cases h with
      | array elems => exact elems
    · exact .array
  have hcount : (arrayTlv w size (bodies xs)).count = .ref xs.length := by
    rw [arrayTlv, bodies_eq, List.length_map]
  have hlist : (arrayTlv w size (bodies xs)).list.elems xs.length = .ok (xs.map body) := by
    rw [bodies_eq]
    exact elems_map body xs
  rw [exposes_array, hstored, hlist, ← forall₂_exposes ih]
  constructor
  · rintro ⟨-, values, hvalues, helems⟩
    obtain rfl := Except.ok.inj hvalues
    exact helems
  · exact fun h => ⟨hcount, _, rfl, h⟩

/-- The descriptor hangs on the constructor of the node, the value on the node itself. -/
theorem described_exposes_iff {d v : Val} (plain : v.Plain)
    (ihd : Exposes d d.node ↔ Stored d) (ihv : Exposes v v.node ↔ Stored v) :
    Exposes (described d v) (described d v).node ↔ Stored (described d v) := by
  have hstored : Stored (described d v) ↔ Stored d ∧ Stored v := by
    constructor
    · intro h
      cases h with
      | described desc value => exact ⟨desc, value⟩
    · exact fun h => .described h.1 h.2
  have hnode : (described d v).node =
      { v.body with constructor := .ref ⟨v.type.toByte, .ref d.node⟩ } := node_described d v
  rw [exposes_described, hnode, exposes_constructor plain, ← exposes_node plain, ihv, hstored, ← ihd]
  refine and_congr_left fun _ => ?_
  constructor
  · rintro ⟨c, descriptor, hc, hdescriptor, h⟩
    obtain rfl := Ptr.ref.inj hc
    obtain rfl := Ptr.ref.inj hdescriptor
    exact h
  · exact fun h => ⟨_, _, rfl, rfl, h⟩

theorem Ok.exposes_iff {v : Val} (h : v.Ok) : Exposes v v.node ↔ Stored v := by
  induction h with
  | fixed h =>
    refine (exposes_node (by trivial)).trans ?_
    rw [body]
    exact iff_of_true (fixedTlv_exposes h) .fixed
  | sized h =>
    refine (exposes_node (by trivial)).trans ?_
    rw [body]
    exact sizedTlv_exposes_iff
  | list _ _ _ ih =>
    refine (exposes_node (by trivial)).trans ?_
    rw [body]
    exact listTlv_exposes_iff ih
  | map _ _ _ _ ihk ihv =>
    refine (exposes_node (by trivial)).trans ?_
    rw [body]
    exact mapTlv_exposes_iff ihk ihv
  | array _ _ typed _ _ _ ih =>
    refine (exposes_node (by trivial)).trans ?_
    rw [body]
    refine arrayTlv_exposes_iff fun x hx => ?_
    rw [← exposes_node (typed x hx).1]
    exact ih x hx
  | described _ _ plain ihd ihv => exact described_exposes_iff plain ihd ihv

end Val

/-- What `get_tlv` makes of the encoding of a value, anywhere in a buffer, shows the value. -/
theorem getTlv_exposes_iff {v : Val} (h : v.Ok) (p s : List UInt8) :
    (∃ tlv i, getTlv (p ++ v.enc ++ s) p.length = .ok (tlv, i) ∧ v.Exposes tlv) ↔ v.Stored := by
  rw [getTlv_node h, ← h.exposes_iff]
  constructor
  · rintro ⟨tlv, i, hget, hexposes⟩
    cases hget
    exact hexposes
  · exact fun hexposes => ⟨_, _, rfl, hexposes⟩

theorem getTlv_exposes_iff_openValue :
    (∃ tlv i, getTlv ([0x02] ++ openValue.enc ++ [0x53, 0x10]) 1 = .ok (tlv, i) ∧
      openValue.Exposes tlv) ↔ openValue.Stored :=
  getTlv_exposes_iff openValue_ok [0x02] [0x53, 0x10]

/-- The string of 256 letters `a`, one more than a length of one byte counts. -/
def longString : Val := .sized .wide .string (List.replicate 256 0x61)

theorem longString_ok : longString.Ok := .sized (by rw [List.length_replicate]; decide)

/-- `get_tlv` does not store its length. -/
theorem longString_not_exposed :
    longString.Ok ∧ ¬ ∃ tlv i, getTlv longString.enc 0 = .ok (tlv, i) ∧ longString.Exposes tlv := by
  refine ⟨longString_ok, ?_⟩
  rintro ⟨tlv, i, hget, hexposes⟩
  have hnode := getTlv_node longString_ok [] []
  rw [List.append_nil] at hnode
  rw [List.nil_append, List.length_nil] at hnode
  rw [hnode] at hget
  cases hget
  cases longString_ok.exposes_iff.1 hexposes

end IotClient.Amqp
