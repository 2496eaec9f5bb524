import IotClient.Amqp.Elements
import IotClient.Amqp.HeaderFactory

/-!
# What `init_header` needs of the arguments

`Announces list args` says that the node has the arguments: those of a `LIST_8` or an array, none for
a count that is not positive. A field is read when its argument fits (`required_returns`,
`optional_returns`), a packet when all its fields do.
-/

namespace IotClient.Amqp

open Mem

/-- The arguments that the count of the node announces. -/
def Announces (list : TlvAmqp) (args : List TlvAmqp) : Prop :=
  ∃ n, list.count = .ref n ∧ args.length = n.toNat ∧ (args = [] ∨ list.list = .ref args)

/-- An argument that is there fits. -/
def RequiredFits (args : List TlvAmqp) (k : Nat) (F : TlvAmqp → Prop) : Prop :=
  ∀ e ∈ args[k]?, F e

/-- An argument that is there and no null fits. -/
def OptionalFits (args : List TlvAmqp) (k : Nat) (F : TlvAmqp → Prop) : Prop :=
  ∀ e ∈ args[k]?, ¬ e.Is [.amqpNull] → F e

section Arguments

variable {α : Type} {list : TlvAmqp} {args : List TlvAmqp} {k : Nat} {F : TlvAmqp → Prop}
  {unwrap : TlvAmqp → Run (Ptr α)}

/-- What `get_element` makes of a node with a count. -/
theorem Made.counted (h : Made list) {n : Int} (hn : list.count = .ref n) :
    (∃ args, list.list = .ref args ∧ args.length = n.toNat ∧ ∀ a ∈ args, Made a) ∨
      n = 0 ∧ list.list = .null ∨ list.list = .indet := by
  rcases h.type with ⟨t, -, hshape⟩ | ⟨hindet, -⟩
  · cases t
    case list0 =>
      obtain ⟨hnull, hcount⟩ := hshape
      exact .inr (.inl ⟨Ptr.ref.inj (hn.symm.trans hcount), hnull⟩)
    case list8 =>
      obtain ⟨values, hvalues, hcount, hmade⟩ := hshape
      obtain rfl : n = values.length := Ptr.ref.inj (hn.symm.trans hcount)
      exact .inl ⟨values, hvalues, by omega, hmade⟩
    case list32 | map8 | map32 => exact .inr (.inr hshape.1)
    case array8 | array32 =>
      obtain ⟨m, values, hvalues, hcount, hlen, hmade⟩ := hshape
      obtain rfl : n = m := Ptr.ref.inj (hn.symm.trans hcount)
      exact .inl ⟨values, hvalues, hlen, hmade⟩
    all_goals
      have hindet : list.count = .indet := by first | exact hshape | exact hshape.1
      rw [hn] at hindet
      cases hindet
  · rw [hn] at hindet
    cases hindet

/-- The arguments were read. -/
theorem Announces.made (h : Announces list args) (hmade : Made list) : ∀ a ∈ args, Made a := by
  obtain ⟨n, hn, hlen, rfl | hlist⟩ := h
  · intro a ha; cases ha
  · rcases hmade.counted hn with ⟨args', hlist', -, hargs⟩ | ⟨-, hnull⟩ | hindet
    · rw [hlist] at hlist'
      cases hlist'
      exact hargs
    · rw [hlist] at hnull
      cases hnull
    · rw [hlist] at hindet
      cases hindet

/-- A node whose first argument is found has all that it announces. -/
theorem exists_announces (h : Made list) {n : Int} (hn : list.count = .ref n)
    (hfirst : 0 < n → Returns (list.element 0)) : ∃ args, Announces list args := by
  rcases h.counted hn with ⟨args, hlist, hlen, -⟩ | ⟨rfl, -⟩ | hindet
  · exact ⟨args, n, hn, hlen, .inr hlist⟩
  · exact ⟨[], 0, hn, rfl, .inl rfl⟩
  · by_cases hpos : 0 < n
    · have hr := hfirst hpos
      unfold TlvAmqp.element at hr
      rw [hindet] at hr
      exact absurd hr (not_returns_error _)
    · exact ⟨[], n, hn, by rw [List.length_nil]; omega, .inl rfl⟩

/-- `list->count > k` -/
theorem Announces.count_gt (h : Announces list args) (k : Nat) :
    ∃ n, list.count = .ref n ∧ (n > k ↔ k < args.length) := by
  obtain ⟨n, hn, hlen, -⟩ := h
  exact ⟨n, hn, by omega⟩

theorem Announces.element (h : Announces list args) (hk : k < args.length) :
    list.element k = .ok args[k] := by
  obtain ⟨n, -, -, rfl | hlist⟩ := h
  · cases hk
  · unfold TlvAmqp.element
    rw [hlist, Ptr.deref_ref, ok_bind, List.getElem?_eq_getElem hk]
    rfl

/-- What is done with an argument that is there and no null, with a null and without one. -/
def given {β : Type} (list : TlvAmqp) (k : Nat) (x : TlvAmqp → Run β) (null absent : Run β) :
    Run β := do
  if (← list.count.deref) > k then
    let element ← list.element k
    if (← element.code.get) ≠ nullCode then x element else null
  else absent

theorem given_cases {β : Type} (hmade : Made list) (ha : Announces list args)
    (x : TlvAmqp → Run β) (null absent : Run β) :
    args[k]? = none ∧ given list k x null absent = absent ∨ ∃ e, args[k]? = some e ∧ Made e ∧
      (e.Is [.amqpNull] ∧ given list k x null absent = null ∨
        ¬ e.Is [.amqpNull] ∧ given list k x null absent = x e) := by
  obtain ⟨n, hn, hgt⟩ := ha.count_gt k
  unfold given
  rw [hn, Ptr.deref_ref, ok_bind]
  by_cases hk : k < args.length
  · have hmem := ha.made hmade _ (List.getElem_mem hk)
    obtain ⟨code, hcode⟩ := hmem.code_eq
    refine .inr ⟨args[k], List.getElem?_eq_getElem hk, hmem, ?_⟩
    rw [if_pos (hgt.2 hk), ha.element hk, ok_bind, hcode, Cell.get_is, ok_bind, is_singleton, hcode,
      Cell.is.injEq]
    by_cases hnull : code = nullCode
    · exact .inl ⟨hnull, if_neg (not_not.2 hnull)⟩
    · exact .inr ⟨hnull, if_pos hnull⟩
  · exact .inl ⟨List.getElem?_eq_none (by omega), if_neg (mt hgt.1 hk)⟩

theorem optional_eq_given : optional list k unwrap = given list k unwrap (pure .indet) (pure .indet) :=
  rfl

theorem required_beyond {n : Int} (hn : list.count = .ref n) (hle : n ≤ k) :
    required list k unwrap = .ok .indet := by
  unfold required
  rw [hn, Ptr.deref_ref, ok_bind, if_neg (by omega)]
  rfl

theorem optional_beyond {n : Int} (hn : list.count = .ref n) (hle : n ≤ k) :
    optional list k unwrap = .ok .indet := by
  unfold optional
  rw [hn, Ptr.deref_ref, ok_bind, if_neg (by omega)]
  rfl

theorem required_cases (ha : Announces list args) (unwrap : TlvAmqp → Run (Ptr α)) :
    args[k]? = none ∧ required list k unwrap = .ok .indet ∨
      ∃ e, args[k]? = some e ∧ required list k unwrap = unwrap e := by
  obtain ⟨n, hn, hgt⟩ := ha.count_gt k
  unfold required
  rw [hn, Ptr.deref_ref, ok_bind]
  by_cases hk : k < args.length
  · refine .inr ⟨args[k], List.getElem?_eq_getElem hk, ?_⟩
    rw [if_pos (hgt.2 hk), ha.element hk, ok_bind]
  · exact .inl ⟨List.getElem?_eq_none (by omega), if_neg (mt hgt.1 hk)⟩

theorem requiredFits_some {e : TlvAmqp} (he : args[k]? = some e) : RequiredFits args k F ↔ F e := by
  unfold RequiredFits
  rw [he]
  simp only [Option.mem_def, Option.some.injEq, forall_eq']

theorem optionalFits_some {e : TlvAmqp} (he : args[k]? = some e) :
    OptionalFits args k F ↔ (¬ e.Is [.amqpNull] → F e) := by
  unfold OptionalFits
  rw [he]
  simp only [Option.mem_def, Option.some.injEq, forall_eq']

theorem requiredFits_none (h : args[k]? = none) : RequiredFits args k F := by
  intro e he
  rw [h] at he
  cases he

theorem optionalFits_none (h : args[k]? = none) : OptionalFits args k F := by
  intro e he
  rw [h] at he
  cases he

theorem mem_argument_some {e : TlvAmqp} (he : args[k]? = some e) : (∃ e ∈ args[k]?, F e) ↔ F e := by
  rw [he]
  simp only [Option.mem_def, Option.some.injEq, exists_eq_left']

theorem not_mem_argument_none (h : args[k]? = none) : ¬ ∃ e ∈ args[k]?, F e := by
  rintro ⟨e, he, -⟩
  rw [h] at he
  cases he

theorem required_returns (ha : Announces list args) (hF : ∀ e ∈ args, Returns (unwrap e) ↔ F e) :
    Returns (required list k unwrap) ↔ RequiredFits args k F := by
  rcases required_cases ha unwrap with ⟨hnone, heq⟩ | ⟨e, he, heq⟩
  · rw [heq]
    exact iff_of_true (returns_ok _) (requiredFits_none hnone)
  · rw [heq, requiredFits_some he]
    exact hF e (List.mem_of_getElem? he)

/-- An argument decides only when it is there and no null. -/
theorem given_iff {β : Type} {x : TlvAmqp → Run β} {b : β} {Q : Run β → Prop} (hmade : Made list)
    (ha : Announces list args) (hb : Q (pure b)) (hF : ∀ e, Made e → (Q (x e) ↔ F e)) :
    Q (given list k x (pure b) (pure b)) ↔ OptionalFits args k F := by
  rcases given_cases hmade ha x (pure b) (pure b) with
    ⟨hnone, heq⟩ | ⟨e, he, hmade', ⟨hnull, heq⟩ | ⟨hnull, heq⟩⟩
  · rw [heq]
    exact iff_of_true hb (optionalFits_none hnone)
  · rw [heq, optionalFits_some he]
    exact iff_of_true hb fun hnot => absurd hnull hnot
  · rw [heq, optionalFits_some he, hF e hmade']
    exact ⟨fun hf _ => hf, fun hf => hf hnull⟩

theorem optional_returns (ha : Announces list args) (hmade : Made list)
    (hF : ∀ e, Made e → (Returns (unwrap e) ↔ F e)) :
    Returns (optional list k unwrap) ↔ OptionalFits args k F :=
  given_iff hmade ha (returns_ok _) hF

/-- A required field that is there when it is used. -/
theorem required_deref (h : Made list) (ha : Announces list args)
    (hF : ∀ e, Made e → (Returns (do (← unwrap e).deref) ↔ F e)) {p : Ptr α}
    (hp : required list k unwrap = .ok p) : Returns p.deref ↔ ∃ e ∈ args[k]?, F e := by
  rcases required_cases ha unwrap with ⟨hnone, heq⟩ | ⟨e, he, heq⟩
  · rw [heq] at hp
    cases hp
    exact iff_of_false (not_returns_error _) (not_mem_argument_none hnone)
  · rw [mem_argument_some he, ← hF e (ha.made h e (List.mem_of_getElem? he)), ← heq, hp]
    exact Iff.rfl

/-- A field whose unwrap function always returns. -/
theorem required_always (h : Announces list args) (hF : ∀ e ∈ args, Returns (unwrap e)) :
    Returns (required list k unwrap) :=
  (required_returns (F := fun _ => True) h fun e he => iff_of_true (hF e he) trivial).2
    fun _ _ => trivial

theorem optional_always (h : Announces list args) (hmade : Made list)
    (hF : ∀ e, Made e → Returns (unwrap e)) : Returns (optional list k unwrap) :=
  (optional_returns (F := fun _ => True) h hmade fun e he => iff_of_true (hF e he) trivial).2
    fun _ _ _ => trivial

theorem copied_returns {β : Type} {f : α → β} {tlv : TlvAmqp} :
    Returns (copied f unwrap tlv) ↔ Returns (do (← unwrap tlv).deref) := by
  unfold copied
  cases unwrap tlv with
  | error e => exact iff_of_false (not_returns_error e) (not_returns_error e)
  | ok p => exact returns_bind_ok fun _ => returns_ok _

/-- An argument list that is looked at has its arguments. -/
theorem exists_announces_of_first {β : Type} {x : TlvAmqp → Run β} {absent : Run β} (h : Made list)
    (hr : Returns (do
      if (← list.count.deref) > ((0 : Nat) : Int) then x (← list.element 0) else absent)) :
    ∃ args, Announces list args := by
  obtain ⟨p, hp⟩ := hr
  obtain ⟨n, hn, hp⟩ := bind_eq_ok.1 hp
  refine exists_announces h (Ptr.deref_eq_ok.1 hn) fun hpos => ?_
  have hlooked : n > ((0 : Nat) : Int) := hpos
  rw [if_pos hlooked] at hp
  obtain ⟨e, he, -⟩ := bind_eq_ok.1 hp
  exact ⟨e, he⟩

theorem exists_announces_of_required (h : Made list) (hr : Returns (required list 0 unwrap)) :
    ∃ args, Announces list args :=
  exists_announces_of_first h hr

theorem exists_announces_of_optional (h : Made list) (hr : Returns (optional list 0 unwrap)) :
    ∃ args, Announces list args :=
  exists_announces_of_first h hr

/-- The arguments of a list in which one is found. -/
theorem values_of_element (h : Made list) {n : Int} (hn : list.count = .ref n) {e : TlvAmqp}
    (he : list.element k = .ok e) :
    ∃ values, list.list = .ref values ∧ values.length = n.toNat ∧ values[k]? = some e := by
  unfold TlvAmqp.element at he
  obtain ⟨values, hvalues, he⟩ := bind_eq_ok.1 he
  have hlist := Ptr.deref_eq_ok.1 hvalues
  have hvalue : values[k]? = some e := by
    cases hget : values[k]? with
    | none =>
      rw [hget] at he
      cases he
    | some element =>
      rw [hget] at he
      cases he
      rfl
  rcases h.counted hn with ⟨args, hargs, hlen, -⟩ | ⟨-, hnull⟩ | hindet
  · rw [hlist] at hargs
    cases hargs
    exact ⟨values, hlist, hlen, hvalue⟩
  · rw [hlist] at hnull
    cases hnull
  · rw [hlist] at hindet
    cases hindet

theorem exists_announces_of_element (h : Made list) {n : Int} (hn : list.count = .ref n)
    (hr : Returns (list.element 0)) : ∃ args, Announces list args ∧ args ≠ [] := by
  obtain ⟨e, he⟩ := hr
  obtain ⟨values, hvalues, hlen, hvalue⟩ := values_of_element h hn he
  exact ⟨values, ⟨n, hn, hlen, .inr hvalues⟩, List.ne_nil_of_mem (List.mem_of_getElem? hvalue)⟩

/-- No two lists of arguments are announced. -/
theorem Announces.unique {args' : List TlvAmqp} (h : Announces list args)
    (h' : Announces list args') : args = args' := by
  obtain ⟨n, hn, hlen, hlist⟩ := h
  obtain ⟨m, hm, hlen', hlist'⟩ := h'
  obtain rfl : n = m := Ptr.ref.inj (hn.symm.trans hm)
  rcases hlist with rfl | hlist
  · exact (List.eq_nil_of_length_eq_zero (by rw [hlen', ← hlen]; rfl)).symm
  rcases hlist' with rfl | hlist'
  · exact List.eq_nil_of_length_eq_zero (by rw [hlen, ← hlen']; rfl)
  · exact Ptr.ref.inj (hlist.symm.trans hlist')

end Arguments

/-! ### Descriptors and lists -/

/-- The node has a descriptor, whose value starts with the code. -/
def TlvAmqp.Described (tlv : TlvAmqp) (code : UInt8) : Prop :=
  ∃ constructor descriptor bytes, tlv.constructor = .ref constructor ∧
    constructor.tlv = .ref descriptor ∧ descriptor.valueArray = .ref (code :: bytes)

/-- The types of a list. -/
def listTypes : List AmqpType := [.list0, .list8, .list32]

section Nodes

variable {tlv : TlvAmqp} {code : UInt8}

theorem rd_zero_eq_ok {buf : List UInt8} {x : UInt8} :
    rd buf 0 = .ok x ↔ ∃ bytes, buf = x :: bytes := by
  cases buf with
  | nil => exact iff_of_false (fun h => by cases h) fun ⟨_, h⟩ => by cases h
  | cons y ys =>
    show Except.ok y = _ ↔ _
    simp only [Except.ok.injEq, List.cons.injEq, exists_and_left, exists_eq', and_true]

theorem descriptorCode_eq_ok : tlv.descriptorCode = .ok code ↔ tlv.Described code := by
  unfold TlvAmqp.descriptorCode TlvConstructor.descriptorCode TlvAmqp.firstByte
  simp only [bind_eq_ok, Ptr.deref_eq_ok, rd_zero_eq_ok]
  constructor
  · rintro ⟨c, hc, d, hd, _, hvalue, bytes, rfl⟩
    exact ⟨c, d, bytes, hc, hd, hvalue⟩
  · rintro ⟨c, d, bytes, hc, hd, hvalue⟩
    exact ⟨c, hc, d, hd, _, hvalue, bytes, rfl⟩

theorem descriptorCode_returns : Returns tlv.descriptorCode ↔ ∃ code, tlv.Described code :=
  exists_congr fun _ => descriptorCode_eq_ok

theorem unwrapState_returns : Returns (unwrapState tlv) ↔ ∃ code, tlv.Described code :=
  (returns_bind_ok fun _ => returns_ok _).trans descriptorCode_returns

theorem getOutcome_returns : Returns (getOutcome tlv) ↔ ∃ code, tlv.Described code := by
  refine (returns_bind_ok fun code => ?_).trans descriptorCode_returns
  split <;> exact returns_ok _

theorem isList_eq (h : Made tlv) : ∃ b, tlv.isList = .ok b ∧ (b = true ↔ tlv.Is listTypes) := by
  obtain ⟨code, hcode⟩ := h.code_eq
  exact ⟨_, hasCode_eq hcode, any_iff_is hcode⟩

/-- An array that `unwrap` reads, with a first element. -/
def HeadUnwraps (tlv : TlvAmqp) : Prop :=
  tlv.Is arrayTypes ∧ Unwraps tlv ∧ tlv.list ≠ .ref []

/-- The first element is unwrapped with all others. -/
theorem unwrapArrayHead_eq_ok (h : Made tlv) {p : Ptr Unwrapped} :
    unwrapArrayHead tlv = .ok p ↔ tlv.Is arrayTypes ∧ Unwraps tlv ∧
      ∃ v vs, tlv.list = .ref (v :: vs) ∧ unwrap v = .ok p := by
  unfold unwrapArrayHead
  by_cases his : tlv.Is arrayTypes
  · obtain ⟨n, values, hvalues, hcount, hlen, hmade⟩ := h.array his
    have hall : (∀ v ∈ values, Returns (unwrap v)) ↔ Unwraps tlv :=
      (forall₂_congr fun v hv => unwrap_returns v (hmade v hv)).trans
        (unwraps_array his hvalues).symm
    rw [unwrapArray_eq his hvalues hcount, unwrapElements, ← hlen, and_iff_right his, hvalues,
      ← hall, ← unwrapEach_returns]
    cases values with
    | nil =>
      rw [List.length_nil, unwrapEach]
      refine iff_of_false (fun hp => by cases hp) ?_
      rintro ⟨-, _, _, heq, -⟩
      cases heq
    | cons v vs =>
      rw [List.length_cons, unwrapEach]
      simp only [Ptr.ref.injEq, List.cons.injEq]
      cases hv : unwrap v with
      | error e =>
        exact iff_of_false (fun hp => by cases hp) fun hp => not_returns_error e hp.1
      | ok value =>
        cases unwrapEach vs vs.length with
        | error e =>
          exact iff_of_false (fun hp => by cases hp) fun hp => not_returns_error e hp.1
        | ok us =>
          constructor
          · intro hp
            exact ⟨returns_ok _, v, vs, ⟨rfl, rfl⟩, hv.trans hp⟩
          · rintro ⟨-, _, _, ⟨rfl, rfl⟩, hp⟩
            exact hv.symm.trans hp
  · have heq : unwrapArray tlv = .ok .null := unwrapCodes_not h his
    rw [heq]
    exact iff_of_false (fun hp => by cases hp) fun hh => his hh.1

theorem unwrapArrayHead_returns (h : Made tlv) :
    Returns (unwrapArrayHead tlv) ↔ HeadUnwraps tlv := by
  refine (exists_congr fun _ => unwrapArrayHead_eq_ok h).trans ?_
  unfold HeadUnwraps
  constructor
  · rintro ⟨p, his, hu, v, vs, hlist, -⟩
    exact ⟨his, hu, by rw [hlist]; simp⟩
  · rintro ⟨his, hu, hne⟩
    obtain ⟨n, values, hvalues, -, -, hmade⟩ := h.array his
    cases values with
    | nil => exact absurd hvalues hne
    | cons v vs =>
      have hv := (unwraps_array his hvalues).1 hu v List.mem_cons_self
      obtain ⟨p, hp⟩ := (unwrap_returns v (hmade v List.mem_cons_self)).2 hv
      exact ⟨p, his, hu, v, vs, hvalues, hp⟩

end Nodes

/-! ### Optional results -/

/-- The run returns a value, not `none`. -/
def Gives {α : Type} (x : Run (Option α)) : Prop := ∃ a, x = .ok (some a)

section Gives

variable {α β : Type} {P R : Prop}

theorem gives_some (a : α) : Gives (pure (some a)) := ⟨a, rfl⟩

theorem not_gives_none : ¬ Gives (pure none : Run (Option α)) := by
  rintro ⟨a, ha⟩
  cases ha

theorem gives_map {x : Run α} : Gives (some <$> x) ↔ Returns x := by
  cases x with
  | error e => exact iff_of_false (fun ⟨_, h⟩ => by cases h) (not_returns_error e)
  | ok a => exact iff_of_true ⟨a, rfl⟩ (returns_ok a)

/-- A field whose unwrap function may fault. -/
theorem gives_field {x : Run α} {f : α → Run (Option β)} (hx : Returns x ↔ R)
    (h : ∀ a, x = .ok a → (Gives (f a) ↔ P)) : Gives (x >>= f) ↔ R ∧ P := by
  rw [← hx]
  cases x with
  | error e => exact iff_of_false (fun ⟨_, h⟩ => by cases h) fun hx => not_returns_error e hx.1
  | ok a => exact (h a rfl).trans (and_iff_right (returns_ok a)).symm

/-- A field that is always read. -/
theorem gives_skip {x : Run α} {f : α → Run (Option β)} (hx : Returns x)
    (h : ∀ a, x = .ok a → (Gives (f a) ↔ P)) : Gives (x >>= f) ↔ P :=
  (gives_field (iff_true_intro hx) h).trans (iff_of_eq (true_and P))

/-- A field without which the code returns early. -/
theorem gives_nested {x : Run (Option α)} {f : Option α → Run (Option β)} (hx : Gives x ↔ R)
    (h : ∀ a, x = .ok (some a) → (Gives (f (some a)) ↔ P))
    (hnone : ¬ Gives (f none) := by exact not_gives_none) : Gives (x >>= f) ↔ R ∧ P := by
  rw [← hx]
  cases x with
  | error e => exact iff_of_false (fun ⟨_, h⟩ => by cases h) fun ⟨⟨_, h⟩, _⟩ => by cases h
  | ok r =>
    cases r with
    | none => exact iff_of_false hnone fun ⟨⟨_, h⟩, _⟩ => by cases h
    | some a => exact (h a rfl).trans (and_iff_right ⟨a, rfl⟩).symm

/-- The last field of a packet. -/
theorem gives_last {x : Run α} {f : α → Run (Option β)} (hx : Returns x ↔ R)
    (h : ∀ a, Gives (f a)) : Gives (x >>= f) ↔ R :=
  (gives_field hx fun a _ => iff_true_intro (h a)).trans (iff_of_eq (and_true R))

/-- The code returns early when `b` holds. -/
theorem unless_eq_ok {b : Run Bool} {x : Run (Option α)} {a : α}
    (h : (do if ← b then pure none else x) = .ok (some a)) : b = .ok false ∧ x = .ok (some a) := by
  obtain ⟨v, hv, h⟩ := bind_eq_ok.1 h
  cases v with
  | true => cases h
  | false => exact ⟨hv, h⟩

/-- The code returns early for some numbers of arguments. -/
theorem counted_eq_ok {list : TlvAmqp} {Q : Int → Prop} [DecidablePred Q]
    {x : Int → Run (Option α)} {a : α}
    (h : (do
      let count ← list.count.deref
      if Q count then pure none else x count) = .ok (some a)) :
    ∃ n, list.count = .ref n ∧ ¬ Q n ∧ x n = .ok (some a) := by
  obtain ⟨n, hn, h⟩ := bind_eq_ok.1 h
  have hn := Ptr.deref_eq_ok.1 hn
  by_cases hq : Q n
  · rw [if_pos hq] at h
    cases h
  · rw [if_neg hq] at h
    exact ⟨n, hn, hq, h⟩

theorem nested_eq_ok {x : Run (Option α)} {f : Option α → Run (Option β)} {b : β}
    (h : x >>= f = .ok (some b)) (hnone : f none = pure none := by rfl) :
    ∃ a, x = .ok (some a) ∧ f (some a) = .ok (some b) := by
  obtain ⟨r, hr, h⟩ := bind_eq_ok.1 h
  cases r with
  | none =>
    rw [hnone] at h
    cases h
  | some a => exact ⟨a, hr, h⟩

end Gives

/-! ### Fields -/

section Fields

variable {α : Type} {list : TlvAmqp} {args : List TlvAmqp} {k : Nat}

theorem optional_string (h : Made list) (ha : Announces list args) :
    Returns (optional list k unwrapString) ↔ OptionalFits args k (¬ ·.Is [.string32]) :=
  optional_returns ha h fun _ => unwrapString_returns

theorem optional_arrayHead (h : Made list) (ha : Announces list args) :
    Returns (optional list k unwrapArrayHead) ↔ OptionalFits args k HeadUnwraps :=
  optional_returns ha h fun _ => unwrapArrayHead_returns

theorem optional_array (h : Made list) (ha : Announces list args) :
    Returns (optional list k unwrapArray) ↔
      OptionalFits args k fun e => e.Is arrayTypes → Unwraps e :=
  optional_returns ha h fun _ => unwrapArray_returns

theorem optional_uintCopy {β : Type} {f : Int → β} (h : Made list) (ha : Announces list args) :
    Returns (optional list k (copied f unwrapUint)) ↔ OptionalFits args k (·.Is uintTypes) :=
  optional_returns ha h fun _ he => copied_returns.trans (unwrapUint_deref he)

theorem optional_ubyteCopy {β : Type} {f : Int → β} (h : Made list) (ha : Announces list args) :
    Returns (optional list k (copied f unwrapUbyte)) ↔ OptionalFits args k (·.Is [.ubyte]) :=
  optional_returns ha h fun _ he => copied_returns.trans (unwrapUbyte_deref he)

theorem optional_state (h : Made list) (ha : Announces list args) :
    Returns (optional list k unwrapState) ↔ OptionalFits args k fun e => ∃ code, e.Described code :=
  optional_returns ha h fun _ _ => unwrapState_returns

theorem optional_symbolChars (h : Made list) (ha : Announces list args) :
    Returns (optional list k (unwrapSymbolChars : TlvAmqp → Run (Ptr (EnumOrChars α)))) ↔
      OptionalFits args k (·.Is [.symbol8]) := by
  refine optional_returns ha h fun e he => ?_
  rw [← unwrapSymbol_deref he]
  unfold unwrapSymbolChars
  cases unwrapSymbol e with
  | error e => exact iff_of_false (not_returns_error e) (not_returns_error e)
  | ok symbol => exact returns_bind_ok fun _ => returns_ok _

theorem optional_uint (h : Made list) (ha : Announces list args) :
    Returns (optional list k unwrapUint) :=
  optional_always ha h fun _ => unwrapUint_returns

theorem optional_ushort (h : Made list) (ha : Announces list args) :
    Returns (optional list k unwrapUshort) :=
  optional_always ha h fun _ => unwrapUshort_returns

theorem optional_bool (h : Made list) (ha : Announces list args) :
    Returns (optional list k unwrapBool) :=
  optional_always ha h fun _ => unwrapBool_returns

theorem optional_binary (h : Made list) (ha : Announces list args) :
    Returns (optional list k unwrapBinary) :=
  optional_always ha h fun _ => unwrapBinary_returns

theorem optional_nothing (h : Made list) (ha : Announces list args) :
    Returns (optional list k (unwrapNothing : TlvAmqp → Run (Ptr α))) :=
  optional_always ha h fun _ => unwrapNothing_returns

theorem required_uint (h : Made list) (ha : Announces list args) :
    Returns (required list k unwrapUint) :=
  required_always ha fun e he => unwrapUint_returns (ha.made h e he)

end Fields

end IotClient.Amqp
