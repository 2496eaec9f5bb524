import IotClient.Amqp.Accepted
import IotClient.Amqp.Unwrapper

/-!
# What the unwrap functions need of a node

`Made` is what `get_element` makes, with any constructor, and `Shape` what it sets of a node of
each type. An unwrap function follows what it finds, so it returns unless a field it reads was not
set: the length of a string or symbol with a 32-bit length, that of a `LONG` or `ULONG`. A `FLOAT`
or `DOUBLE` is read through a wild pointer.
-/

namespace IotClient.Amqp

open Mem

/-- The code of the node is that of one of the types. -/
def TlvAmqp.Is (tlv : TlvAmqp) (types : List AmqpType) : Prop :=
  ∃ t ∈ types, tlv.code = .is t.toByte

/-- A node that was read, with any constructor. -/
def Made (tlv : TlvAmqp) : Prop :=
  ∃ code out body, Body code out body ∧ tlv = { body with constructor := tlv.constructor }

theorem Node.made {out : List UInt8} {tlv : TlvAmqp} (h : Node out tlv) : Made tlv := by
  cases h with
  | mk head body => exact ⟨_, _, _, body, rfl⟩

theorem Body.made {code : UInt8} {out : List UInt8} {tlv : TlvAmqp} (h : Body code out tlv) :
    Made tlv :=
  ⟨code, out, tlv, h, by cases tlv; rfl⟩

theorem Nodes.made {out : List UInt8} {values : List TlvAmqp} (h : Nodes out values) :
    ∀ v ∈ values, Made v := by
  induction values generalizing out with
  | nil => intro v hv; cases hv
  | cons x xs ih =>
    cases h with
    | cons head tail => exact List.forall_mem_cons.2 ⟨head.made, ih tail⟩

theorem Bodies.made {code : UInt8} {out : List UInt8} {values : List TlvAmqp}
    (h : Bodies code out values) : ∀ v ∈ values, Made v := by
  induction values generalizing out with
  | nil => intro v hv; cases hv
  | cons x xs ih =>
    cases h with
    | cons head tail => exact List.forall_mem_cons.2 ⟨head.made, ih tail⟩

/-- What is set of a node of the type. -/
def Shape (tlv : TlvAmqp) : AmqpType → Prop
  | .list0 => tlv.list = .null ∧ tlv.count = .ref 0
  | .list8 => ∃ values, tlv.list = .ref values ∧ tlv.count = .ref values.length ∧
      ∀ v ∈ values, Made v
  | .list32 | .map8 | .map32 => tlv.list = .indet ∧ ∃ n, tlv.count = .ref n
  | .array8 | .array32 => ∃ n values, tlv.list = .ref values ∧ tlv.count = .ref n ∧
      values.length = n.toNat ∧ ∀ v ∈ values, Made v
  | .binary8 | .string8 | .symbol8 => tlv.count = .indet ∧
      ∃ data, tlv.valueArray = .ref data ∧ tlv.length = .is data.length
  | .binary32 | .string32 | .symbol32 => tlv.count = .indet ∧
      ∃ data, tlv.valueArray = .ref data ∧ tlv.length = .indet
  | .booleanTrue | .booleanFalse | .uint0 | .ulong0 => tlv.count = .indet ∧ tlv.length = .is 0
  | .amqpNull | .source | .target | .error => tlv.count = .indet
  | t => tlv.count = .indet ∧ tlv.length = t.fixedLength ∧
      ∃ data, tlv.valueArray = .ref data ∧ t.fixedWidth = some data.length

section Made

variable {tlv : TlvAmqp} {out : List UInt8} {code : UInt8}

theorem Body.code_eq (h : Body code out tlv) : tlv.code = .is code := by
  cases h with
  | bare => rfl
  | @fixed t => cases t <;> rfl
  | sized => rfl
  | list => rfl
  | map => rfl
  | array => rfl

theorem Made.code_eq (h : Made tlv) : ∃ code, tlv.code = .is code := by
  obtain ⟨code, out, body, hbody, heq⟩ := h
  exact ⟨code, by rw [heq]; exact hbody.code_eq⟩

theorem Body.shape (h : Body code out tlv) {t : AmqpType} (ht : AmqpType.ofByte code = some t) :
    Shape tlv t := by
  cases h with
  | bare hbare =>
    have hmem := hbare t ht
    simp only [List.mem_cons, List.not_mem_nil, or_false] at hmem
    rcases hmem with rfl | rfl | rfl <;> rfl
  | @fixed t' _ hfixed =>
    rw [AmqpType.ofByte_toByte] at ht
    cases ht
    cases t <;> simp only [AmqpType.fixedWidth, Option.some.injEq, reduceCtorEq] at hfixed
    case list0 => exact ⟨rfl, rfl⟩
    case amqpNull => rfl
    case booleanTrue | booleanFalse | uint0 | ulong0 => exact ⟨rfl, rfl⟩
    all_goals exact ⟨rfl, rfl, out, rfl, congrArg some hfixed⟩
  | @sized w kind lb data hfield =>
    rw [AmqpType.ofByte_toByte] at ht
    cases ht
    cases w <;> cases kind <;> exact ⟨rfl, data, rfl, rfl⟩
  | @list w sb cb out size count values hsize hcount elems hvalues =>
    rw [AmqpType.ofByte_toByte] at ht
    cases ht
    cases w with
    | narrow =>
      cases hcount with
      | narrow n =>
        rw [Int.toNat_natCast] at hvalues
        refine ⟨values, rfl, ?_, elems.made⟩
        rw [hvalues]
        rfl
    | wide => exact ⟨rfl, count, rfl⟩
  | @map w sb cb out size count entries hsize hcount items room =>
    rw [AmqpType.ofByte_toByte] at ht
    cases ht
    cases w <;> exact ⟨rfl, count, rfl⟩
  | @array w sb cb hb out size count c values hsize hcount head elems hvalues =>
    rw [AmqpType.ofByte_toByte] at ht
    cases ht
    cases w <;> exact ⟨count, values, rfl, rfl, hvalues, elems.made⟩

/-- The constructor says nothing about the other fields. -/
theorem Shape.constructor {c : Ptr (TlvConstructor TlvAmqp)} {t : AmqpType} (h : Shape tlv t) :
    Shape { tlv with constructor := c } t := by
  cases t <;> exact h

theorem Made.shape (h : Made tlv) {t : AmqpType} (ht : tlv.code = .is t.toByte) : Shape tlv t := by
  obtain ⟨code, out, body, hbody, heq⟩ := h
  have hcode : tlv.code = .is code := by rw [heq]; exact hbody.code_eq
  obtain rfl : t.toByte = code := Cell.is.inj (ht.symm.trans hcode)
  rw [heq]
  exact (hbody.shape (AmqpType.ofByte_toByte t)).constructor

/-- A node of no type has only its code. -/
theorem Made.unknown (h : Made tlv) {code : UInt8} (hcode : tlv.code = .is code)
    (hnone : AmqpType.ofByte code = none) : tlv.count = .indet := by
  obtain ⟨code', out, body, hbody, heq⟩ := h
  have hcode' : tlv.code = .is code' := by rw [heq]; exact hbody.code_eq
  obtain rfl : code' = code := Cell.is.inj (hcode'.symm.trans hcode)
  rw [heq]
  cases hbody with
  | bare => rfl
  | _ => rw [AmqpType.ofByte_toByte] at hnone; cases hnone

/-- The node's type, if it has one. -/
theorem Made.type (h : Made tlv) : (∃ t, tlv.code = .is t.toByte ∧ Shape tlv t) ∨
    tlv.count = .indet ∧ ∃ code, tlv.code = .is code ∧ AmqpType.ofByte code = none := by
  obtain ⟨code, hcode⟩ := h.code_eq
  cases ht : AmqpType.ofByte code with
  | none => exact .inr ⟨h.unknown hcode ht, code, hcode, ht⟩
  | some t =>
    have ht' : tlv.code = .is t.toByte := by rw [AmqpType.toByte_of_ofByte ht, hcode]
    exact .inl ⟨t, ht', h.shape ht'⟩

end Made

/-! ### Unwrapping by the code -/

section Codes

variable {α : Type} {codes : List AmqpType} {value : TlvAmqp → Run α} {tlv : TlvAmqp}

theorem hasCode_eq {code : UInt8} (hcode : tlv.code = .is code) :
    tlv.hasCode codes = .ok (codes.any (·.toByte == code)) := by
  unfold TlvAmqp.hasCode
  rw [hcode]
  rfl

theorem any_iff_is {code : UInt8} (hcode : tlv.code = .is code) :
    codes.any (·.toByte == code) = true ↔ tlv.Is codes := by
  rw [List.any_eq_true]
  refine exists_congr fun t => and_congr_right fun _ => ?_
  rw [hcode, beq_iff_eq, Cell.is.injEq]
  exact eq_comm

theorem unwrapCodes_is (h : tlv.Is codes) : unwrapCodes codes value tlv = .ref <$> value tlv := by
  obtain ⟨t, ht, hcode⟩ := h
  unfold unwrapCodes
  rw [hasCode_eq hcode, ok_bind, (any_iff_is hcode).2 ⟨t, ht, hcode⟩]
  rfl

theorem unwrapCodes_not (hmade : Made tlv) (h : ¬ tlv.Is codes) :
    unwrapCodes codes value tlv = .ok .null := by
  obtain ⟨code, hcode⟩ := hmade.code_eq
  unfold unwrapCodes
  rw [hasCode_eq hcode, ok_bind, Bool.eq_false_iff.2 (mt (any_iff_is hcode).1 h)]
  rfl

theorem returns_map {β : Type} {f : α → β} {x : Run α} : Returns (f <$> x) ↔ Returns x := by
  cases x with
  | error e => exact iff_of_false (not_returns_error e) (not_returns_error e)
  | ok a => exact iff_of_true (returns_ok _) (returns_ok a)

/-- The value is read of a node with one of the codes only. -/
theorem unwrapCodes_returns (hmade : Made tlv) :
    Returns (unwrapCodes codes value tlv) ↔ (tlv.Is codes → Returns (value tlv)) := by
  by_cases h : tlv.Is codes
  · rw [unwrapCodes_is h, returns_map]
    exact ⟨fun hr _ => hr, fun hr => hr h⟩
  · rw [unwrapCodes_not hmade h]
    exact iff_of_true (returns_ok _) fun his => absurd his h

/-- The result is no `NULL`. -/
theorem unwrapCodes_deref (hmade : Made tlv) :
    Returns (do (← unwrapCodes codes value tlv).deref) ↔ tlv.Is codes ∧ Returns (value tlv) := by
  by_cases h : tlv.Is codes
  · rw [unwrapCodes_is h, and_iff_right h]
    cases value tlv with
    | error e => exact iff_of_false (not_returns_error e) (not_returns_error e)
    | ok a => exact iff_of_true (returns_ok a) (returns_ok a)
  · rw [unwrapCodes_not hmade h]
    exact iff_of_false (not_returns_error _) fun his => h his.1

end Codes

/-! ### Values -/

/-- The node is a boolean that is true. -/
def TlvAmqp.IsTrue (tlv : TlvAmqp) : Prop :=
  tlv.Is [.booleanTrue] ∨ tlv.Is [.boolean] ∧ tlv.valueArray = .ref [1]

/-- The node is a boolean that is false. -/
def TlvAmqp.IsFalse (tlv : TlvAmqp) : Prop :=
  tlv.Is [.booleanFalse] ∨ tlv.Is [.boolean] ∧ tlv.valueArray = .ref [0]

/-- The types of an `unsigned int`. -/
def uintTypes : List AmqpType := [.uint, .smallUint, .uint0]

/-- The types of an array. -/
def arrayTypes : List AmqpType := [.array8, .array32]

section Values

variable {tlv : TlvAmqp} {data : List UInt8} {t : AmqpType}

theorem is_singleton : tlv.Is [t] ↔ tlv.code = .is t.toByte := by
  simp [TlvAmqp.Is]

/-- A value of a fixed size. -/
theorem Shape.value {n : Nat} (ht : t.fixedWidth = some (n + 1)) (h : Shape tlv t) :
    tlv.length = t.fixedLength ∧ ∃ data, tlv.valueArray = .ref data ∧ data.length = n + 1 := by
  cases t <;> simp only [AmqpType.fixedWidth, Option.some.injEq, reduceCtorEq] at ht
  all_goals
    obtain ⟨-, hlength, data, hvalue, hdata⟩ := h
    exact ⟨hlength, data, hvalue, ht ▸ (Option.some.inj hdata).symm⟩

theorem firstByte_returns (h : tlv.valueArray = .ref data) (hpos : 0 < data.length) :
    Returns tlv.firstByte := by
  unfold TlvAmqp.firstByte
  rw [h]
  exact rd_returns.2 hpos

theorem Shape.firstByte {n : Nat} (ht : t.fixedWidth = some (n + 1)) (h : Shape tlv t) :
    Returns tlv.firstByte := by
  obtain ⟨-, data, hvalue, hlen⟩ := h.value ht
  exact firstByte_returns hvalue (by omega)

theorem integerValue_zero {get : List UInt8 → Run Int} (h : tlv.length = .is 0) :
    Returns (integerValue get tlv) := by
  unfold integerValue
  rw [h]
  exact returns_ok _

theorem integerValue_one {get : List UInt8 → Run Int} (h : tlv.length = .is 1)
    (hbyte : Returns tlv.firstByte) : Returns (integerValue get tlv) := by
  unfold integerValue
  rw [h, Cell.get_is, ok_bind, if_neg Int.one_ne_zero, if_pos rfl]
  exact (returns_bind_ok fun _ => returns_ok _).2 hbyte

theorem integerValue_indet {get : List UInt8 → Run Int} (h : tlv.length = .indet) :
    ¬ Returns (integerValue get tlv) := by
  unfold integerValue
  rw [h]
  exact not_returns_error _

theorem Made.uint (h : Made tlv) (his : tlv.Is uintTypes) :
    Returns (integerValue (getInt · 0) tlv) := by
  obtain ⟨t, ht, hcode⟩ := his
  have hshape := h.shape hcode
  simp only [uintTypes, List.mem_cons, List.not_mem_nil, or_false] at ht
  rcases ht with rfl | rfl | rfl
  · exact integerValue_one (hshape.value rfl).1 (hshape.firstByte rfl)
  · exact integerValue_one (hshape.value rfl).1 (hshape.firstByte rfl)
  · exact integerValue_zero hshape.2

theorem unwrapUint_returns (h : Made tlv) : Returns (unwrapUint tlv) :=
  (unwrapCodes_returns h).2 h.uint

theorem unwrapUint_deref (h : Made tlv) :
    Returns (do (← unwrapUint tlv).deref) ↔ tlv.Is uintTypes :=
  (unwrapCodes_deref h).trans (and_iff_left_of_imp h.uint)

theorem Made.ubyte (h : Made tlv) (his : tlv.Is [.ubyte]) :
    Returns (do pure ((← tlv.firstByte).toNat : Int)) :=
  (returns_bind_ok fun _ => returns_ok _).2 ((h.shape (is_singleton.1 his)).firstByte rfl)

theorem unwrapUbyte_returns (h : Made tlv) : Returns (unwrapUbyte tlv) :=
  (unwrapCodes_returns h).2 h.ubyte

theorem unwrapUbyte_deref (h : Made tlv) :
    Returns (do (← unwrapUbyte tlv).deref) ↔ tlv.Is [.ubyte] :=
  (unwrapCodes_deref h).trans (and_iff_left_of_imp h.ubyte)

theorem unwrapUshort_returns (h : Made tlv) : Returns (unwrapUshort tlv) := by
  refine (unwrapCodes_returns h).2 fun his => ?_
  obtain ⟨-, data, hvalue, hlen⟩ := (h.shape (is_singleton.1 his)).value rfl
  rw [hvalue]
  exact (returns_bind_ok fun _ => returns_ok _).2 (getShort_returns.2 (by omega))

theorem unwrapNothing_returns {α : Type} (h : Made tlv) :
    Returns (unwrapNothing tlv : Run (Ptr α)) := by
  obtain ⟨code, hcode⟩ := h.code_eq
  unfold unwrapNothing
  rw [hcode]
  exact returns_ok _

/-- A `ULONG` has no length. -/
theorem unwrapUlong_returns (h : Made tlv) : Returns (unwrapUlong tlv) ↔ ¬ tlv.Is [.ulong] := by
  refine (unwrapCodes_returns h).trans ⟨fun hr his => ?_, fun hnot his => ?_⟩
  · have hvalue := hr ⟨.ulong, by simp, is_singleton.1 his⟩
    exact integerValue_indet ((h.shape (is_singleton.1 his)).value rfl).1 hvalue
  · obtain ⟨t, ht, hcode⟩ := his
    have hshape := h.shape hcode
    simp only [List.mem_cons, List.not_mem_nil, or_false] at ht
    rcases ht with rfl | rfl | rfl
    · exact absurd (is_singleton.2 hcode) hnot
    · exact integerValue_one (hshape.value rfl).1 (hshape.firstByte rfl)
    · exact integerValue_zero hshape.2

theorem Shape.sized {w : Width} {kind : VariableKind} (h : Shape tlv (w.variableType kind)) :
    ∃ data, tlv.valueArray = .ref data ∧ tlv.length = match w with
      | .narrow => .is data.length
      | .wide => .indet := by
  cases w <;> cases kind <;>
    · obtain ⟨-, data, hvalue, hlength⟩ := h
      exact ⟨data, hvalue, hlength⟩

/-- The types of a string, symbol or binary. -/
def VariableKind.types (kind : VariableKind) : List AmqpType :=
  [Width.narrow.variableType kind, Width.wide.variableType kind]

/-- A string or symbol with a 32-bit length has no length. -/
theorem Made.text (h : Made tlv) (kind : VariableKind) (his : tlv.Is kind.types) :
    Returns (stringValue tlv) ↔ ¬ tlv.Is [Width.wide.variableType kind] := by
  obtain ⟨t, ht, hcode⟩ := his
  have hshape := h.shape hcode
  unfold stringValue
  simp only [VariableKind.types, List.mem_cons, List.not_mem_nil, or_false] at ht
  rcases ht with rfl | rfl
  · obtain ⟨data, hvalue, hlength⟩ := hshape.sized
    rw [hlength, hvalue]
    refine iff_of_true ((returns_bind_ok fun _ => returns_ok _).2
      (copyOut_returns.2 ⟨by omega, fun _ => by omega⟩)) fun hlong => ?_
    rw [is_singleton, hcode] at hlong
    cases kind <;> exact absurd hlong (by decide)
  · obtain ⟨data, -, hlength⟩ := hshape.sized
    rw [hlength]
    exact iff_of_false (not_returns_error _) fun hnot => hnot (is_singleton.2 hcode)

/-- The short form is the one that is left. -/
theorem is_short (kind : VariableKind) (h : Made tlv) :
    tlv.Is kind.types ∧ Returns (stringValue tlv) ↔ tlv.Is [Width.narrow.variableType kind] := by
  constructor
  · rintro ⟨his, hr⟩
    have hnot := (h.text kind his).1 hr
    obtain ⟨t, ht, hcode⟩ := his
    simp only [VariableKind.types, List.mem_cons, List.not_mem_nil, or_false] at ht
    rcases ht with rfl | rfl
    · exact is_singleton.2 hcode
    · exact absurd (is_singleton.2 hcode) hnot
  · intro hshort
    have hcode := is_singleton.1 hshort
    have his : tlv.Is kind.types := ⟨_, List.mem_cons_self, hcode⟩
    refine ⟨his, (h.text kind his).2 fun hlong => ?_⟩
    rw [is_singleton, hcode] at hlong
    cases kind <;> exact absurd hlong (by decide)

theorem unwrapString_returns (h : Made tlv) : Returns (unwrapString tlv) ↔ ¬ tlv.Is [.string32] := by
  refine (unwrapCodes_returns h).trans ⟨fun hr hlong => ?_, fun hnot his => ?_⟩
  · have his : tlv.Is VariableKind.string.types := ⟨.string32, by decide, is_singleton.1 hlong⟩
    exact (h.text .string his).1 (hr his) hlong
  · exact (h.text .string his).2 hnot

theorem unwrapString_deref (h : Made tlv) :
    Returns (do (← unwrapString tlv).deref) ↔ tlv.Is [.string8] :=
  (unwrapCodes_deref h).trans (is_short .string h)

theorem unwrapBinary_value (h : Made tlv) (his : tlv.Is VariableKind.binary.types) :
    ∃ data, tlv.valueArray = .ref data := by
  obtain ⟨t, ht, hcode⟩ := his
  have hshape := h.shape hcode
  simp only [VariableKind.types, List.mem_cons, List.not_mem_nil, or_false] at ht
  rcases ht with rfl | rfl <;>
    · obtain ⟨data, hvalue, -⟩ := hshape.sized
      exact ⟨data, hvalue⟩

theorem unwrapBinary_returns (h : Made tlv) : Returns (unwrapBinary tlv) := by
  refine (unwrapCodes_returns h).2 fun his => ?_
  obtain ⟨data, hvalue⟩ := unwrapBinary_value h his
  rw [hvalue]
  exact returns_ok data

theorem symbolValue_returns : Returns (do pure (⟨.ref (← stringValue tlv)⟩ : AmqpSymbol)) ↔
    Returns (stringValue tlv) :=
  returns_bind_ok fun _ => returns_ok _

theorem unwrapSymbol_deref (h : Made tlv) :
    Returns (do (← unwrapSymbol tlv).deref) ↔ tlv.Is [.symbol8] :=
  (unwrapCodes_deref h).trans
    ((and_congr_right fun _ => symbolValue_returns).trans (is_short .symbol h))

theorem is_iff_ofByte {code : UInt8} (hcode : tlv.code = .is code) :
    tlv.Is [t] ↔ AmqpType.ofByte code = some t := by
  rw [is_singleton, hcode, Cell.is.injEq]
  constructor
  · rintro rfl
    exact AmqpType.ofByte_toByte t
  · exact fun h => (AmqpType.toByte_of_ofByte h).symm

/-- A boolean is true, false or neither. -/
theorem unwrapBool_cases (h : Made tlv) :
    tlv.IsTrue ∧ ¬ tlv.IsFalse ∧ unwrapBool tlv = .ok (.ref 1) ∨
      tlv.IsFalse ∧ ¬ tlv.IsTrue ∧ unwrapBool tlv = .ok (.ref 0) ∨
      ¬ tlv.IsTrue ∧ ¬ tlv.IsFalse ∧ unwrapBool tlv = .ok .null := by
  obtain ⟨code, hcode⟩ := h.code_eq
  unfold unwrapBool TlvAmqp.IsTrue TlvAmqp.IsFalse
  rw [hcode, Cell.get_is, ok_bind, is_iff_ofByte hcode, is_iff_ofByte hcode, is_iff_ofByte hcode]
  cases ht : AmqpType.ofByte code with
  | none => simp
  | some t =>
    by_cases hbool : t = .boolean
    · subst hbool
      have hshape := h.shape ((is_singleton).1 ((is_iff_ofByte hcode).2 ht))
      obtain ⟨-, data, hvalue, hlen⟩ := hshape.value rfl
      obtain ⟨b, rfl⟩ := List.length_eq_one_iff.1 hlen
      have hbyte : tlv.firstByte = .ok b := by
        unfold TlvAmqp.firstByte
        rw [hvalue]
        rfl
      rw [hvalue]
      simp only [hbyte, ok_bind]
      by_cases h0 : b = 0
      · subst h0
        simp
      · by_cases h1 : b = 1
        · subst h1
          simp
        · simp [h0, h1]
    · cases t <;> first | exact absurd rfl hbool | simp

end Values

/-! ### Arrays -/

/-- The node is a value that `unwrap` reads, or an array of such values. -/
inductive Unwraps : TlvAmqp → Prop where
  | mk {tlv : TlvAmqp}
    (plain : ¬ tlv.Is [.string32, .symbol32, .long, .ulong, .float, .double])
    (elems : tlv.Is arrayTypes → ∀ values, tlv.list = .ref values → ∀ v ∈ values, Unwraps v) :
    Unwraps tlv

section Unwrap

variable {tlv : TlvAmqp}

theorem is_iff {code : UInt8} {types : List AmqpType} (hcode : tlv.code = .is code) :
    tlv.Is types ↔ ∃ t ∈ types, AmqpType.ofByte code = some t :=
  exists_congr fun _ => and_congr_right fun _ =>
    is_singleton.symm.trans (is_iff_ofByte hcode)

theorem getInt_returns {buf : List UInt8} {i : Nat} :
    Returns (getInt buf i) ↔ i + 3 < buf.length := by
  refine (returns_bind fun _ _ => returns_bind fun _ _ => returns_bind fun _ _ =>
    returns_bind_ok fun _ => returns_ok _).trans ?_
  rw [rd_returns, rd_returns, rd_returns, rd_returns]
  omega

theorem not_returns_getWild (array : List UInt8) : ¬ Returns (getWild array) := by
  rintro ⟨n, hn⟩
  obtain ⟨_, -, hn⟩ := bind_eq_ok.1 hn
  cases hn

theorem Shape.deref {t : AmqpType} {n : Nat} (ht : t.fixedWidth = some (n + 1))
    (h : Shape tlv t) : Returns tlv.valueArray.deref := by
  obtain ⟨-, data, hvalue, -⟩ := h.value ht
  rw [hvalue]
  exact returns_ok data

theorem unwrapByte_returns (h : Made tlv) : Returns (unwrapByte tlv) :=
  (unwrapCodes_returns h).2 fun his => (h.shape (is_singleton.1 his)).deref rfl

theorem unwrapDecimal_returns (h : Made tlv) : Returns (unwrapDecimal tlv) := by
  refine (unwrapCodes_returns h).2 fun his => ?_
  obtain ⟨t, ht, hcode⟩ := his
  have hshape := h.shape hcode
  simp only [List.mem_cons, List.not_mem_nil, or_false] at ht
  rcases ht with rfl | rfl | rfl <;> exact hshape.deref rfl

theorem unwrapChar_returns (h : Made tlv) : Returns (unwrapChar tlv) := by
  refine (unwrapCodes_returns h).2 fun his => ?_
  obtain ⟨-, data, hvalue, hlen⟩ := (h.shape (is_singleton.1 his)).value rfl
  rw [hvalue]
  exact getInt_returns.2 (by omega)

theorem unwrapShort_returns (h : Made tlv) : Returns (unwrapShort tlv) := by
  refine (unwrapCodes_returns h).2 fun his => ?_
  obtain ⟨-, data, hvalue, hlen⟩ := (h.shape (is_singleton.1 his)).value rfl
  rw [hvalue]
  exact (returns_bind_ok fun _ => returns_ok _).2 (getShort_returns.2 (by omega))

theorem unwrapInt_returns (h : Made tlv) : Returns (unwrapInt tlv) := by
  refine (unwrapCodes_returns h).2 fun his => ?_
  obtain ⟨t, ht, hcode⟩ := his
  have hshape := h.shape hcode
  simp only [List.mem_cons, List.not_mem_nil, or_false] at ht
  rcases ht with rfl | rfl <;>
    exact integerValue_one (hshape.value rfl).1 (hshape.firstByte rfl)

theorem unwrapLong_returns (h : Made tlv) : Returns (unwrapLong tlv) ↔ ¬ tlv.Is [.long] := by
  refine (unwrapCodes_returns h).trans ⟨fun hr his => ?_, fun hnot his => ?_⟩
  · have hvalue := hr ⟨.long, by simp, is_singleton.1 his⟩
    exact integerValue_indet ((h.shape (is_singleton.1 his)).value rfl).1 hvalue
  · obtain ⟨t, ht, hcode⟩ := his
    have hshape := h.shape hcode
    simp only [List.mem_cons, List.not_mem_nil, or_false] at ht
    rcases ht with rfl | rfl
    · exact absurd (is_singleton.2 hcode) hnot
    · exact integerValue_one (hshape.value rfl).1 (hshape.firstByte rfl)

/-- A `FLOAT` or `DOUBLE` is read through a wild pointer. -/
theorem unwrapWild_returns {t : AmqpType} (h : Made tlv) :
    Returns (unwrapCodes [t] (fun tlv => do getWild (← tlv.valueArray.deref)) tlv) ↔
      ¬ tlv.Is [t] := by
  refine (unwrapCodes_returns h).trans (imp_congr_right fun _ => iff_of_eq (eq_false ?_))
  rintro ⟨n, hn⟩
  obtain ⟨array, -, hn⟩ := bind_eq_ok.1 hn
  exact not_returns_getWild array ⟨n, hn⟩

theorem unwrapSymbol_returns (h : Made tlv) : Returns (unwrapSymbol tlv) ↔ ¬ tlv.Is [.symbol32] := by
  refine (unwrapCodes_returns h).trans ⟨fun hr hlong => ?_, fun hnot his => ?_⟩
  · have his : tlv.Is VariableKind.symbol.types := ⟨.symbol32, by decide, is_singleton.1 hlong⟩
    exact (h.text .symbol his).1 (symbolValue_returns.1 (hr his)) hlong
  · exact symbolValue_returns.2 ((h.text .symbol his).2 hnot)

theorem unwrapBool_returns (h : Made tlv) : Returns (unwrapBool tlv) := by
  rcases unwrapBool_cases h with ⟨-, -, heq⟩ | ⟨-, -, heq⟩ | ⟨-, -, heq⟩ <;>
    · rw [heq]
      exact returns_ok _

/-- A node that is no array. -/
theorem unwrap_value_returns (h : Made tlv) (hnot : ¬ tlv.Is arrayTypes) : Returns (unwrap tlv) ↔
    ¬ tlv.Is [.string32, .symbol32, .long, .ulong, .float, .double] := by
  obtain ⟨code, hcode⟩ := h.code_eq
  rw [is_iff hcode] at hnot ⊢
  -- the types that a function does not return for are refused by that function
  have htype (t : AmqpType) : tlv.Is [t] ↔ AmqpType.ofByte code = some t := is_iff_ofByte hcode
  obtain ⟨_⟩ := tlv
  dsimp only at hcode
  subst hcode
  unfold unwrap
  rw [Cell.get_is, ok_bind]
  cases ht : AmqpType.ofByte code with
  | none => simp
  | some t =>
    simp only [ht, Option.some.injEq] at htype ⊢
    have hgood {α : Type} {x : Run α} (hr : Returns x)
        (hmem : t ∉ [AmqpType.string32, .symbol32, .long, .ulong, .float, .double]) :
        Returns x ↔ ¬ ∃ t' ∈ [AmqpType.string32, .symbol32, .long, .ulong, .float, .double],
          t = t' := iff_of_true hr (by rintro ⟨t', ht', rfl⟩; exact hmem ht')
    have hbad {α : Type} {x : Run α} (hr : Returns x ↔ ¬ TlvAmqp.Is _ [t])
        (hmem : t ∈ [AmqpType.string32, .symbol32, .long, .ulong, .float, .double]) :
        Returns x ↔ ¬ ∃ t' ∈ [AmqpType.string32, .symbol32, .long, .ulong, .float, .double],
          t = t' := iff_of_false (fun h' => hr.1 h' ((htype t).2 rfl)) fun h' => h' ⟨t, hmem, rfl⟩
    cases t
    case array8 | array32 => exact absurd ⟨_, by decide, ht⟩ hnot
    case binary8 | binary32 =>
      exact hgood (returns_map.2 (unwrapBinary_returns h)) (by decide)
    case ubyte => exact hgood (returns_map.2 (unwrapUbyte_returns h)) (by decide)
    case boolean | booleanTrue | booleanFalse =>
      exact hgood (returns_map.2 (unwrapBool_returns h)) (by decide)
    case byte => exact hgood (returns_map.2 (unwrapByte_returns h)) (by decide)
    case char => exact hgood (returns_map.2 (unwrapChar_returns h)) (by decide)
    case int | smallInt => exact hgood (returns_map.2 (unwrapInt_returns h)) (by decide)
    case amqpShort => exact hgood (returns_map.2 (unwrapShort_returns h)) (by decide)
    case uint | smallUint | uint0 => exact hgood (returns_map.2 (unwrapUint_returns h)) (by decide)
    case ushort => exact hgood (returns_map.2 (unwrapUshort_returns h)) (by decide)
    case decimal32 | decimal64 | decimal128 =>
      exact hgood (returns_map.2 (unwrapDecimal_returns h)) (by decide)
    case list0 | list8 | list32 | map8 | map32 | uuid =>
      exact hgood (unwrapNothing_returns h) (by decide)
    case amqpNull | source | target | error => exact hgood (returns_ok _) (by decide)
    case string8 =>
      exact hgood (returns_map.2 ((unwrapString_returns h).2 (mt (htype _).1 (by decide)))) (by decide)
    case symbol8 =>
      exact hgood (returns_map.2 ((unwrapSymbol_returns h).2 (mt (htype _).1 (by decide)))) (by decide)
    case smallUlong | ulong0 =>
      exact hgood (returns_map.2 ((unwrapUlong_returns h).2 (mt (htype _).1 (by decide)))) (by decide)
    case smallLong | timestamp =>
      exact hgood (returns_map.2 ((unwrapLong_returns h).2 (mt (htype _).1 (by decide)))) (by decide)
    case string32 => exact hbad (returns_map.trans (unwrapString_returns h)) (by decide)
    case symbol32 => exact hbad (returns_map.trans (unwrapSymbol_returns h)) (by decide)
    case ulong => exact hbad (returns_map.trans (unwrapUlong_returns h)) (by decide)
    case long => exact hbad (returns_map.trans (unwrapLong_returns h)) (by decide)
    case float | double => exact hbad (returns_map.trans (unwrapWild_returns h)) (by decide)

theorem unwrapEach_returns (values : List TlvAmqp) :
    Returns (unwrapEach values values.length) ↔ ∀ v ∈ values, Returns (unwrap v) := by
  induction values with
  | nil => exact iff_of_true ⟨[], by unfold unwrapEach; rfl⟩ fun v hv => by cases hv
  | cons x xs ih =>
    rw [List.length_cons, unwrapEach, List.forall_mem_cons, ← ih]
    exact returns_bind fun _ _ => returns_bind_ok fun _ => returns_ok _

/-- The fields of an array. -/
theorem Made.array (h : Made tlv) (his : tlv.Is arrayTypes) : ∃ n values, tlv.list = .ref values ∧
    tlv.count = .ref n ∧ values.length = n.toNat ∧ ∀ v ∈ values, Made v := by
  obtain ⟨t, ht, hcode⟩ := his
  have hshape := h.shape hcode
  simp only [arrayTypes, List.mem_cons, List.not_mem_nil, or_false] at ht
  rcases ht with rfl | rfl <;> exact hshape

theorem Made.elements {values : List TlvAmqp} (h : Made tlv) (his : tlv.Is arrayTypes)
    (hlist : tlv.list = .ref values) : ∀ v ∈ values, Made v := by
  obtain ⟨n, values', hvalues, -, -, hmade⟩ := h.array his
  obtain rfl : values = values' := Ptr.ref.inj (hlist.symm.trans hvalues)
  exact hmade

/-- The rule for functions that go through arrays. -/
theorem Made.array_induction {motive : TlvAmqp → Prop}
    (h : ∀ tlv, Made tlv → (∀ values, tlv.Is arrayTypes → tlv.list = .ref values →
      ∀ v ∈ values, motive v) → motive tlv) (tlv : TlvAmqp) (hmade : Made tlv) : motive tlv :=
  h tlv hmade fun _ his hvalues v hv => array_induction h v (hmade.elements his hvalues v hv)
termination_by sizeOf tlv
decreasing_by
  have hlt := List.sizeOf_lt_of_mem hv
  obtain ⟨_⟩ := tlv
  dsimp only at hvalues
  subst hvalues
  simp only [TlvAmqp.mk.sizeOf_spec, Ptr.ref.sizeOf_spec]
  omega

theorem unwrap_array_eq (his : tlv.Is arrayTypes) :
    unwrap tlv = (do
      let values ← unwrapElements tlv.list (← tlv.count.deref)
      pure (.ref (.array values))) := by
  obtain ⟨t, ht, hcode⟩ := his
  obtain ⟨_⟩ := tlv
  dsimp only at hcode
  subst hcode
  unfold unwrap
  rw [Cell.get_is, ok_bind, AmqpType.ofByte_toByte]
  simp only [arrayTypes, List.mem_cons, List.not_mem_nil, or_false] at ht
  rcases ht with rfl | rfl <;> rfl

theorem array_plain (his : tlv.Is arrayTypes) :
    ¬ tlv.Is [.string32, .symbol32, .long, .ulong, .float, .double] := by
  obtain ⟨t, ht, hcode⟩ := his
  rintro ⟨t', ht', hcode'⟩
  have heq := Cell.is.inj (hcode.symm.trans hcode')
  simp only [arrayTypes, List.mem_cons, List.not_mem_nil, or_false] at ht ht'
  rcases ht with rfl | rfl <;> rcases ht' with rfl | rfl | rfl | rfl | rfl | rfl <;>
    exact absurd heq (by decide)

/-- An array is unwrapped with its elements. -/
theorem unwraps_array {values : List TlvAmqp} (his : tlv.Is arrayTypes)
    (hvalues : tlv.list = .ref values) : Unwraps tlv ↔ ∀ v ∈ values, Unwraps v := by
  constructor
  · intro h
    cases h with
    | mk plain elems => exact elems his values hvalues
  · intro h
    refine .mk (array_plain his) fun _ values' hvalues' => ?_
    rw [hvalues] at hvalues'
    cases hvalues'
    exact h

theorem elements_returns {n : Int} {values : List TlvAmqp} (hlen : values.length = n.toNat) :
    Returns (unwrapElements (.ref values) n) ↔ ∀ v ∈ values, Returns (unwrap v) := by
  rw [unwrapElements, ← hlen]
  exact unwrapEach_returns values

/-- By induction on the nesting of arrays. -/
theorem unwrap_returns (tlv : TlvAmqp) (h : Made tlv) : Returns (unwrap tlv) ↔ Unwraps tlv := by
  refine Made.array_induction (motive := fun tlv => Returns (unwrap tlv) ↔ Unwraps tlv)
    (fun tlv h ih => ?_) tlv h
  by_cases his : tlv.Is arrayTypes
  · obtain ⟨n, values, hvalues, hcount, hlen, -⟩ := h.array his
    rw [unwrap_array_eq his, unwraps_array his hvalues, hvalues, hcount, Ptr.deref_ref, ok_bind]
    refine (returns_bind_ok fun _ => returns_ok _).trans ((elements_returns hlen).trans ?_)
    exact forall₂_congr (ih values his hvalues)
  · rw [unwrap_value_returns h his]
    refine ⟨fun hplain => .mk hplain fun his' => absurd his' his, fun hu => ?_⟩
    cases hu with
    | mk plain _ => exact plain

theorem unwrapArray_eq {n : Int} {values : List TlvAmqp} (his : tlv.Is arrayTypes)
    (hvalues : tlv.list = .ref values) (hcount : tlv.count = .ref n) :
    unwrapArray tlv = .ref <$> unwrapElements (.ref values) n := by
  have heq : unwrapArray tlv =
      .ref <$> (do unwrapElements tlv.list (← tlv.count.deref)) := unwrapCodes_is his
  rw [heq, hvalues, hcount]
  rfl

theorem unwrapArray_returns (h : Made tlv) :
    Returns (unwrapArray tlv) ↔ (tlv.Is arrayTypes → Unwraps tlv) := by
  refine (unwrapCodes_returns h).trans (imp_congr_right fun his => ?_)
  obtain ⟨n, values, hvalues, hcount, hlen, hmade⟩ := h.array his
  rw [unwraps_array his hvalues, hvalues, hcount, Ptr.deref_ref, ok_bind]
  exact (elements_returns hlen).trans (forall₂_congr fun v hv => unwrap_returns v (hmade v hv))

theorem map_ne_symbol {α : Type} {f : α → Unwrapped} {x : Run (Ptr α)} {s : AmqpSymbol}
    (hf : ∀ a, f a ≠ .symbol s) : (·.map f) <$> x ≠ .ok (.ref (.symbol s)) := by
  intro h
  cases x with
  | error e => cases h
  | ok p =>
    cases p with
    | indet => cases h
    | null => cases h
    | ref a => exact hf a (Ptr.ref.inj (Except.ok.inj h))

/-- Only a symbol is unwrapped as one. -/
theorem unwrap_eq_symbol (h : Made tlv) :
    (∃ s, unwrap tlv = .ok (.ref (.symbol s))) ↔ tlv.Is [.symbol8] := by
  by_cases his : tlv.Is VariableKind.symbol.types
  · have hunwrap : unwrap tlv = (·.map .symbol) <$> unwrapSymbol tlv := by
      obtain ⟨t, ht, hcode⟩ := his
      obtain ⟨_⟩ := tlv
      dsimp only at hcode
      subst hcode
      unfold unwrap
      rw [Cell.get_is, ok_bind, AmqpType.ofByte_toByte]
      simp only [VariableKind.types, List.mem_cons, List.not_mem_nil, or_false] at ht
      rcases ht with rfl | rfl <;> rfl
    rw [hunwrap, ← unwrapSymbol_deref h]
    cases unwrapSymbol tlv with
    | error e => exact iff_of_false (fun ⟨_, hs⟩ => by cases hs) (not_returns_error e)
    | ok p =>
      cases p with
      | indet => exact iff_of_false (fun ⟨_, hs⟩ => by cases hs) (not_returns_error _)
      | null => exact iff_of_false (fun ⟨_, hs⟩ => by cases hs) (not_returns_error _)
      | ref s => exact iff_of_true ⟨s, rfl⟩ (returns_ok s)
  · refine iff_of_false (fun ⟨s, hs⟩ => ?_) fun hshort => his (is_short .symbol h |>.2 hshort).1
    obtain ⟨code, hcode⟩ := h.code_eq
    rw [is_iff hcode] at his
    obtain ⟨_⟩ := tlv
    dsimp only at hcode
    subst hcode
    unfold unwrap at hs
    rw [Cell.get_is, ok_bind] at hs
    cases ht : AmqpType.ofByte code with
    | none => rw [ht] at hs; cases hs
    | some t =>
      rw [ht] at hs
      cases t
      case symbol8 | symbol32 => exact his ⟨_, by decide, ht⟩
      case array8 | array32 =>
        obtain ⟨n, -, hs⟩ := bind_eq_ok.1 hs
        obtain ⟨values, -, hs⟩ := bind_eq_ok.1 hs
        cases hs
      case list0 | list8 | list32 | map8 | map32 | uuid => cases hs
      case amqpNull | source | target | error => cases hs
      all_goals exact map_ne_symbol (fun a ha => by cases ha) hs

end Unwrap

end IotClient.Amqp
