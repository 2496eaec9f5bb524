import IotClient.Amqp.Decoded
import IotClient.Mem.Junk

/-!
# Fields on two memories

What an unwrap function returns does not depend on memory, however deep the arrays (`unwrap_same`).
An optional field of a packet is the same in all memory, and `NULL` if the frame does not carry it,
exactly when the frame carries it (`optional_same`): there is no other place where it is assigned.
-/

namespace IotClient.Amqp

open Mem

/-- An argument that is there and no null. -/
def Carried (args : List TlvAmqp) (k : Nat) : Prop := ∃ e ∈ args[k]?, ¬ e.Is [.amqpNull]

/-- An optional field does not depend on memory, and is `NULL` if the frame does not carry it. -/
structure FieldSame {α : Type} (args : List TlvAmqp) (k : Nat) (P : α → Prop) (p : Ptr α) : Prop where
  sameWith : p.SameWith P
  absent : ¬ Carried args k → p = .null

/-- A value that points at nothing. -/
def Whole {α : Type} (_ : α) : Prop := True

/-! ### Values -/

/-- No pointer in the value depends on memory. -/
inductive Unwrapped.Same : Unwrapped → Prop where
  | int (value : Int) : Same (.int value)
  | bytes (value : List UInt8) : Same (.bytes value)
  | string (value : CString) : Same (.string value)
  | symbol {value : AmqpSymbol} (h : value.value.Same) : Same (.symbol value)
  | decimal (value : List UInt8) : Same (.decimal value)
  | array {values : List (Ptr Unwrapped)} (same : ∀ p ∈ values, p.Same)
      (elems : ∀ u, .ref u ∈ values → Same u) : Same (.array values)

/-- What the function returns does not depend on memory. -/
def UnwrapsSame {α : Type} (unwrap : TlvAmqp → Run (Ptr α)) (P : α → Prop) : Prop :=
  ∀ e, Made e → ∀ p, unwrap e = .ok p → p.SameWith P

section Unwrap

variable {α β : Type} {P : α → Prop} {tlv : TlvAmqp}

theorem unwrapCodes_same {codes : List AmqpType} {value : TlvAmqp → Run α}
    (h : ∀ e a, value e = .ok a → P a) : UnwrapsSame (unwrapCodes codes value) P := by
  intro e _ p hp
  obtain ⟨b, -, hp⟩ := bind_eq_ok.1 hp
  cases b with
  | false =>
    cases hp
    exact Ptr.sameWith_null
  | true =>
    rw [if_pos rfl] at hp
    cases hv : value e with
    | error f =>
      rw [hv] at hp
      cases hp
    | ok a =>
      rw [hv] at hp
      cases hp
      exact Ptr.sameWith_ref (h e a hv)

theorem unwrapCodes_whole {codes : List AmqpType} {value : TlvAmqp → Run α} :
    UnwrapsSame (unwrapCodes codes value) Whole :=
  unwrapCodes_same fun _ _ _ => trivial

theorem unwrapBool_same : UnwrapsSame unwrapBool Whole := by
  intro e _ p hp
  obtain ⟨code, -, hp⟩ := bind_eq_ok.1 hp
  split at hp
  · obtain ⟨v, -, hp⟩ := bind_eq_ok.1 hp
    split at hp
    · cases hp
      exact Ptr.sameWith_ref trivial
    split at hp
    · cases hp
      exact Ptr.sameWith_ref trivial
    · cases hp
      exact Ptr.sameWith_null
  · cases hp
    exact Ptr.sameWith_ref trivial
  · cases hp
    exact Ptr.sameWith_ref trivial
  · cases hp
    exact Ptr.sameWith_null

theorem unwrapNothing_same : UnwrapsSame (unwrapNothing (α := α)) P := by
  intro e _ p hp
  obtain ⟨code, -, hp⟩ := bind_eq_ok.1 hp
  cases hp
  exact Ptr.sameWith_null

theorem copied_same {f : α → β} {unwrap : TlvAmqp → Run (Ptr α)} {Q : β → Prop}
    (h : ∀ a, Q (f a)) : UnwrapsSame (copied f unwrap) Q := by
  intro e _ p hp
  obtain ⟨q, -, hp⟩ := bind_eq_ok.1 hp
  obtain ⟨a, -, hp⟩ := bind_eq_ok.1 hp
  cases hp
  exact Ptr.sameWith_ref (h a)

theorem unwrapState_same : UnwrapsSame unwrapState (·.code.Same) := by
  intro e _ p hp
  obtain ⟨code, -, hp⟩ := bind_eq_ok.1 hp
  cases hp
  exact Ptr.sameWith_ref (Cell.same_is code)

theorem unwrapSymbol_same : UnwrapsSame unwrapSymbol (·.value.Same) := by
  refine unwrapCodes_same fun e a ha => ?_
  obtain ⟨s, -, ha⟩ := bind_eq_ok.1 ha
  cases ha
  exact Ptr.same_ref s

/-- A value stored with its type. -/
theorem sameWith_map [Nonempty α] {f : α → Unwrapped} {x : Run (Ptr α)} {p : Ptr Unwrapped}
    (h : ∀ q, x = .ok q → q.SameWith P) (hf : ∀ a, P a → (f a).Same)
    (hp : (·.map f) <$> x = .ok p) : p.SameWith Unwrapped.Same := by
  cases x with
  | error e => cases hp
  | ok q =>
    cases hp
    have hq := h q rfl
    cases q with
    | indet => exact absurd hq.same Ptr.not_same_indet
    | null => exact Ptr.sameWith_null
    | ref a => exact Ptr.sameWith_ref (hf a (hq.target a rfl))

instance : Nonempty CString := ⟨∅⟩

instance : Nonempty AmqpSymbol := ⟨⟨.null⟩⟩

/-- A value that is no array. -/
theorem unwrap_value_same (hmade : Made tlv) (hnot : ¬ tlv.Is arrayTypes) {p : Ptr Unwrapped}
    (hp : unwrap tlv = .ok p) : p.SameWith Unwrapped.Same := by
  obtain ⟨cell⟩ := tlv
  cases cell with
  | indet => unfold unwrap at hp; cases hp
  | is code =>
    unfold unwrap at hp
    rw [Cell.get_is, ok_bind] at hp
    cases ht : AmqpType.ofByte code with
    | none =>
      rw [ht] at hp
      cases hp
      exact Ptr.sameWith_null
    | some t =>
      rw [ht] at hp
      cases t
      case array8 | array32 =>
        refine absurd ⟨_, ?_, congrArg Cell.is (AmqpType.toByte_of_ofByte ht).symm⟩ hnot
        decide
      case amqpNull | source | target | error =>
        cases hp
        exact Ptr.sameWith_null
      case list0 | list8 | list32 | map8 | map32 | uuid => exact unwrapNothing_same _ hmade _ hp
      case symbol8 | symbol32 =>
        exact sameWith_map (unwrapSymbol_same _ hmade) (fun _ => .symbol) hp
      case boolean | booleanTrue | booleanFalse =>
        exact sameWith_map (unwrapBool_same _ hmade) (fun _ _ => .int _) hp
      case binary8 | binary32 | byte =>
        exact sameWith_map (unwrapCodes_whole _ hmade) (fun _ _ => .bytes _) hp
      case string8 | string32 =>
        exact sameWith_map (unwrapCodes_whole _ hmade) (fun _ _ => .string _) hp
      case decimal32 | decimal64 | decimal128 =>
        exact sameWith_map (unwrapCodes_whole _ hmade) (fun _ _ => .decimal _) hp
      all_goals exact sameWith_map (unwrapCodes_whole _ hmade) (fun _ _ => .int _) hp

/-- The elements of an array, one after the other. -/
theorem unwrapEach_same {values : List TlvAmqp} (h : ∀ v ∈ values, ∀ p, unwrap v = .ok p →
    p.SameWith Unwrapped.Same) {n : Nat} {us : List (Ptr Unwrapped)}
    (hus : unwrapEach values n = .ok us) : ∀ u ∈ us, u.SameWith Unwrapped.Same := by
  induction n generalizing values us with
  | zero =>
    unfold unwrapEach at hus
    cases hus
    intro u hu
    cases hu
  | succ n ih =>
    cases values with
    | nil =>
      unfold unwrapEach at hus
      cases hus
    | cons v vs =>
      unfold unwrapEach at hus
      obtain ⟨u, hu, hus⟩ := bind_eq_ok.1 hus
      obtain ⟨us, hrest, hus⟩ := bind_eq_ok.1 hus
      cases hus
      rw [List.forall_mem_cons] at h ⊢
      exact ⟨h.1 u hu, ih h.2 hrest⟩

theorem Unwrapped.same_array {values : List (Ptr Unwrapped)}
    (h : ∀ p ∈ values, p.SameWith Unwrapped.Same) : (Unwrapped.array values).Same :=
  .array (fun p hp => (h p hp).same) fun u hu => (h _ hu).target u rfl

/-- By induction on the nesting of arrays. -/
theorem unwrap_same (tlv : TlvAmqp) (hmade : Made tlv) :
    ∀ p, unwrap tlv = .ok p → p.SameWith Unwrapped.Same := by
  refine Made.array_induction
    (motive := fun tlv => ∀ p, unwrap tlv = .ok p → p.SameWith Unwrapped.Same)
    (fun tlv hmade ih p hp => ?_) tlv hmade
  by_cases his : tlv.Is arrayTypes
  · obtain ⟨n, values, hvalues, hcount, -, -⟩ := hmade.array his
    rw [unwrap_array_eq his, hvalues, hcount, Ptr.deref_ref, ok_bind] at hp
    obtain ⟨us, hus, hp⟩ := bind_eq_ok.1 hp
    cases hp
    exact Ptr.sameWith_ref (Unwrapped.same_array (unwrapEach_same (ih values his hvalues) hus))
  · exact unwrap_value_same hmade his hp

theorem unwrapArrayHead_same : UnwrapsSame unwrapArrayHead Unwrapped.Same := by
  intro e hmade p hp
  obtain ⟨his, -, v, vs, hlist, hv⟩ := (unwrapArrayHead_eq_ok hmade).1 hp
  exact unwrap_same v (hmade.elements his hlist v List.mem_cons_self) p hv

/-! ### Fields -/

section Fields

variable {list : TlvAmqp} {args : List TlvAmqp} {k : Nat} {unwrap : TlvAmqp → Run (Ptr α)} {p : Ptr α}

theorem carried_some {e : TlvAmqp} (he : args[k]? = some e) :
    Carried args k ↔ ¬ e.Is [.amqpNull] :=
  mem_argument_some he

theorem not_carried_none (hnone : args[k]? = none) : ¬ Carried args k :=
  not_mem_argument_none hnone

/-- A field that stays unassigned is not the `NULL` it should be. -/
theorem fieldSame_indet : FieldSame args k P .indet ↔ Carried args k ∧ Ptr.SameWith P .indet := by
  constructor
  · intro h
    refine ⟨by_contra fun hnot => ?_, h.sameWith⟩
    cases h.absent hnot
  · exact fun h => ⟨h.2, fun hnot => absurd h.1 hnot⟩

/-- A field is assigned from an argument that is there and no null, and from no other. -/
theorem given_same {g : Ptr α → β} (hg : Function.Injective g) {x : TlvAmqp → Run β}
    (hmade : Made list) (ha : Announces list args)
    (hx : ∀ e, Made e → ∀ p, x e = .ok (g p) → p.SameWith P)
    (hp : given list k x (pure (g .indet)) (pure (g .indet)) = .ok (g p)) :
    FieldSame args k P p ↔ Carried args k := by
  rcases given_cases hmade ha x (pure (g .indet)) (pure (g .indet)) with
    ⟨hnone, heq⟩ | ⟨e, he, hmade', ⟨hnull, heq⟩ | ⟨hnull, heq⟩⟩ <;> rw [heq] at hp
  · obtain rfl := hg (Except.ok.inj hp)
    exact fieldSame_indet.trans (and_iff_left_of_imp fun h => absurd h (not_carried_none hnone))
  · obtain rfl := hg (Except.ok.inj hp)
    refine fieldSame_indet.trans (and_iff_left_of_imp fun h => ?_)
    exact absurd hnull ((carried_some he).1 h)
  · have hcarried := (carried_some he).2 hnull
    exact iff_of_true ⟨hx e hmade' p hp, fun hnot => absurd hcarried hnot⟩ hcarried

theorem optional_same (hmade : Made list) (ha : Announces list args) (hu : UnwrapsSame unwrap P)
    (hp : optional list k unwrap = .ok p) : FieldSame args k P p ↔ Carried args k :=
  given_same Function.injective_id hmade ha hu hp

/-- A required field is assigned from an argument that is there, a null or not. -/
theorem required_same [Nonempty α] (hmade : Made list) (ha : Announces list args)
    (hu : UnwrapsSame unwrap P) (hp : required list k unwrap = .ok p) :
    p.SameWith P ↔ k < args.length := by
  rcases required_cases ha unwrap with ⟨hnone, heq⟩ | ⟨e, he, heq⟩ <;> rw [heq] at hp
  · cases hp
    have hle := List.getElem?_eq_none_iff.1 hnone
    exact iff_of_false (fun h => Ptr.not_same_indet h.same) (by omega)
  · obtain ⟨hlt, -⟩ := List.getElem?_eq_some_iff.1 he
    exact iff_of_true (hu e (ha.made hmade e (List.mem_of_getElem? he)) p hp) hlt

end Fields

end Unwrap

end IotClient.Amqp
