import Mathlib.Data.List.Basic

/-!
# Runs of C code

A piece of C code is a computation in `Run`: it returns a value, or it does something the C
standard leaves undefined, which is a `Fault`. Two kinds of memory contents need a third
value besides "good" and "bad": a field of a `malloc`ed struct that was never assigned
(`Cell.indet`), and a pointer, which may also be `NULL` (`Ptr`). Reading either is a fault,
storing it somewhere is not.
-/

namespace IotClient.Mem

/-- What a run of C code can do wrong. -/
inductive Fault where
  /-- a byte is read outside its buffer -/
  | readOut
  /-- a byte is written outside its block -/
  | writeOut
  /-- `NULL` is dereferenced -/
  | nullDeref
  /-- an indeterminate value is used -/
  | indet
  /-- `memcpy` or `malloc` with a negative size -/
  | negativeSize
  /-- a stored struct is read as one of another type -/
  | badCast
  /-- the model ran out of fuel (no behaviour of the code) -/
  | fuel
  deriving DecidableEq, Repr

abbrev Run (α : Type) := Except Fault α

@[simp] theorem ok_bind {α β : Type} (a : α) (f : α → Run β) : (Except.ok a >>= f) = f a := rfl

@[simp] theorem error_bind {α β : Type} (e : Fault) (f : α → Run β) :
    ((Except.error e : Run α) >>= f) = .error e := rfl

@[simp] theorem pure_eq_ok {α : Type} (a : α) : (pure a : Run α) = .ok a := rfl

@[simp] theorem ok_map {α β : Type} (g : α → β) (a : α) :
    (g <$> (Except.ok a : Run α)) = .ok (g a) := rfl

@[simp] theorem error_map {α β : Type} (g : α → β) (e : Fault) :
    (g <$> (Except.error e : Run α)) = .error e := rfl

/-- A sequence returns when both parts do. -/
theorem bind_eq_ok {α β : Type} {x : Run α} {f : α → Run β} {b : β} :
    (x >>= f) = .ok b ↔ ∃ a, x = .ok a ∧ f a = .ok b := by
  cases x with
  | ok a => simp
  | error e => simp

/-! ### Whether a run returns -/

/-- The run returns: it does nothing undefined. -/
def Returns {α : Type} (x : Run α) : Prop := ∃ a, x = .ok a

section Returns

variable {α β : Type} {x : Run α} {P : Prop}

@[simp] theorem returns_ok (a : α) : Returns (Except.ok a : Run α) := ⟨a, rfl⟩

@[simp] theorem not_returns_error (e : Fault) : ¬ Returns (Except.error e : Run α) := by
  rintro ⟨a, ha⟩
  cases ha

/-- The second part is looked at for the values the first part returns. -/
theorem returns_bind {f : α → Run β} (h : ∀ a, x = .ok a → (Returns (f a) ↔ P)) :
    Returns (x >>= f) ↔ Returns x ∧ P := by
  cases x with
  | error e => exact ⟨fun hx => absurd hx (not_returns_error e), fun hx => absurd hx.1
      (not_returns_error e)⟩
  | ok a => exact (h a rfl).trans ⟨fun hp => ⟨returns_ok a, hp⟩, And.right⟩

/-- Nothing follows a fault. -/
theorem not_returns_bind {f : α → Run β} (h : ¬ Returns x) : ¬ Returns (x >>= f) := by
  rintro ⟨b, hb⟩
  obtain ⟨a, ha, -⟩ := bind_eq_ok.1 hb
  exact h ⟨a, ha⟩

/-- What follows always returns. -/
theorem returns_bind_ok {f : α → Run β} (h : ∀ a, Returns (f a)) :
    Returns (x >>= f) ↔ Returns x := by
  rw [returns_bind (P := True) fun a _ => iff_true_intro (h a), and_true]

end Returns

/-! ### Threads -/

/-- `pthread_cancel`, which looks into the thread behind the id. A static id is 0 until a thread was
`started`. -/
def pthreadCancel (started : Bool) : Run Unit := if started then .ok () else .error .nullDeref

theorem pthreadCancel_eq_ok {started : Bool} :
    pthreadCancel started = .ok () ↔ started = true := by
  cases started with
  | false => exact iff_of_false nofun nofun
  | true => exact iff_of_true rfl rfl

/-! ### Indeterminate fields -/

/-- The contents of a field of an allocated struct. -/
inductive Cell (α : Type) where
  | indet
  | is (a : α)
  deriving DecidableEq, Repr

def Cell.get {α : Type} : Cell α → Run α
  | indet => .error .indet
  | is a => .ok a

@[simp] theorem Cell.get_is {α : Type} (a : α) : (Cell.is a).get = .ok a := rfl

theorem Cell.get_eq_ok {α : Type} {c : Cell α} {a : α} : c.get = .ok a ↔ c = .is a := by
  cases c with
  | is b => exact ⟨fun h => congrArg _ (Except.ok.inj h), fun h => by cases h; rfl⟩
  | indet => exact iff_of_false nofun nofun

@[simp] theorem Cell.get_indet {α : Type} : (Cell.indet : Cell α).get = .error .indet := rfl

/-! ### Pointers -/

/-- A pointer, with what it points at. -/
inductive Ptr (α : Type) where
  | indet
  | null
  | ref (a : α)
  deriving DecidableEq, Repr

namespace Ptr

variable {α β : Type}

def deref : Ptr α → Run α
  | indet => .error .indet
  | null => .error .nullDeref
  | ref a => .ok a

/-- The test `p != NULL`. -/
def nonNull : Ptr α → Run Bool
  | indet => .error .indet
  | null => .ok false
  | ref _ => .ok true

def map (f : α → β) : Ptr α → Ptr β
  | indet => indet
  | null => null
  | ref a => ref (f a)

/-- The pointer of an optional field: `NULL` when it is absent. -/
def ofOption : Option α → Ptr α
  | none => null
  | some a => ref a

/-- The pointer of an optional field that was read: not assigned when it is absent. -/
def ofRead : Option α → Ptr α
  | none => indet
  | some a => ref a

/-- The pointer is `NULL`, or its value has the property. -/
def Optional (P : α → Prop) : Ptr α → Prop
  | indet => False
  | null => True
  | ref a => P a

/-- The pointer has a value, with the property. -/
def Required (P : α → Prop) : Ptr α → Prop
  | indet | null => False
  | ref a => P a

theorem Required.optional {P : α → Prop} {p : Ptr α} (h : p.Required P) : p.Optional P := by
  cases p with
  | indet => exact h
  | null => trivial
  | ref a => exact h

theorem Required.eq_ref {P : α → Prop} {p : Ptr α} (h : p.Required P) : ∃ a, p = ref a ∧ P a := by
  cases p with
  | indet => exact h.elim
  | null => exact h.elim
  | ref a => exact ⟨a, rfl, h⟩

/-- The first `n` entries of the array `p` points at, read one after the other. -/
def elems (p : Ptr (List α)) (n : Nat) : Run (List α) :=
  if n = 0 then .ok []
  else do
    let a ← p.deref
    if n ≤ a.length then .ok (a.take n) else .error .readOut

@[simp] theorem deref_ref (a : α) : (ref a).deref = .ok a := rfl

@[simp] theorem deref_null : (null : Ptr α).deref = .error .nullDeref := rfl

@[simp] theorem deref_indet : (indet : Ptr α).deref = .error .indet := rfl

theorem deref_eq_ok {p : Ptr α} {a : α} : p.deref = .ok a ↔ p = ref a := by
  cases p <;> simp

@[simp] theorem nonNull_ref (a : α) : (ref a).nonNull = .ok true := rfl

@[simp] theorem nonNull_null : (null : Ptr α).nonNull = .ok false := rfl

@[simp] theorem elems_ref (a : List α) : (ref a).elems a.length = .ok a := by
  cases a with
  | nil => rfl
  | cons x xs => simp [elems]

end Ptr

end IotClient.Mem
