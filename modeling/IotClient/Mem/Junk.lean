import IotClient.Mem.Run

/-!
# What unassigned fields hold

A field that was never assigned has the value its memory had before. `under junk` is a field of a
structure in memory that held `junk`. A field is `Same` when two runs on different memory agree on
it: one that was never assigned is not (`Ptr.not_same_indet`).
-/

namespace IotClient.Mem

/-- The value of a pointer that was allocated in memory holding `junk`; `none` is `NULL`. -/
def Ptr.under {α : Type} (junk : Option α) : Ptr α → Option α
  | indet => junk
  | null => none
  | ref a => some a

def Cell.under {α : Type} (junk : α) : Cell α → α
  | indet => junk
  | is a => a

/-- The pointer does not depend on what its memory held. -/
def Ptr.Same {α : Type} (p : Ptr α) : Prop := ∀ junk junk', p.under junk = p.under junk'

def Cell.Same {α : Type} (x : Cell α) : Prop := ∀ junk junk', x.under junk = x.under junk'

/-- Neither does anything it points at. -/
structure Ptr.SameWith {α : Type} (P : α → Prop) (p : Ptr α) : Prop where
  same : p.Same
  target : ∀ a, p = .ref a → P a

namespace Ptr

variable {α : Type} {P : α → Prop}

theorem same_null : (null : Ptr α).Same := fun _ _ => rfl

theorem same_ref (a : α) : (ref a).Same := fun _ _ => rfl

/-- An unassigned pointer may be `NULL` in one memory and not in another. -/
theorem not_same_indet [Nonempty α] : ¬ (indet : Ptr α).Same := by
  intro h
  obtain ⟨a⟩ := ‹Nonempty α›
  exact absurd (h none (some a)) (Option.some_ne_none a).symm

theorem sameWith_null : (null : Ptr α).SameWith P :=
  ⟨same_null, fun _ ha => by cases ha⟩

theorem sameWith_ref {a : α} (h : P a) : (ref a).SameWith P :=
  ⟨same_ref a, fun _ hb => by cases hb; exact h⟩

end Ptr

theorem Cell.same_is {α : Type} (a : α) : (is a).Same := fun _ _ => rfl

end IotClient.Mem
