import Mathlib.Logic.Function.Basic

/-!
# Finite maps

The hash maps of the clients (`map/map.c`), as what a lookup finds: `set` is `map_set`,
which replaces the entry of a key that has one, `erase` is `map_remove`.
-/

namespace IotClient.Machine

abbrev Table (κ ν : Type) := κ → Option ν

namespace Table

variable {κ ν : Type}

/-- The map of `map_init`. -/
def empty : Table κ ν := fun _ => none

@[simp] theorem empty_apply (k : κ) : (empty : Table κ ν) k = none := rfl

variable [DecidableEq κ]

def set (m : Table κ ν) (k : κ) (v : ν) : Table κ ν := Function.update m k (some v)

def erase (m : Table κ ν) (k : κ) : Table κ ν := Function.update m k none

variable (m : Table κ ν) (k l : κ) (v : ν)

theorem set_apply : m.set k v l = if l = k then some v else m l := Function.update_apply ..

theorem erase_apply : m.erase k l = if l = k then none else m l := Function.update_apply ..

@[simp] theorem set_self : m.set k v k = some v := Function.update_self ..

@[simp] theorem erase_self : m.erase k k = none := Function.update_self ..

variable {m k l v}

theorem set_of_ne (h : l ≠ k) : m.set k v l = m l := Function.update_of_ne h ..

theorem erase_of_ne (h : l ≠ k) : m.erase k l = m l := Function.update_of_ne h ..

theorem erase_of_none (h : m k = none) : m.erase k = m := by
  unfold erase
  rw [← h, Function.update_eq_self]

end Table

end IotClient.Machine
