import Mathlib.Data.List.Nodup
import IotClient.Machine.Table

/-!
# Tables as lists of entries

`Table.ofEntries key value es` is the table in which the key of each entry of `es` has the value of
the entry. When no two entries have the same key the order of the list does not matter, and
`Enumerates ks t` says of a list of keys that it is such an order of the keys of `t`.
-/

namespace IotClient.Machine

namespace Table

section Update

variable {κ ν : Type} [DecidableEq κ] {t : Table κ ν} {k : κ} {v w : ν}

theorem set_set : (t.set k v).set k w = t.set k w := Function.update_idem ..

theorem erase_set (h : t k = none) : (t.set k v).erase k = t := by
  unfold erase set
  rw [Function.update_idem, ← h, Function.update_eq_self]

end Update

variable {α κ ν : Type} [DecidableEq κ] (key : α → κ) (value : α → ν)

def ofEntries (es : List α) : Table κ ν := fun k => (es.find? fun e => key e = k).map value

variable {key value} {es fs : List α} {e : α} {k : κ} {v : ν}

theorem ofEntries_cons :
    ofEntries key value (e :: es) = (ofEntries key value es).set (key e) (value e) := by
  funext k
  rw [set_apply, ofEntries, List.find?_cons]
  by_cases h : key e = k
  · simp [h]
  · simp [h, Ne.symm h, ofEntries]

theorem ofEntries_eq_none : ofEntries key value es k = none ↔ ∀ e ∈ es, key e ≠ k := by
  simp [ofEntries]

/-- With distinct keys an entry is found whatever its place. -/
theorem ofEntries_eq_some (h : (es.map key).Nodup) :
    ofEntries key value es k = some v ↔ ∃ e ∈ es, key e = k ∧ value e = v := by
  induction es with
  | nil => simp [ofEntries]
  | cons e es ih =>
    rw [List.map_cons, List.nodup_cons] at h
    rw [ofEntries_cons, set_apply]
    simp only [List.exists_mem_cons_iff]
    by_cases hk : k = key e
    · subst hk
      rw [if_pos rfl]
      constructor
      · intro hv
        exact .inl ⟨rfl, Option.some.inj hv⟩
      · rintro (⟨-, rfl⟩ | ⟨f, hf, hkey, -⟩)
        · rfl
        · exact absurd (List.mem_map.2 ⟨f, hf, hkey⟩) h.1
    · rw [if_neg hk, ih h.2]
      constructor
      · exact .inr
      · rintro (⟨hkey, -⟩ | h)
        · exact absurd hkey.symm hk
        · exact h

theorem ofEntries_perm (hp : es.Perm fs) (h : (es.map key).Nodup) :
    ofEntries key value es = ofEntries key value fs := by
  have hf : (fs.map key).Nodup := (hp.map key).nodup_iff.1 h
  funext k
  apply Option.ext
  intro v
  show ofEntries key value es k = some v ↔ ofEntries key value fs k = some v
  rw [ofEntries_eq_some h, ofEntries_eq_some hf]
  simp only [hp.mem_iff]

/-- An entry leaves the table. -/
theorem ofEntries_erase (h : ((e :: es).map key).Nodup) :
    ofEntries key value es = (ofEntries key value (e :: es)).erase (key e) := by
  rw [List.map_cons, List.nodup_cons] at h
  rw [ofEntries_cons, erase_set]
  rw [ofEntries_eq_none]
  intro f hf hkey
  exact h.1 (List.mem_map.2 ⟨f, hf, hkey⟩)

/-! ### Orders of the keys -/

/-- The keys of the table, each once. -/
structure Enumerates (ks : List κ) (t : Table κ ν) : Prop where
  nodup : ks.Nodup
  mem_iff : ∀ k, k ∈ ks ↔ t k ≠ none

theorem enumerates_ofEntries (h : (es.map key).Nodup) :
    Enumerates (es.map key) (ofEntries key value es) := by
  refine ⟨h, fun k => ?_⟩
  rw [Ne, ofEntries_eq_none, List.mem_map]
  constructor
  · rintro ⟨e, he, hkey⟩ hall
    exact hall e he hkey
  · intro hne
    by_contra hnone
    exact hne fun e he hkey => hnone ⟨e, he, hkey⟩

omit [DecidableEq κ] in
/-- The values in an order of the keys, when no two keys have the same value. -/
theorem Enumerates.nodup_values {ks : List κ} {t : Table κ ν} (h : Enumerates ks t)
    (hinj : ∀ k l v, t k = some v → t l = some v → k = l) : (ks.filterMap t).Nodup :=
  h.nodup.filterMap fun k l v hk hl => hinj k l v hk hl

end Table

end IotClient.Machine
