import Mathlib.Data.List.Basic
import IotClient.Machine.Table

/-!
# Requests that await an answer

A client keeps each request it sent in a table, under the key that the answer will carry.
`Traffic` is what goes over its connection; `m.Holds key rs` says that the table `m` has an
entry for exactly the requests `rs`, each under its own key. The lemmas say which changes of
the table match a new request and an answered one.
-/

namespace IotClient.Machine

/-- A message sent, kept back to be sent later, or received. -/
inductive Traffic (μ : Type) where
  | sent (m : μ)
  | queued (m : μ)
  | received (m : μ)
  deriving DecidableEq

theorem mem_snoc {α : Type} {xs : List α} {x y : α} : x ∈ xs ++ [y] ↔ x ∈ xs ∨ x = y := by
  rw [List.mem_append, List.mem_singleton]

/-- Every message was sent behind a log that it is due after. -/
def Behind {μ : Type} (Due : List (Traffic μ) → μ → Prop) (wire : List (Traffic μ)) : Prop :=
  ∀ pre m post, wire = pre ++ .sent m :: post → Due pre m

section Behind

variable {μ : Type} {Due : List (Traffic μ) → μ → Prop} {wire : List (Traffic μ)} {x : Traffic μ}

theorem behind_nil : Behind Due [] := by
  intro pre m post h
  simp at h

theorem Behind.snoc (h : Behind Due wire) (hx : ∀ m, x = .sent m → Due wire m) :
    Behind Due (wire ++ [x]) := by
  intro pre m post heq
  rcases List.eq_nil_or_concat post with rfl | ⟨post, y, rfl⟩
  · obtain ⟨rfl, hsent⟩ := List.append_inj' heq rfl
    exact hx m (List.singleton_inj.1 hsent)
  · rw [List.concat_eq_append, ← List.cons_append, ← List.append_assoc] at heq
    exact h pre m post (List.append_inj' heq rfl).1

theorem Behind.sent {m : μ} (h : Behind Due wire) (hm : Due wire m) :
    Behind Due (wire ++ [.sent m]) := by
  apply h.snoc
  rintro _ ⟨⟩
  exact hm

theorem Behind.queued {m : μ} (h : Behind Due wire) : Behind Due (wire ++ [.queued m]) := by
  apply h.snoc
  rintro _ ⟨⟩

theorem Behind.received {m : μ} (h : Behind Due wire) : Behind Due (wire ++ [.received m]) := by
  apply h.snoc
  rintro _ ⟨⟩

end Behind

namespace Table

variable {κ μ : Type}

def Holds (m : Table κ μ) (key : μ → Option κ) (rs : List μ) : Prop :=
  ∀ k r, m k = some r ↔ r ∈ rs ∧ key r = some k

variable {m : Table κ μ} {key : μ → Option κ} {rs : List μ} {k : κ} {r : μ}

theorem holds_empty : (empty : Table κ μ).Holds key [] := by
  intro k r
  simp

variable [DecidableEq κ]

/-- A new request under a key no other has. -/
theorem Holds.add (h : m.Holds key rs) (hk : key r = some k)
    (hfresh : ∀ r' ∈ rs, key r' ≠ some k) : (m.set k r).Holds key (rs ++ [r]) := by
  intro l r'
  rw [set_apply, mem_snoc]
  by_cases hl : l = k
  · subst hl
    rw [if_pos rfl]
    constructor
    · rintro ⟨⟩
      exact ⟨.inr rfl, hk⟩
    · rintro ⟨hr | rfl, hk'⟩
      · exact absurd hk' (hfresh r' hr)
      · rfl
  · rw [if_neg hl, h l r']
    constructor
    · rintro ⟨hr, hk'⟩
      exact ⟨.inl hr, hk'⟩
    · rintro ⟨hr | rfl, hk'⟩
      · exact ⟨hr, hk'⟩
      · exact absurd (Option.some.inj (hk'.symm.trans hk)) hl

/-- The answered requests leave the table when they are those under one key. -/
theorem Holds.remove (h : m.Holds key rs) {answered : μ → Bool}
    (hk : ∀ r ∈ rs, answered r = true ↔ key r = some k) :
    (m.erase k).Holds key (rs.filter fun r => !answered r) := by
  intro l r
  rw [erase_apply, List.mem_filter]
  by_cases hl : l = k
  · subst hl
    rw [if_pos rfl]
    constructor
    · intro h
      cases h
    · rintro ⟨⟨hr, hna⟩, hkr⟩
      rw [(hk r hr).2 hkr] at hna
      cases hna
  · rw [if_neg hl, h l r]
    constructor
    · rintro ⟨hr, hkr⟩
      have hna : answered r = false := by
        by_contra hc
        exact hl (Option.some.inj (hkr.symm.trans ((hk r hr).1 (by simpa using hc))))
      exact ⟨⟨hr, by simp [hna]⟩, hkr⟩
    · rintro ⟨⟨hr, -⟩, hkr⟩
      exact ⟨hr, hkr⟩

omit [DecidableEq κ] in
/-- An unchanged table is right exactly when nothing was answered. -/
theorem Holds.keep_iff (h : m.Holds key rs) {answered : μ → Bool}
    (hkey : ∀ r ∈ rs, key r ≠ none) :
    m.Holds key (rs.filter fun r => !answered r) ↔ ∀ r ∈ rs, answered r = false := by
  constructor
  · intro h' r hr
    obtain ⟨k, hk⟩ := Option.ne_none_iff_exists'.1 (hkey r hr)
    have hmem := ((h' k r).1 ((h k r).2 ⟨hr, hk⟩)).1
    simpa using (List.mem_filter.1 hmem).2
  · intro hall
    have hsame : (rs.filter fun r => !answered r) = rs := by
      rw [List.filter_eq_self]
      intro r hr
      simp [hall r hr]
    rwa [hsame]

end Table

end IotClient.Machine
