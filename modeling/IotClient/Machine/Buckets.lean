import Mathlib.Data.List.Nodup

/-!
# Entries in buckets

A hash table spreads its entries over buckets. A change of one bucket is a change at one place of
the list of all entries, `bs.flatten`: the `split` lemmas name what is before the place and what is
behind it. `Placed place bs` says that each entry is in the bucket that `place` gives it.
-/

namespace IotClient.Machine.Buckets

variable {α : Type} {bs : List (List α)} {i j : Nat} {chain : List α} {e : α}

theorem split_bucket (h : bs[i]? = some chain) : ∃ pre post,
    bs.flatten = pre ++ (chain ++ post) ∧
      ∀ f : List α → List α, (bs.modify i f).flatten = pre ++ (f chain ++ post) := by
  induction bs generalizing i with
  | nil => cases h
  | cons b bs ih =>
    cases i with
    | zero =>
      cases h
      exact ⟨[], bs.flatten, rfl, fun f => rfl⟩
    | succ i =>
      obtain ⟨pre, post, hflat, hmodify⟩ := ih (i := i) h
      refine ⟨b ++ pre, post, ?_, fun f => ?_⟩
      · rw [List.flatten_cons, hflat, List.append_assoc]
      · rw [List.modify_succ_cons, List.flatten_cons, hmodify, List.append_assoc]

/-- The place in front of a bucket. -/
theorem split_front (h : i < bs.length) : ∃ pre post,
    bs.flatten = pre ++ post ∧ ∀ e, (bs.modify i (e :: ·)).flatten = pre ++ e :: post := by
  obtain ⟨pre, post, hflat, hmodify⟩ := split_bucket (List.getElem?_eq_getElem h)
  exact ⟨pre, _, hflat, fun e => hmodify (e :: ·)⟩

/-- The place of an entry. -/
theorem split_entry (h : bs[i]? = some chain) (he : chain[j]? = some e) : ∃ pre post,
    bs.flatten = pre ++ e :: post ∧
      (∀ f, (bs.modify i (·.modify j f)).flatten = pre ++ f e :: post) ∧
      (bs.modify i (·.eraseIdx j)).flatten = pre ++ post := by
  obtain ⟨pre, post, hflat, hmodify⟩ := split_bucket h
  obtain ⟨hj, rfl⟩ := List.getElem?_eq_some_iff.1 he
  have hchain : chain = chain.take j ++ chain[j] :: chain.drop (j + 1) := by
    rw [← List.drop_eq_getElem_cons hj, List.take_append_drop]
  refine ⟨pre ++ chain.take j, chain.drop (j + 1) ++ post, ?_, fun f => ?_, ?_⟩
  · rw [hflat]
    nth_rewrite 1 [hchain]
    simp only [List.append_assoc, List.cons_append]
  · rw [hmodify, List.modify_eq_take_cons_drop hj]
    simp only [List.append_assoc, List.cons_append]
  · rw [hmodify, List.eraseIdx_eq_take_drop_succ]
    simp only [List.append_assoc]

/-! ### Entries in their buckets -/

def Placed (place : α → Nat) (bs : List (List α)) : Prop :=
  ∀ i chain, bs[i]? = some chain → ∀ e ∈ chain, place e = i

variable {place : α → Nat}

theorem placed_replicate (n : Nat) : Placed place (List.replicate n []) := by
  intro i chain h e he
  rw [List.eq_of_mem_replicate (List.mem_of_getElem? h)] at he
  cases he

theorem Placed.modify (h : Placed place bs) {f : List α → List α}
    (hf : ∀ chain, bs[i]? = some chain → ∀ e ∈ f chain, place e = i) :
    Placed place (bs.modify i f) := by
  intro k chain hk e he
  rw [List.getElem?_modify, Option.map_eq_map, Option.map_eq_some_iff] at hk
  obtain ⟨old, hold, rfl⟩ := hk
  by_cases hki : i = k
  · subst hki
    rw [if_pos rfl] at he
    exact hf old hold e he
  · rw [if_neg hki] at he
    exact h k old hold e he

/-- An entry is found by looking at the bucket of its place only. -/
theorem Placed.mem_bucket (h : Placed place bs) (he : e ∈ bs.flatten) :
    ∃ chain, bs[place e]? = some chain ∧ e ∈ chain := by
  obtain ⟨chain, hchain, hmem⟩ := List.mem_flatten.1 he
  obtain ⟨k, hk⟩ := List.mem_iff_getElem?.1 hchain
  rw [h k chain hk e hmem]
  exact ⟨chain, hk, hmem⟩

end IotClient.Machine.Buckets
