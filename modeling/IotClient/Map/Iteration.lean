import IotClient.Map.Calls

/-!
# Iterating over a map (`map_iter_`, `map_next_`)

The iterator holds the chain from its node on, which is the map's own as long as the map does not
change. `rest` lists the nodes it has still to come to: each `map_next_` moves to the first of them
(`mapNext_cases`). So a loop over the map runs its body on every key, once, and ends
(`whileNext_eq`), and a search through the keys finds what a lookup finds (`scan_eq`).
-/

namespace IotClient.Map

open Mem Machine MapBase

/-- `map_iter_t` -/
structure MapIter (ν : Type) where
  /-- the bucket behind `bucketidx` -/
  next : Nat
  /-- the chain from the node on -/
  node : List (MapNode ν)

variable {ν σ : Type}

/-- The iterator of `map_iter_`, whose `++bucketidx` is 0. -/
def mapIter : MapIter ν := ⟨0, []⟩

/-- The label `nextBucket` of `map_next_`, with the buckets from `i` on. -/
def nextBucket : List (List (MapNode ν)) → Nat → Option CString × MapIter ν
  | [], i => (none, ⟨i + 1, []⟩)
  | [] :: bs, i => nextBucket bs (i + 1)
  | (node :: chain) :: _, i => (some node.key, ⟨i + 1, node :: chain⟩)

namespace MapBase

variable (m : MapBase ν)

def mapNext (iter : MapIter ν) : Option CString × MapIter ν :=
  match iter.node with
  | _ :: node :: chain => (some node.key, { iter with node := node :: chain })
  | _ => nextBucket (m.buckets.drop iter.next) iter.next

/-- `while ((key = map_next(m, &iter)))`, with a bound on its rounds. -/
def whileNext (body : CString → σ → Run (ForInStep σ)) : Nat → MapIter ν → σ → Run σ
  | 0, _, _ => .error .fuel
  | fuel + 1, iter, s =>
    match m.mapNext iter with
    | (none, _) => pure s
    | (some key, iter) => do
      match ← body key s with
      | .done s => pure s
      | .yield s => whileNext body fuel iter s

/-- `*map_get(m, key)` -/
def derefGet (key : CString) : Run ν :=
  match m.mapGet key with
  | some value => .ok value
  | none => .error .nullDeref

/-- The loop over the whole map. -/
def forKeys (body : CString → σ → Run (ForInStep σ)) (s : σ) : Run σ :=
  m.whileNext body (m.nnodes + 1) mapIter s

/-- The search of the timers' `get` functions, which compare every key with `str`. -/
def scan (str : CString) : Run (Option ν) :=
  m.forKeys (fun key _ => do
    let value ← m.derefGet key
    if key = str then pure (.done (some value)) else pure (.yield none)) none

end MapBase

/-! ### What the iterator comes to -/

/-- The nodes behind the iterator's. -/
def MapIter.rest (m : MapBase ν) (iter : MapIter ν) : List (MapNode ν) :=
  iter.node.tail ++ (m.buckets.drop iter.next).flatten

variable {m : MapBase ν} {iter : MapIter ν} {node : MapNode ν} {ns : List (MapNode ν)}

theorem rest_mapIter : mapIter.rest m = m.nodes := rfl

theorem nextBucket_nil {bs : List (List (MapNode ν))} {i : Nat} (h : bs.flatten = []) :
    (nextBucket bs i).1 = none := by
  induction bs generalizing i with
  | nil => rfl
  | cons chain bs ih =>
    rw [List.flatten_cons, List.append_eq_nil_iff] at h
    obtain ⟨rfl, h⟩ := h
    exact ih h

theorem nextBucket_cons {bs : List (List (MapNode ν))} {i : Nat} (hbs : m.buckets.drop i = bs)
    (h : bs.flatten = node :: ns) :
    ∃ iter, nextBucket bs i = (some node.key, iter) ∧ iter.rest m = ns := by
  induction bs generalizing i with
  | nil => cases h
  | cons chain bs ih =>
    have hdrop : m.buckets.drop (i + 1) = bs := by
      rw [← List.drop_drop, hbs]
      rfl
    cases chain with
    | nil => exact ih hdrop h
    | cons first chain =>
      rw [List.flatten_cons, List.cons_append, List.cons.injEq] at h
      obtain ⟨rfl, rfl⟩ := h
      refine ⟨⟨i + 1, first :: chain⟩, rfl, ?_⟩
      unfold MapIter.rest
      rw [hdrop]
      rfl

/-- `map_next_` returns `NULL` at the end, and else comes to the first node of the rest. -/
theorem mapNext_cases (m : MapBase ν) (iter : MapIter ν) :
    (iter.rest m = [] ∧ (m.mapNext iter).1 = none) ∨
    ∃ node next, m.mapNext iter = (some node.key, next) ∧ iter.rest m = node :: next.rest m := by
  have hbucket (htail : iter.node.tail = [])
      (heq : m.mapNext iter = nextBucket (m.buckets.drop iter.next) iter.next) :
      (iter.rest m = [] ∧ (m.mapNext iter).1 = none) ∨
      ∃ node next, m.mapNext iter = (some node.key, next) ∧ iter.rest m = node :: next.rest m := by
    rw [heq, MapIter.rest, htail, List.nil_append]
    cases hflat : (m.buckets.drop iter.next).flatten with
    | nil => exact .inl ⟨rfl, nextBucket_nil hflat⟩
    | cons node ns =>
      obtain ⟨next, hnext, hrest⟩ := nextBucket_cons rfl hflat
      exact .inr ⟨node, next, hnext, by rw [hrest]⟩
  obtain ⟨next, chain⟩ := iter
  rcases chain with - | ⟨first, - | ⟨node, chain⟩⟩
  · exact hbucket rfl rfl
  · exact hbucket rfl rfl
  · exact .inr ⟨node, ⟨next, node :: chain⟩, rfl, rfl⟩

/-! ### Loops over a map -/

/-- With a round for every node and one for the end, the loop is one over the keys. -/
theorem whileNext_eq (body : CString → σ → Run (ForInStep σ)) : ∀ {fuel : Nat} {iter : MapIter ν}
    {s : σ}, (iter.rest m).length < fuel →
      m.whileNext body fuel iter s = forIn ((iter.rest m).map MapNode.key) s body := by
  intro fuel
  induction fuel with
  | zero => exact fun h => absurd h (Nat.not_lt_zero _)
  | succ fuel ih =>
    intro iter s hfuel
    rw [whileNext]
    rcases mapNext_cases m iter with ⟨hrest, hnone⟩ | ⟨node, next, hnext, hrest⟩
    · rw [hrest]
      generalize m.mapNext iter = next at hnone ⊢
      obtain ⟨key, next⟩ := next
      obtain rfl : key = none := hnone
      rfl
    · rw [hrest, List.length_cons] at hfuel
      rw [hnext, hrest, List.map_cons, List.forIn_cons]
      refine congrArg (body node.key s >>= ·) ?_
      funext r
      cases r with
      | done s => rfl
      | yield s => exact ih (by omega)

theorem forKeys_eq (hm : m.WellFormed) (body : CString → σ → Run (ForInStep σ)) (s : σ) :
    m.forKeys body s = forIn (m.nodes.map MapNode.key) s body := by
  refine whileNext_eq body ?_
  rw [rest_mapIter, hm.nnodes]
  exact Nat.lt_succ_self _

/-- The keys a loop comes to are those that a lookup finds, each once. -/
theorem enumerates_keys (hm : m.WellFormed) :
    Table.Enumerates (m.nodes.map MapNode.key) m.mapGet := by
  rw [mapGet_eq hm]
  exact Table.enumerates_ofEntries hm.distinct

theorem derefGet_ok {key : CString} {value : ν} (h : m.mapGet key = some value) :
    m.derefGet key = .ok value := by
  unfold derefGet
  rw [h]

/-- A search through keys that are all in the map. -/
theorem scanKeys_eq (str : CString) (keys : List CString)
    (hkeys : ∀ key ∈ keys, m.mapGet key ≠ none) :
    (forIn keys (none : Option ν) fun key _ => do
      let value ← m.derefGet key
      if key = str then pure (.done (some value)) else pure (.yield none)) =
      (.ok (if str ∈ keys then m.mapGet str else none) : Run (Option ν)) := by
  induction keys with
  | nil => rfl
  | cons key keys ih =>
    obtain ⟨value, hvalue⟩ := Option.ne_none_iff_exists'.1 (hkeys key List.mem_cons_self)
    rw [List.forIn_cons, derefGet_ok hvalue, ok_bind]
    by_cases hstr : key = str
    · rw [if_pos hstr, ← hstr, if_pos List.mem_cons_self, hvalue]
      rfl
    · have hne : str ≠ key := fun h => hstr h.symm
      rw [if_neg hstr]
      simp only [List.mem_cons, hne, false_or]
      exact ih fun key hkey => hkeys key (List.mem_cons_of_mem _ hkey)

/-- A search finds what a lookup finds. -/
theorem scan_eq (hm : m.WellFormed) (str : CString) : m.scan str = .ok (m.mapGet str) := by
  have hkeys := enumerates_keys hm
  unfold scan
  rw [forKeys_eq hm, scanKeys_eq str _ fun key hkey => (hkeys.mem_iff key).1 hkey]
  by_cases hmem : str ∈ m.nodes.map MapNode.key
  · rw [if_pos hmem]
  · rw [if_neg hmem]
    refine congrArg Except.ok ?_
    by_contra hne
    exact hmem ((hkeys.mem_iff str).2 fun h => hne h.symm)

/-- After any calls a loop over the map comes to each key that a lookup finds, once, and ends
behind the last. -/
theorem calls_visited (calls : List (MapCall ν)) :
    ∃ (s : Store ν) (keys : List CString), run step .init calls = .ok s ∧ keys.Nodup ∧
      keys.length = s.map.nnodes ∧
      (∀ key, key ∈ keys ↔ s.map.mapGet key ≠ none) ∧
      ∀ (σ : Type) (body : CString → σ → Run (ForInStep σ)) (u : σ),
        s.map.forKeys body u = forIn keys u body := by
  obtain ⟨s, hrun, hs⟩ := run_sound calls Store.sound_init
  have hkeys := enumerates_keys hs.map
  refine ⟨s, _, hrun, hkeys.nodup, ?_, hkeys.mem_iff, fun σ body u => forKeys_eq hs.map body u⟩
  rw [List.length_map, hs.map.nnodes]

end IotClient.Map
