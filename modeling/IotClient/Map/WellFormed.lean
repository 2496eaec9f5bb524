import Mathlib.Algebra.Group.Nat.Defs
import IotClient.Machine.Entries
import IotClient.Map.Map

/-!
# Well-formed maps

What the functions of `map/map.c` rely on: each node is in the bucket of its hash, its hash is that
of its key, keys are distinct, the nodes are counted, and there are no more of them than buckets. A
lookup in such a map finds what is in the table of its nodes (`mapGet_eq`).
-/

namespace IotClient.Map

open Mem Machine Buckets

variable {ν : Type} {m t : MapBase ν} {node : MapNode ν} {ns : List (MapNode ν)} {key : CString}
  {n : Nat}

def placeIn (nbuckets : Nat) (node : MapNode ν) : Nat := mapBucketidx nbuckets node.hash

structure MapBase.WellFormed (m : MapBase ν) : Prop where
  hashes : ∀ node ∈ m.nodes, node.hash = mapHash node.key
  placed : Placed (placeIn m.nbuckets) m.buckets
  distinct : (m.nodes.map MapNode.key).Nodup
  nnodes : m.nnodes = m.nodes.length
  load : m.nnodes ≤ m.nbuckets
  size : m.nbuckets = 0 ∨ ∃ k, m.nbuckets = 2 ^ k

namespace MapBase

/-- The table of the nodes of a map. -/
def tableOf (ns : List (MapNode ν)) : Table CString ν :=
  .ofEntries MapNode.key MapNode.value ns

theorem wellFormed_init : (init : MapBase ν).WellFormed where
  hashes := by simp [init, nodes]
  placed := placed_replicate 0
  distinct := List.nodup_nil
  nnodes := rfl
  load := Nat.le_refl 0
  size := .inl rfl

/-! ### Adding nodes -/

theorem mapBucketidx_lt {hash : UInt32} (h : 0 < n) : mapBucketidx n hash < n := by
  have hle : mapBucketidx n hash ≤ n - 1 := Nat.and_le_right
  omega

/-- The nodes `ns` were added to the buckets of `m`. -/
structure Added (m : MapBase ν) (ns : List (MapNode ν)) (t : MapBase ν) : Prop where
  nbuckets : t.nbuckets = m.nbuckets
  nnodes : t.nnodes = m.nnodes
  nodes : t.nodes.Perm (ns ++ m.nodes)
  placed : Placed (placeIn t.nbuckets) t.buckets

theorem mapAddnode_added (h : 0 < m.nbuckets) (hp : Placed (placeIn m.nbuckets) m.buckets)
    (node : MapNode ν) : ∃ t, m.mapAddnode node = .ok t ∧ Added m [node] t := by
  have hlt : mapBucketidx m.nbuckets node.hash < m.nbuckets := mapBucketidx_lt h
  refine ⟨_, if_pos hlt, ?_⟩
  have hlen : nbuckets { m with
      buckets := m.buckets.modify (mapBucketidx m.nbuckets node.hash) (node :: ·) } = m.nbuckets :=
    List.length_modify ..
  refine ⟨hlen, rfl, ?_, ?_⟩
  · obtain ⟨pre, post, hflat, hfront⟩ := split_front hlt
    show (List.flatten _).Perm (node :: m.buckets.flatten)
    rw [hfront, hflat]
    exact List.perm_middle
  · rw [hlen]
    refine hp.modify fun chain hchain e he => ?_
    rcases List.mem_cons.1 he with rfl | he
    · rfl
    · exact hp _ chain hchain e he

theorem addNodes_added (ns : List (MapNode ν)) : ∀ {m : MapBase ν}, 0 < m.nbuckets →
    Placed (placeIn m.nbuckets) m.buckets → ∃ t, ns.foldlM mapAddnode m = .ok t ∧ Added m ns t := by
  induction ns with
  | nil => exact fun _ hp => ⟨_, rfl, rfl, rfl, List.Perm.refl _, hp⟩
  | cons node ns ih =>
    intro m h hp
    obtain ⟨u, hu, ha⟩ := mapAddnode_added h hp node
    obtain ⟨t, ht, hb⟩ := ih (by rw [ha.nbuckets]; exact h) ha.placed
    refine ⟨t, ?_, hb.nbuckets.trans ha.nbuckets, hb.nnodes.trans ha.nnodes, ?_, hb.placed⟩
    · rw [List.foldlM_cons, hu]
      exact ht
    · refine hb.nodes.trans ((ha.nodes.append_left ns).trans ?_)
      exact List.perm_middle

theorem chained_perm : m.chained.Perm m.nodes := by
  unfold chained nodes
  induction m.buckets with
  | nil => exact List.Perm.refl _
  | cons chain bs ih =>
    rw [List.foldr_cons, List.flatten_cons, List.foldl_flip_cons_eq_append']
    exact (List.reverse_perm chain).append ih

theorem nodes_of_nbuckets_eq_zero (h : m.nbuckets = 0) : m.nodes = [] := by
  rw [nodes, List.eq_nil_of_length_eq_zero h]
  rfl

/-- The nodes stay the same, in the new buckets or in the old ones. -/
theorem mapResize_eq (hn : 0 < n) (grown : Bool) : ∃ t,
    m.mapResize n grown = .ok (if grown then 0 else -1, t) ∧
      t.nbuckets = (if grown then n else m.nbuckets) ∧ t.nnodes = m.nnodes ∧
      t.nodes.Perm m.nodes ∧ Placed (placeIn t.nbuckets) t.buckets := by
  unfold mapResize
  generalize hsize : (if grown then n else m.nbuckets) = size
  have hlen : nbuckets (⟨List.replicate size [], m.nnodes⟩ : MapBase ν) = size :=
    List.length_replicate
  have hempty : nodes (⟨List.replicate size [], m.nnodes⟩ : MapBase ν) = [] := by
    simp [nodes]
  simp only [hlen]
  by_cases hpos : 0 < size
  · obtain ⟨t, ht, ha⟩ := addNodes_added m.chained (m := ⟨List.replicate size [], m.nnodes⟩)
      (by rw [hlen]; exact hpos) (placed_replicate size)
    refine ⟨t, ?_, ha.nbuckets.trans hlen, ha.nnodes, ?_, ha.placed⟩
    · rw [if_pos hpos, ht]
      rfl
    · refine ha.nodes.trans ?_
      rw [hempty, List.append_nil]
      exact chained_perm
  · refine ⟨⟨List.replicate size [], m.nnodes⟩, ?_, hlen, rfl, ?_, placed_replicate size⟩
    · rw [if_neg hpos]
      rfl
    · have hzero : m.nbuckets = 0 := by
        cases grown with
        | true => exact absurd (hsize ▸ hn) hpos
        | false =>
          simp only [Bool.false_eq_true, if_false] at hsize
          omega
      rw [hempty, nodes_of_nbuckets_eq_zero hzero]

/-! ### Looking up a key -/

/-- There is no node with the key, or the reference is to the one there is. -/
theorem mapGetref_cases (hm : m.WellFormed) (key : CString) :
    (m.mapGetref key = none ∧ ∀ node ∈ m.nodes, node.key ≠ key) ∨
    ∃ n j chain node, m.mapGetref key = some (n, j) ∧ m.buckets[n]? = some chain ∧
      chain[j]? = some node ∧ node.key = key := by
  unfold mapGetref
  by_cases h : 0 < m.nbuckets
  · have hlt : mapBucketidx m.nbuckets (mapHash key) < m.buckets.length := mapBucketidx_lt h
    dsimp only
    rw [if_pos h, List.getD_eq_getElem?_getD, List.getElem?_eq_getElem hlt, Option.getD_some]
    generalize hchain : m.buckets[mapBucketidx m.nbuckets (mapHash key)] = chain
    have hget : m.buckets[mapBucketidx m.nbuckets (mapHash key)]? = some chain := by
      rw [List.getElem?_eq_getElem hlt, hchain]
    cases hj : chain.findIdx? fun node => node.hash = mapHash key ∧ node.key = key with
    | none =>
      refine .inl ⟨rfl, fun node hnode hkey => ?_⟩
      rw [List.findIdx?_eq_none_iff] at hj
      have hhash : node.hash = mapHash key := by rw [hm.hashes node hnode, hkey]
      obtain ⟨chain', hchain', hmem⟩ := hm.placed.mem_bucket hnode
      obtain rfl : chain' = chain := by
        rw [placeIn, hhash, hget] at hchain'
        exact (Option.some.inj hchain').symm
      simpa [hhash, hkey] using hj node hmem
    | some j =>
      rw [List.findIdx?_eq_some_iff_getElem] at hj
      obtain ⟨hjlt, hp, -⟩ := hj
      refine .inr ⟨_, j, chain, chain[j], rfl, hget, List.getElem?_eq_getElem hjlt, ?_⟩
      simp only [decide_eq_true_eq] at hp
      exact hp.2
  · refine .inl ⟨if_neg h, ?_⟩
    rw [nodes_of_nbuckets_eq_zero (by omega)]
    intro node hnode
    cases hnode

theorem mapGet_eq (hm : m.WellFormed) : m.mapGet = tableOf m.nodes := by
  funext key
  unfold mapGet
  rcases mapGetref_cases hm key with
    ⟨hnone, hkeys⟩ | ⟨n, j, chain, node, hsome, hchain, hnode, hkey⟩
  · rw [hnone]
    exact (Table.ofEntries_eq_none.2 hkeys).symm
  · rw [hsome]
    simp only [List.getD_eq_getElem?_getD, hchain, Option.getD_some, hnode, Option.map_some]
    symm
    refine (Table.ofEntries_eq_some hm.distinct).2 ⟨node, ?_, hkey, rfl⟩
    obtain ⟨pre, post, hflat, -⟩ := split_entry hchain hnode
    rw [nodes, hflat]
    exact List.mem_append_right pre List.mem_cons_self

end MapBase

end IotClient.Map
