import IotClient.Map.WellFormed

/-!
# Runs of calls on a map

Whatever the allocator answers, the calls keep a map well formed and free what they allocate
(`run_sound`), and to a caller that only looks keys up the map is a finite one: `map_set_` sets a
key or, when it cannot allocate what a new key needs, returns -1 and changes nothing
(`calls_effect`).
-/

namespace IotClient.Map

open Mem Machine Buckets MapBase

variable {ν : Type} {m : MapBase ν} {s : Store ν} {node : MapNode ν} {key : CString} {value : ν}

/-- The map is well formed, and the allocated blocks are its nodes. -/
structure Store.Sound (s : Store ν) : Prop where
  map : s.map.WellFormed
  blocks : s.blocks.Perm (s.map.nodes.map MapNode.address)

/-- The allocator returns `NULL` for what a new key needs. -/
def Allocator.Refuses (alloc : Allocator) (m : MapBase ν) : Prop :=
  alloc.node = none ∨ (m.nbuckets ≤ m.nnodes ∧ alloc.buckets = false)

instance (alloc : Allocator) (m : MapBase ν) : Decidable (alloc.Refuses m) :=
  inferInstanceAs (Decidable (_ ∨ _))

/-- What a call does to the finite map, and what it returns. -/
def MapCall.Effect (s t : Store ν) : MapCall ν → Prop
  | .set key value alloc =>
    if s.map.mapGet key = none ∧ alloc.Refuses s.map then t.err = -1 ∧ t.map.mapGet = s.map.mapGet
    else t.err = 0 ∧ t.map.mapGet = Table.set s.map.mapGet key value
  | .remove key => t.err = 0 ∧ t.map.mapGet = Table.erase s.map.mapGet key

theorem Store.sound_init : (Store.init : Store ν).Sound :=
  ⟨wellFormed_init, List.Perm.refl _⟩

/-! ### The steps of `map_set_` -/

theorem mapGet_eq_none (hm : m.WellFormed) :
    m.mapGet key = none ↔ ∀ node ∈ m.nodes, node.key ≠ key := by
  rw [mapGet_eq hm]
  exact Table.ofEntries_eq_none

/-- A node of a well-formed map, in its bucket, with a place before and a place behind it. -/
theorem replaced_wellFormed (hm : m.WellFormed) {n j : Nat} {chain : List (MapNode ν)}
    (hchain : m.buckets[n]? = some chain) (hnode : chain[j]? = some node) (value : ν) :
    let t : MapBase ν :=
      { m with buckets := m.buckets.modify n (·.modify j fun node => { node with value := value }) }
    t.WellFormed ∧ t.mapGet = Table.set m.mapGet node.key value ∧
      t.nodes.map MapNode.address = m.nodes.map MapNode.address := by
  intro t
  obtain ⟨pre, post, hflat, hmodify, -⟩ := split_entry hchain hnode
  have hnodes : m.nodes = pre ++ node :: post := hflat
  have htnodes : t.nodes = pre ++ { node with value := value } :: post := hmodify _
  have hlen : t.nbuckets = m.nbuckets := List.length_modify ..
  have ht : t.WellFormed := by
    refine ⟨?_, ?_, ?_, ?_, ?_, ?_⟩
    · intro e he
      rw [htnodes, List.mem_append, List.mem_cons] at he
      rcases he with he | rfl | he
      · exact hm.hashes e (by rw [hnodes]; exact List.mem_append_left _ he)
      · exact hm.hashes node (by rw [hnodes]; exact List.mem_append_right _ List.mem_cons_self)
      · exact hm.hashes e (by
          rw [hnodes]; exact List.mem_append_right _ (List.mem_cons_of_mem _ he))
    · rw [hlen]
      refine hm.placed.modify fun chain' hchain' e he => ?_
      obtain ⟨k, hk⟩ := List.mem_iff_getElem?.1 he
      rw [List.getElem?_modify, Option.map_eq_map, Option.map_eq_some_iff] at hk
      obtain ⟨old, hold, rfl⟩ := hk
      have hplace := hm.placed n chain' hchain' old (List.mem_of_getElem? hold)
      split <;> exact hplace
    · have hd := hm.distinct
      rw [hnodes, List.map_append, List.map_cons] at hd
      rw [htnodes, List.map_append, List.map_cons]
      exact hd
    · rw [htnodes]
      show m.nnodes = _
      rw [hm.nnodes, hnodes, List.length_append, List.length_append]
      rfl
    · rw [hlen]
      exact hm.load
    · rw [hlen]
      exact hm.size
  refine ⟨ht, ?_, ?_⟩
  · rw [mapGet_eq ht, mapGet_eq hm, htnodes, hnodes]
    unfold tableOf
    have hd := hm.distinct
    have htd := ht.distinct
    rw [hnodes] at hd
    rw [htnodes] at htd
    rw [Table.ofEntries_perm List.perm_middle hd, Table.ofEntries_perm List.perm_middle htd,
      Table.ofEntries_cons, Table.ofEntries_cons, Table.set_set]
  · rw [htnodes, hnodes, List.map_append, List.map_append]
    rfl

variable (node) in
/-- A node with a new key. -/
theorem insertNode_eq (hm : s.map.WellFormed) (hload : s.map.nnodes < s.map.nbuckets)
    (hkey : ∀ e ∈ s.map.nodes, e.key ≠ node.key) (hhash : node.hash = mapHash node.key) :
    ∃ t, s.insertNode node = .ok t ∧ t.err = 0 ∧ t.blocks = s.blocks ∧ t.map.WellFormed ∧
      t.map.nodes.Perm (node :: s.map.nodes) := by
  obtain ⟨u, hu, ha⟩ := mapAddnode_added (Nat.zero_lt_of_lt hload) hm.placed node
  have hnodes : u.nodes.Perm (node :: s.map.nodes) := ha.nodes
  refine ⟨{ s with map := { u with nnodes := u.nnodes + 1 }, err := 0 }, ?_, rfl, rfl, ?_, hnodes⟩
  · rw [Store.insertNode, hu]
    rfl
  refine ⟨?_, ha.placed, ?_, ?_, ?_, ?_⟩
  · intro e he
    rcases List.mem_cons.1 (hnodes.mem_iff.1 he) with rfl | he
    · exact hhash
    · exact hm.hashes e he
  · show (u.nodes.map MapNode.key).Nodup
    rw [(hnodes.map MapNode.key).nodup_iff, List.map_cons, List.nodup_cons]
    refine ⟨fun hmem => ?_, hm.distinct⟩
    obtain ⟨e, he, hk⟩ := List.mem_map.1 hmem
    exact hkey e he hk
  · show u.nnodes + 1 = u.nodes.length
    rw [ha.nnodes, hm.nnodes, hnodes.length_eq, List.length_cons]
  · show u.nnodes + 1 ≤ u.nbuckets
    rw [ha.nnodes, ha.nbuckets]
    exact hload
  · show u.nbuckets = 0 ∨ ∃ k, u.nbuckets = 2 ^ k
    rw [ha.nbuckets]
    exact hm.size

/-- Twice as many buckets, or as many as before. -/
theorem resized_wellFormed (hm : m.WellFormed) (grown : Bool) {t : MapBase ν}
    (hlen : t.nbuckets = if grown then (if m.nbuckets > 0 then m.nbuckets * 2 else 1)
      else m.nbuckets)
    (hcount : t.nnodes = m.nnodes) (hnodes : t.nodes.Perm m.nodes)
    (hplaced : Placed (placeIn t.nbuckets) t.buckets) : t.WellFormed := by
  have hload := hm.load
  refine ⟨fun e he => hm.hashes e (hnodes.mem_iff.1 he), hplaced, ?_, ?_, ?_, ?_⟩
  · rw [(hnodes.map MapNode.key).nodup_iff]
    exact hm.distinct
  · rw [hcount, hm.nnodes, hnodes.length_eq]
  · rw [hlen, hcount]
    split
    · split <;> omega
    · exact hload
  · rw [hlen]
    cases grown with
    | false => exact hm.size
    | true =>
      rw [if_pos rfl]
      rcases hm.size with h0 | ⟨k, hk⟩
      · rw [if_neg (by omega)]
        exact .inr ⟨0, rfl⟩
      · rw [if_pos (by rw [hk]; exact Nat.two_pow_pos k), hk]
        exact .inr ⟨k + 1, rfl⟩

/-! ### Every call -/

theorem mapGet_insert {t : MapBase ν} (hm : m.WellFormed) (ht : t.WellFormed)
    (hnodes : t.nodes.Perm (node :: m.nodes)) :
    t.mapGet = Table.set m.mapGet node.key node.value := by
  rw [mapGet_eq ht, mapGet_eq hm]
  exact (Table.ofEntries_perm hnodes ht.distinct).trans Table.ofEntries_cons

theorem free_eq {a : Nat} {l : List Nat} (h : s.blocks.Perm (a :: l)) :
    ∃ t, s.free a = .ok t ∧ t.map = s.map ∧ t.blocks.Perm l := by
  refine ⟨{ s with blocks := s.blocks.erase a }, ?_, rfl, ?_⟩
  · exact if_pos (h.mem_iff.2 List.mem_cons_self)
  · have herase := h.erase a
    rwa [List.erase_cons_head] at herase

section Set

variable {alloc : Allocator} {address : Nat}

/-- A new node is chained in a map that holds the nodes of `s` and has room. -/
theorem insertNode_new {u : Store ν} (hs : s.Sound) (hkeys : ∀ e ∈ s.map.nodes, e.key ≠ key)
    (hu : u.map.WellFormed) (hnodes : u.map.nodes.Perm s.map.nodes)
    (hload : u.map.nnodes < u.map.nbuckets) (hblocks : u.blocks = address :: s.blocks) :
    ∃ t, u.insertNode (mapNewnode key value address) = .ok t ∧ t.Sound ∧ t.err = 0 ∧
      t.map.mapGet = Table.set s.map.mapGet key value := by
  obtain ⟨t, ht, herr, htb, htw, htn⟩ := insertNode_eq (mapNewnode key value address) hu
    hload (fun e he => hkeys e (hnodes.mem_iff.1 he)) rfl
  have hall : t.map.nodes.Perm (mapNewnode key value address :: s.map.nodes) :=
    htn.trans (hnodes.cons _)
  refine ⟨t, ht, ⟨htw, ?_⟩, herr, mapGet_insert hs.map htw hall⟩
  rw [htb, hblocks]
  exact (hs.blocks.cons _).trans (hall.map MapNode.address).symm

variable (value) in
theorem mapSet_new (hs : s.Sound) (href : s.map.mapGetref key = none)
    (hkeys : ∀ e ∈ s.map.nodes, e.key ≠ key) (hblock : alloc.node = some address)
    (hroom : ¬ (s.map.nbuckets ≤ s.map.nnodes ∧ alloc.buckets = false)) :
    ∃ t, s.mapSet key value alloc = .ok t ∧ t.Sound ∧ t.err = 0 ∧
      t.map.mapGet = Table.set s.map.mapGet key value := by
  unfold Store.mapSet
  rw [href, hblock]
  dsimp only
  by_cases hfull : s.map.nbuckets ≤ s.map.nnodes
  · have hgrown : alloc.buckets = true := by
      cases h : alloc.buckets with
      | true => rfl
      | false => exact absurd ⟨hfull, h⟩ hroom
    have hn : 0 < if s.map.nbuckets > 0 then s.map.nbuckets * 2 else 1 := by
      split <;> omega
    obtain ⟨m, hm, hlen, hcount, hnodes, hplaced⟩ := mapResize_eq (m := s.map) hn true
    have hwell := resized_wellFormed hs.map true hlen hcount hnodes hplaced
    rw [if_pos hfull, hgrown, hm]
    refine insertNode_new (u := ⟨m, address :: s.blocks, s.err⟩) hs hkeys hwell hnodes ?_ rfl
    have hload := hs.map.load
    show m.nnodes < m.nbuckets
    rw [hlen, hcount, if_pos rfl]
    split <;> omega
  · rw [if_neg hfull]
    exact insertNode_new (u := ⟨s.map, address :: s.blocks, s.err⟩) hs hkeys hs.map
      (List.Perm.refl _) (Nat.lt_of_not_le hfull) rfl

variable (value) in
/-- The nodes are back in the old buckets, and the new one is freed. -/
theorem mapSet_refused (hs : s.Sound) (href : s.map.mapGetref key = none)
    (hblock : alloc.node = some address) (hfull : s.map.nbuckets ≤ s.map.nnodes)
    (hgrown : alloc.buckets = false) :
    ∃ t, s.mapSet key value alloc = .ok t ∧ t.Sound ∧ t.err = -1 ∧
      t.map.mapGet = s.map.mapGet := by
  unfold Store.mapSet
  have hn : 0 < if s.map.nbuckets > 0 then s.map.nbuckets * 2 else 1 := by
    split <;> omega
  obtain ⟨m, hm, hlen, hcount, hnodes, hplaced⟩ := mapResize_eq (m := s.map) hn false
  have hwell := resized_wellFormed hs.map false hlen hcount hnodes hplaced
  obtain ⟨t, ht, htm, htb⟩ := free_eq (s := ⟨m, address :: s.blocks, s.err⟩) (a := address)
    (l := s.blocks) (List.Perm.refl _)
  refine ⟨{ t with err := -1 }, ?_, ⟨?_, ?_⟩, rfl, ?_⟩
  · rw [href, hblock]
    dsimp only
    rw [if_pos hfull, hgrown, hm]
    show (Store.free _ address >>= fun s => _) = _
    rw [ht]
    rfl
  · show t.map.WellFormed
    rw [htm]
    exact hwell
  · show t.blocks.Perm (t.map.nodes.map MapNode.address)
    rw [htm]
    exact htb.trans (hs.blocks.trans (hnodes.map MapNode.address).symm)
  · show t.map.mapGet = _
    rw [htm, mapGet_eq hwell, mapGet_eq hs.map]
    exact Table.ofEntries_perm hnodes hwell.distinct

theorem mapSet_spec (hs : s.Sound) (key : CString) (value : ν) (alloc : Allocator) :
    ∃ t, s.mapSet key value alloc = .ok t ∧ t.Sound ∧
      MapCall.Effect s t (.set key value alloc) := by
  rcases mapGetref_cases hs.map key with
    ⟨href, hkeys⟩ | ⟨n, j, chain, node, href, hchain, hnode, hkey⟩
  · have hnone : s.map.mapGet key = none := (mapGet_eq_none hs.map).2 hkeys
    cases hblock : alloc.node with
    | none =>
      refine ⟨{ s with err := -1 }, ?_, ⟨hs.map, hs.blocks⟩, ?_⟩
      · unfold Store.mapSet
        rw [href, hblock]
        rfl
      · exact (if_pos ⟨hnone, .inl hblock⟩).mpr ⟨rfl, rfl⟩
    | some address =>
      by_cases hroom : s.map.nbuckets ≤ s.map.nnodes ∧ alloc.buckets = false
      · obtain ⟨t, ht, hsound, heffect⟩ :=
          mapSet_refused value hs href hblock hroom.1 hroom.2
        exact ⟨t, ht, hsound, (if_pos ⟨hnone, .inr hroom⟩).mpr heffect⟩
      · obtain ⟨t, ht, hsound, heffect⟩ := mapSet_new value hs href hkeys hblock hroom
        refine ⟨t, ht, hsound, (if_neg ?_).mpr heffect⟩
        rintro ⟨-, hnull | hfull⟩
        · rw [hblock] at hnull
          cases hnull
        · exact hroom hfull
  · obtain ⟨hw, hget, haddresses⟩ := replaced_wellFormed hs.map hchain hnode value
    refine ⟨⟨⟨s.map.buckets.modify n (·.modify j fun node => { node with value := value }),
      s.map.nnodes⟩, s.blocks, 0⟩, ?_, ⟨hw, ?_⟩, ?_⟩
    · unfold Store.mapSet
      rw [href]
      rfl
    · rw [haddresses]
      exact hs.blocks
    · refine (if_neg ?_).mpr ⟨rfl, ?_⟩
      · rintro ⟨hnone, -⟩
        obtain ⟨pre, post, hflat, -⟩ := split_entry hchain hnode
        refine (mapGet_eq_none hs.map).1 hnone node ?_ hkey
        rw [nodes, hflat]
        exact List.mem_append_right _ List.mem_cons_self
      · rw [← hkey]
        exact hget

end Set

theorem mapRemove_spec (hs : s.Sound) (key : CString) :
    ∃ t, s.mapRemove key = .ok t ∧ t.Sound ∧ MapCall.Effect s t (.remove key) := by
  unfold Store.mapRemove
  rcases mapGetref_cases hs.map key with
    ⟨href, hkeys⟩ | ⟨n, j, chain, node, href, hchain, hnode, hkey⟩
  · refine ⟨{ s with err := 0 }, by rw [href]; rfl, ⟨hs.map, hs.blocks⟩, rfl, ?_⟩
    rw [Table.erase_of_none ((mapGet_eq_none hs.map).2 hkeys)]
  · obtain ⟨pre, post, hflat, -, herase⟩ := split_entry hchain hnode
    have hnodes : s.map.nodes = pre ++ node :: post := hflat
    have hperm : s.map.nodes.Perm (node :: (pre ++ post)) := by
      rw [hnodes]
      exact List.perm_middle
    have hlen : (s.map.buckets.modify n (·.eraseIdx j)).length = s.map.nbuckets :=
      List.length_modify ..
    have hsub : ∀ e ∈ pre ++ post, e ∈ s.map.nodes := fun e he =>
      hperm.mem_iff.2 (List.mem_cons_of_mem node he)
    have hcount := hs.map.nnodes
    rw [hperm.length_eq, List.length_cons] at hcount
    have hd : ((node :: (pre ++ post)).map MapNode.key).Nodup :=
      (hperm.map MapNode.key).nodup_iff.1 hs.map.distinct
    have hw : MapBase.WellFormed
        ⟨s.map.buckets.modify n (·.eraseIdx j), s.map.nnodes - 1⟩ := by
      refine ⟨?_, ?_, ?_, ?_, ?_, ?_⟩
      · intro e he
        rw [nodes, herase] at he
        exact hs.map.hashes e (hsub e he)
      · show Placed (placeIn (List.length _)) _
        rw [hlen]
        refine hs.map.placed.modify fun chain' hchain' e he => ?_
        exact hs.map.placed n chain' hchain' e (List.mem_of_mem_eraseIdx he)
      · rw [nodes, herase]
        exact (List.nodup_cons.1 hd).2
      · rw [nodes, herase]
        show s.map.nnodes - 1 = _
        omega
      · have hload := hs.map.load
        show s.map.nnodes - 1 ≤ List.length _
        rw [hlen]
        omega
      · show List.length _ = 0 ∨ ∃ k, List.length _ = 2 ^ k
        rw [hlen]
        exact hs.map.size
    obtain ⟨t, ht, htm, htb⟩ := free_eq
      (s := ⟨⟨s.map.buckets.modify n (·.eraseIdx j), s.map.nnodes⟩, s.blocks, s.err⟩)
      (a := node.address) (l := (pre ++ post).map MapNode.address)
      (hs.blocks.trans (hperm.map MapNode.address))
    refine ⟨⟨⟨s.map.buckets.modify n (·.eraseIdx j), s.map.nnodes - 1⟩, t.blocks, 0⟩, ?_,
      ⟨hw, ?_⟩, rfl, ?_⟩
    · rw [href]
      simp only [List.getD_eq_getElem?_getD, hchain, Option.getD_some, hnode]
      rw [ht, ok_bind, htm]
      rfl
    · rw [nodes, herase]
      exact htb
    · show MapBase.mapGet _ = _
      rw [mapGet_eq hw, mapGet_eq hs.map, ← hkey, nodes, herase]
      exact (Table.ofEntries_erase hd).trans
        (congrArg (Table.erase · node.key) (Table.ofEntries_perm hperm.symm hd))

/-- Every call returns, on a sound store to a sound one, with its effect on the finite map. -/
theorem step_spec (hs : s.Sound) (call : MapCall ν) :
    ∃ t, step s call = .ok t ∧ t.Sound ∧ call.Effect s t := by
  cases call with
  | set key value alloc => exact mapSet_spec hs key value alloc
  | remove key => exact mapRemove_spec hs key

/-! ### Runs -/

theorem run_sound (calls : List (MapCall ν)) : ∀ {s : Store ν}, s.Sound →
    ∃ t, run step s calls = .ok t ∧ t.Sound := by
  induction calls with
  | nil => exact fun hs => ⟨_, rfl, hs⟩
  | cons call calls ih =>
    intro s hs
    obtain ⟨u, hu, hsound, -⟩ := step_spec hs call
    rw [run_cons hu]
    exact ih hsound

/-- Whatever the allocator answered. -/
theorem calls_wellFormed (calls : List (MapCall ν)) :
    ∃ s, run step .init calls = .ok s ∧ s.map.WellFormed := by
  obtain ⟨s, hrun, hs⟩ := run_sound calls Store.sound_init
  exact ⟨s, hrun, hs.map⟩

/-- Each call of a run changes what is looked up as it would change a finite map. -/
theorem calls_effect (calls : List (MapCall ν)) (call : MapCall ν) :
    ∃ s t, run step .init calls = .ok s ∧ step s call = .ok t ∧ call.Effect s t := by
  obtain ⟨s, hrun, hs⟩ := run_sound calls Store.sound_init
  obtain ⟨t, ht, -, heffect⟩ := step_spec hs call
  exact ⟨s, t, hrun, ht, heffect⟩

theorem freeAll (ns : List (MapNode ν)) : ∀ {s : Store ν},
    s.blocks.Perm (ns.map MapNode.address) →
      ∃ t, ns.foldlM (fun s node => s.free node.address) s = .ok t ∧ t.blocks = [] := by
  induction ns with
  | nil => exact fun hs => ⟨_, rfl, List.perm_nil.1 hs⟩
  | cons node ns ih =>
    intro s hs
    obtain ⟨u, hu, -, hblocks⟩ := free_eq hs
    obtain ⟨t, ht, hnil⟩ := ih hblocks
    refine ⟨t, ?_, hnil⟩
    rw [List.foldlM_cons, hu]
    exact ht

/-- After any calls `map_deinit_` frees what they allocated and did not free, and nothing twice. -/
theorem calls_freed (calls : List (MapCall ν)) :
    ∃ s t, run step .init calls = .ok s ∧ s.mapDeinit = .ok t ∧ t.blocks = [] := by
  obtain ⟨s, hrun, hs⟩ := run_sound calls Store.sound_init
  have hrev : (s.map.buckets.reverse.flatten).Perm s.map.nodes :=
    (List.reverse_perm s.map.buckets).flatten
  obtain ⟨t, ht, hnil⟩ := freeAll s.map.buckets.reverse.flatten
    (hs.blocks.trans (hrev.map MapNode.address).symm)
  exact ⟨s, t, hrun, ht, hnil⟩

end IotClient.Map
