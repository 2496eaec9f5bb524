import IotClient.Machine.Buckets
import IotClient.Machine.Runs
import IotClient.Machine.Table
import IotClient.Mem.Read

/-!
# `map/map.c`

A `MapBase` is the array of buckets, each with the chain of its nodes. What `malloc` and `realloc`
answer is an input of `mapSet`; the nodes that are allocated are the `blocks` of a `Store`, so that
a node freed twice is a fault. A `char` is unsigned, as it is on the Raspberry's processor.
-/

namespace IotClient.Map

open Mem Machine

/-- `struct map_node_t`, at its address and with the key that is stored behind it. -/
structure MapNode (ν : Type) where
  address : Nat
  hash : UInt32
  key : CString
  value : ν

/-- `map_base_t`; `buckets` is `NULL` as long as there is none. -/
structure MapBase (ν : Type) where
  buckets : List (List (MapNode ν))
  nnodes : Nat

def mapHash (str : CString) : UInt32 :=
  str.bytes.foldl (fun hash c => ((hash <<< 5) + hash) ^^^ c.toUInt32) 5381

variable {ν : Type}

def mapNewnode (key : CString) (value : ν) (address : Nat) : MapNode ν :=
  ⟨address, mapHash key, key, value⟩

def mapBucketidx (nbuckets : Nat) (hash : UInt32) : Nat := hash.toNat &&& (nbuckets - 1)

namespace MapBase

/-- The map of `map_init`. -/
def init : MapBase ν := ⟨[], 0⟩

variable (m : MapBase ν)

def nbuckets : Nat := m.buckets.length

/-- The nodes of all buckets, in the order of the buckets. -/
def nodes : List (MapNode ν) := m.buckets.flatten

def mapAddnode (node : MapNode ν) : Run (MapBase ν) :=
  let n := mapBucketidx m.nbuckets node.hash
  if n < m.nbuckets then .ok { m with buckets := m.buckets.modify n (node :: ·) }
  else .error .writeOut

/-- The nodes, chained together from the last bucket on, each in front of the others. -/
def chained : List (MapNode ν) :=
  m.buckets.foldr (fun chain nodes => chain.foldl (fun nodes node => node :: nodes) nodes) []

/-- `grown` says whether `realloc` returned an array; if not, the old one is used. -/
def mapResize (nbuckets : Nat) (grown : Bool) : Run (Int × MapBase ν) := do
  let nodes := m.chained
  let size := if grown then nbuckets else m.nbuckets
  let m := { m with buckets := List.replicate size [] }
  let m ← if 0 < m.nbuckets then nodes.foldlM mapAddnode m else pure m
  pure (if grown then 0 else -1, m)

/-- The bucket and the position in its chain of the node with the key. -/
def mapGetref (key : CString) : Option (Nat × Nat) :=
  let hash := mapHash key
  if 0 < m.nbuckets then
    let n := mapBucketidx m.nbuckets hash
    ((m.buckets.getD n []).findIdx? fun node => node.hash = hash ∧ node.key = key).map fun j =>
      (n, j)
  else none

def mapGet (key : CString) : Option ν :=
  match m.mapGetref key with
  | some (n, j) => (m.buckets.getD n [])[j]?.map MapNode.value
  | none => none

end MapBase

/-- What the allocator answers to a call: the address of a node, or `NULL`, and whether there is an
array of buckets. -/
structure Allocator where
  node : Option Nat
  buckets : Bool

/-- A map, the addresses of the nodes that are allocated, and what the last call returned. -/
structure Store (ν : Type) where
  map : MapBase ν
  blocks : List Nat
  err : Int

namespace Store

def init : Store ν := ⟨.init, [], 0⟩

variable (s : Store ν)

/-- The pointer to a freed block is indeterminate. -/
def free (address : Nat) : Run (Store ν) :=
  if address ∈ s.blocks then .ok { s with blocks := s.blocks.erase address } else .error .indet

/-- The label `fail` of `map_set_`. -/
def fail (node : Option (MapNode ν)) : Run (Store ν) := do
  let s ← match node with
    | some node => s.free node.address
    | none => pure s
  pure { s with err := -1 }

/-- Chains a new node, for which there is a bucket. -/
def insertNode (node : MapNode ν) : Run (Store ν) := do
  let map ← s.map.mapAddnode node
  pure { s with map := { map with nnodes := map.nnodes + 1 }, err := 0 }

def mapSet (key : CString) (value : ν) (alloc : Allocator) : Run (Store ν) :=
  match s.map.mapGetref key with
  | some (n, j) => pure { s with
      map.buckets := s.map.buckets.modify n (·.modify j fun node => { node with value := value })
      err := 0 }
  | none =>
    match alloc.node with
    | none => s.fail none
    | some address => do
      let node := mapNewnode key value address
      let s := { s with blocks := address :: s.blocks }
      if s.map.nnodes ≥ s.map.nbuckets then
        let n := if s.map.nbuckets > 0 then s.map.nbuckets * 2 else 1
        let (err, map) ← s.map.mapResize n alloc.buckets
        let s := { s with map := map }
        if err ≠ 0 then s.fail (some node) else s.insertNode node
      else s.insertNode node

def mapRemove (key : CString) : Run (Store ν) :=
  match s.map.mapGetref key with
  | none => pure { s with err := 0 }
  | some (n, j) =>
    match (s.map.buckets.getD n [])[j]? with
    | none => .error .nullDeref
    | some node => do
      let s ← { s with map.buckets := s.map.buckets.modify n (·.eraseIdx j) }.free node.address
      pure { s with map.nnodes := s.map.nnodes - 1, err := 0 }

/-- Frees the nodes from the last bucket on; the map is not looked at again. -/
def mapDeinit : Run (Store ν) :=
  s.map.buckets.reverse.flatten.foldlM (fun s node => s.free node.address) s

end Store

/-- A call that changes a map. -/
inductive MapCall (ν : Type) where
  | set (key : CString) (value : ν) (alloc : Allocator)
  | remove (key : CString)

def step (s : Store ν) : MapCall ν → Run (Store ν)
  | .set key value alloc => s.mapSet key value alloc
  | .remove key => s.mapRemove key

end IotClient.Map
