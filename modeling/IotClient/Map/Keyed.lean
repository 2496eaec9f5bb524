import IotClient.Map.Iteration

/-!
# Maps of the clients

The clients keep messages under decimal packet ids, and topics under their names. `Represents name`
relates a store to the finite table of a client, whose keys are written as the strings that `name`
gives them. As long as memory lasts every call keeps the relation (`calls_represent`), the searches
of the timers look up the table (`Represents.scan`), and a loop that fires every message fires what
the table holds, each message once (`Represents.fireAll`).
-/

namespace IotClient.Map

open Mem Machine MapBase

variable {κ ν : Type}

/-- The store holds the entries of the table. -/
structure Represents (name : κ → CString) (s : Store ν) (t : Table κ ν) : Prop where
  sound : s.Sound
  get : ∀ k, s.map.mapGet (name k) = t k
  named : ∀ key, s.map.mapGet key ≠ none → ∃ k, name k = key

/-- A call of a client on one of its maps, and what the allocator answers. -/
inductive KeyedCall (κ ν : Type) where
  | set (k : κ) (value : ν) (alloc : Allocator)
  | remove (k : κ)

namespace KeyedCall

def call (name : κ → CString) : KeyedCall κ ν → MapCall ν
  | set k value alloc => .set (name k) value alloc
  | remove k => .remove (name k)

/-- The allocator has memory for the call. -/
def Served : KeyedCall κ ν → Prop
  | set _ _ alloc => alloc.node ≠ none ∧ alloc.buckets = true
  | remove _ => True

def apply [DecidableEq κ] (t : Table κ ν) : KeyedCall κ ν → Table κ ν
  | set k value _ => t.set k value
  | remove k => t.erase k

end KeyedCall

/-- Fires every message of the map, as `connect_task` and `message_resend_task` do. -/
def fireAll {σ : Type} (m : MapBase ν) (fire : ν → σ → Run σ) (s : σ) : Run σ :=
  m.forKeys (fun key s => do
    let message ← m.derefGet key
    let s ← fire message s
    pure (.yield s)) s

variable {name : κ → CString} {s : Store ν} {t : Table κ ν}

theorem represents_init : Represents name (Store.init : Store ν) .empty where
  sound := Store.sound_init
  get _ := rfl
  named _ h := absurd rfl h

theorem not_refuses {alloc : Allocator} (h : alloc.node ≠ none ∧ alloc.buckets = true)
    (m : MapBase ν) : ¬ alloc.Refuses m := by
  rintro (hnode | ⟨-, hbuckets⟩)
  · exact h.1 hnode
  · rw [h.2] at hbuckets
    cases hbuckets

variable [DecidableEq κ]

theorem Represents.step (h : Represents name s t) (hname : Function.Injective name)
    (call : KeyedCall κ ν) (hserved : call.Served) :
    ∃ u, Map.step s (call.call name) = .ok u ∧ Represents name u (call.apply t) := by
  obtain ⟨u, hu, hsound, heffect⟩ := step_spec h.sound (call.call name)
  refine ⟨u, hu, ?_⟩
  cases call with
  | set k value alloc =>
    obtain ⟨-, hget⟩ := (if_neg fun hr => not_refuses hserved _ hr.2).mp heffect
    refine ⟨hsound, fun l => ?_, fun key hkey => ?_⟩
    · rw [hget, KeyedCall.apply, Table.set_apply, Table.set_apply, h.get l]
      simp only [hname.eq_iff]
    · rw [hget, Table.set_apply] at hkey
      by_cases hk : key = name k
      · exact ⟨k, hk.symm⟩
      · rw [if_neg hk] at hkey
        exact h.named key hkey
  | remove k =>
    obtain ⟨-, hget⟩ := heffect
    refine ⟨hsound, fun l => ?_, fun key hkey => ?_⟩
    · rw [hget, KeyedCall.apply, Table.erase_apply, Table.erase_apply, h.get l]
      simp only [hname.eq_iff]
    · rw [hget, Table.erase_apply] at hkey
      split at hkey
      · exact absurd rfl hkey
      · exact h.named key hkey

theorem calls_represent (hname : Function.Injective name) (calls : List (KeyedCall κ ν))
    (hserved : ∀ call ∈ calls, call.Served) : ∀ {s : Store ν} {t : Table κ ν}, Represents name s t →
      ∃ u, run Map.step s (calls.map (·.call name)) = .ok u ∧
        Represents name u (calls.foldl KeyedCall.apply t) := by
  induction calls with
  | nil => exact fun h => ⟨_, rfl, h⟩
  | cons call calls ih =>
    intro s t h
    obtain ⟨u, hu, hrep⟩ := h.step hname call (hserved call List.mem_cons_self)
    rw [List.map_cons, run_cons hu, List.foldl_cons]
    exact ih (fun c hc => hserved c (List.mem_cons_of_mem _ hc)) hrep

omit [DecidableEq κ]

theorem Represents.scan (h : Represents name s t) (k : κ) : s.map.scan (name k) = .ok (t k) := by
  rw [scan_eq h.sound.map, h.get]

/-- The keys of the map are the names of an order of the keys of the table. -/
theorem Represents.enumerates (h : Represents name s t) (hname : Function.Injective name) :
    ∃ ks : List κ, s.map.nodes.map MapNode.key = ks.map name ∧ Table.Enumerates ks t := by
  have hkeys := enumerates_keys h.sound.map
  have hnamed : ∀ key ∈ s.map.nodes.map MapNode.key, ∃ k, name k = key := fun key hkey =>
    h.named key ((hkeys.mem_iff key).1 hkey)
  obtain ⟨ks, hks⟩ : ∃ ks : List κ, s.map.nodes.map MapNode.key = ks.map name := by
    generalize s.map.nodes.map MapNode.key = keys at hnamed
    induction keys with
    | nil => exact ⟨[], rfl⟩
    | cons key keys ih =>
      obtain ⟨k, rfl⟩ := hnamed key List.mem_cons_self
      obtain ⟨ks, rfl⟩ := ih fun key hkey => hnamed key (List.mem_cons_of_mem _ hkey)
      exact ⟨k :: ks, rfl⟩
  refine ⟨ks, hks, ?_, fun k => ?_⟩
  · have hnodup := hkeys.nodup
    rw [hks] at hnodup
    exact hnodup.of_map name
  · rw [← h.get k, ← hkeys.mem_iff, hks, List.mem_map_of_injective hname]

theorem fireKeys_eq {σ : Type} {m : MapBase ν} (fire : ν → σ → Run σ) (ks : List κ)
    (hget : ∀ k ∈ ks, m.mapGet (name k) = t k) (hks : ∀ k ∈ ks, t k ≠ none) : ∀ s : σ,
      (forIn (ks.map name) s fun key s => do
        let message ← m.derefGet key
        let s ← fire message s
        pure (.yield s)) = (ks.filterMap t).foldlM (fun s message => fire message s) s := by
  induction ks with
  | nil => exact fun s => rfl
  | cons k ks ih =>
    intro s
    obtain ⟨message, hmessage⟩ := Option.ne_none_iff_exists'.1 (hks k List.mem_cons_self)
    have hderef : m.derefGet (name k) = .ok message :=
      derefGet_ok ((hget k List.mem_cons_self).trans hmessage)
    rw [List.map_cons, List.forIn_cons, hderef, ok_bind, List.filterMap_cons, hmessage,
      List.foldlM_cons]
    cases hfire : fire message s with
    | error e => rfl
    | ok u =>
      exact ih (fun k hk => hget k (List.mem_cons_of_mem _ hk))
        (fun k hk => hks k (List.mem_cons_of_mem _ hk)) u

/-- A round fires the messages of the table, each once, in some order. -/
theorem Represents.fireAll (h : Represents name s t) (hname : Function.Injective name) :
    ∃ ks, Table.Enumerates ks t ∧ ∀ (σ : Type) (fire : ν → σ → Run σ) (u : σ),
      Map.fireAll s.map fire u = (ks.filterMap t).foldlM (fun u message => fire message u) u := by
  obtain ⟨ks, hks, henum⟩ := h.enumerates hname
  refine ⟨ks, henum, fun σ fire u => ?_⟩
  unfold Map.fireAll
  rw [forKeys_eq h.sound.map, hks]
  exact fireKeys_eq fire ks (fun k _ => h.get k) (fun k hk => (henum.mem_iff k).1 hk) u

/-! ### Packet ids -/

/-- The key of a packet id, as `sprintf` writes it. -/
def idKey (packetId : UInt16) : CString := decimal packetId.toNat

/-- A digit and its byte. -/
theorem digit_byte {n : Nat} {c : Char} (hc : c ∈ Nat.toDigits 10 n) :
    UInt8.ofNat c.toNat ≠ 0 ∧ Char.ofNat (UInt8.ofNat c.toNat).toNat = c := by
  have hdigit := Char.isDigit_iff_toNat.mp (Nat.isDigit_of_mem_toDigits (by decide) (by decide) hc)
  simp only [show '0'.toNat = 48 from rfl, show '9'.toNat = 57 from rfl] at hdigit
  have hval : (UInt8.ofNat c.toNat).toNat = c.toNat := UInt8.toNat_ofNat_of_lt' (by
    show c.toNat < 256
    omega)
  refine ⟨fun h0 => ?_, by rw [hval, Char.ofNat_toNat]⟩
  rw [h0] at hval
  simp only [UInt8.toNat_zero] at hval
  omega

theorem decimal_injective : Function.Injective decimal := by
  have hdigits (n : Nat) : (decimal n).bytes.map (fun x => Char.ofNat x.toNat) =
      Nat.toDigits 10 n := by
    have hnul : 0 ∉ (Nat.toDigits 10 n).map fun c => UInt8.ofNat c.toNat := by
      intro h
      obtain ⟨c, hc, hzero⟩ := List.mem_map.1 h
      exact (digit_byte hc).1 hzero
    unfold decimal
    rw [CString.ofBytes_of_nulFree hnul, List.map_map]
    exact (List.map_congr_left fun c hc => (digit_byte hc).2).trans (List.map_id _)
  intro m n h
  rw [← Nat.ofDigitChars_ten_toDigits (n := m), ← hdigits m, h, hdigits n,
    Nat.ofDigitChars_ten_toDigits]

theorem idKey_injective : Function.Injective idKey := fun _ _ h =>
  UInt16.toNat_inj.1 (decimal_injective h)

/-! ### Messages under their packet ids -/

/-- With memory for every call the search of the timers finds the message of a packet id. -/
theorem ids_found (calls : List (KeyedCall UInt16 ν)) (hserved : ∀ call ∈ calls, call.Served) :
    ∃ s, run Map.step .init (calls.map (·.call idKey)) = .ok s ∧
      ∀ packetId, s.map.scan (idKey packetId) =
        .ok (calls.foldl KeyedCall.apply Table.empty packetId) := by
  obtain ⟨s, hrun, h⟩ := calls_represent idKey_injective calls hserved represents_init
  exact ⟨s, hrun, h.scan⟩

/-- A round of a timer fires the message of each packet id that has one, once. -/
theorem ids_fired (calls : List (KeyedCall UInt16 ν)) (hserved : ∀ call ∈ calls, call.Served) :
    ∃ s ids, run Map.step .init (calls.map (·.call idKey)) = .ok s ∧
      Table.Enumerates ids (calls.foldl KeyedCall.apply Table.empty) ∧
      ∀ (σ : Type) (fire : ν → σ → Run σ) (u : σ), fireAll s.map fire u =
        (ids.filterMap (calls.foldl KeyedCall.apply Table.empty)).foldlM
          (fun u message => fire message u) u := by
  obtain ⟨s, hrun, h⟩ := calls_represent idKey_injective calls hserved represents_init
  obtain ⟨ids, henum, hfire⟩ := h.fireAll idKey_injective
  exact ⟨s, ids, hrun, henum, hfire⟩

/-- Two messages, one of which is removed again. -/
def idCalls : List (KeyedCall UInt16 Bool) :=
  [.set 1 true ⟨some 16, true⟩, .set 2 false ⟨some 32, true⟩, .remove 1]

theorem idCalls_served : ∀ call ∈ idCalls, call.Served := by
  intro call hcall
  simp only [idCalls, List.mem_cons, List.not_mem_nil, or_false] at hcall
  rcases hcall with rfl | rfl | rfl
  · exact ⟨Option.some_ne_none _, rfl⟩
  · exact ⟨Option.some_ne_none _, rfl⟩
  · trivial

theorem ids_found_idCalls : ∃ s, run Map.step .init (idCalls.map (·.call idKey)) = .ok s ∧
    ∀ packetId, s.map.scan (idKey packetId) =
      .ok (idCalls.foldl KeyedCall.apply Table.empty packetId) :=
  ids_found idCalls idCalls_served

theorem ids_fired_idCalls : ∃ s ids, run Map.step .init (idCalls.map (·.call idKey)) = .ok s ∧
    Table.Enumerates ids (idCalls.foldl KeyedCall.apply Table.empty) ∧
    ∀ (σ : Type) (fire : Bool → σ → Run σ) (u : σ), fireAll s.map fire u =
      (ids.filterMap (idCalls.foldl KeyedCall.apply Table.empty)).foldlM
        (fun u message => fire message u) u :=
  ids_fired idCalls idCalls_served

end IotClient.Map
