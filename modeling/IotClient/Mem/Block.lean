import IotClient.Mem.Run

/-!
# Allocated blocks and sequential writers

A `Block` is a `malloc`ed byte array; a cell that was never written is `none`. `store` and
`memcpy` fault outside the block. Encoders write a block front to back with a cursor, the
C idiom `buf[i++] = x`: they run in `Enc`, whose state is the block and the cursor.

`Emits c out` says that `c` appends `out` at the cursor, or faults when the block is too
small for it. It composes along sequencing, so an encoder's output is read off its body,
and `Emits.run` turns it into the block the encoder leaves.
-/

namespace IotClient.Mem

abbrev Block := List (Option UInt8)

/-- The size of a pointer, and of a `long`, on the 64-bit ARM target. -/
def pointerSize : Nat := 8

namespace Block

def malloc (n : Nat) : Block := List.replicate n none

def store (b : Block) (i : Nat) (x : UInt8) : Run Block :=
  if i < b.length then .ok (b.set i (some x)) else .error .writeOut

def memcpy (b : Block) (i : Nat) : List UInt8 → Run Block
  | [] => .ok b
  | x :: xs => do (← b.store i x).memcpy (i + 1) xs

/-- `memcpy(&b[i], src, n)`, which copies unwritten cells as well. -/
def copyIn (b : Block) (i : Nat) (src : Block) (n : Int) : Run Block :=
  if n < 0 then .error .negativeSize
  else if src.length < n then .error .readOut
  else if b.length < i + n then .error .writeOut
  else .ok (b.take i ++ src.take n.toNat ++ b.drop (i + n.toNat))

/-- `malloc(n)` of an `int`. -/
def alloc (n : Int) : Run Block :=
  if n < 0 then .error .negativeSize else .ok (malloc n.toNat)

/-- `malloc(n * sizeof(p))`, as the code has it in places, where `p` is a `char *`. -/
def mallocPtrs (n : Int) : Run Block := alloc (n * pointerSize)

/-- The number of cells that were written. -/
def written (b : Block) : Nat := b.countP Option.isSome

/-- A block read as bytes, its unwritten cells holding what `junk` gives them. -/
def bytes (junk : Nat → UInt8) (b : Block) : List UInt8 :=
  b.zipIdx.map fun c => c.1.getD (junk c.2)

/-- A block whose first bytes are `pre` and whose last `k` cells were never written. -/
def part (pre : List UInt8) (k : Nat) : Block := pre.map some ++ List.replicate k none

@[simp] theorem part_nil (k : Nat) : part [] k = malloc k := rfl

@[simp] theorem length_part (pre : List UInt8) (k : Nat) : (part pre k).length = pre.length + k := by
  simp [part]

theorem part_zero (pre : List UInt8) : part pre 0 = pre.map some := by simp [part]

@[simp] theorem written_part (pre : List UInt8) (k : Nat) : (part pre k).written = pre.length := by
  simp [written, part, List.countP_map, List.countP_replicate, Function.comp_def]

theorem malloc_add (m n : Nat) : malloc (m + n) = malloc m ++ malloc n :=
  List.replicate_add m n none

@[simp] theorem length_malloc (n : Nat) : (malloc n).length = n := List.length_replicate ..

/-- Copying the start of a block behind the first cells of a block with room for it. -/
theorem copyIn_append (pre src tail : Block) (k : Nat) {i : Nat} {n : Int} (hi : i = pre.length)
    (hn : n = src.length) :
    (pre ++ malloc (src.length + k)).copyIn i (src ++ tail) n = .ok (pre ++ src ++ malloc k) := by
  subst hi hn
  have hsrc : ¬ (((src ++ tail).length : Int) < src.length) := by
    rw [List.length_append]; omega
  have hdst : ¬ (((pre ++ malloc (src.length + k)).length : Int) <
      (pre.length : Nat) + (src.length : Nat)) := by
    rw [List.length_append, length_malloc]; omega
  unfold copyIn
  rw [if_neg (by omega), if_neg hsrc, if_neg hdst,
    Int.toNat_natCast, List.take_left, List.take_left, ← List.drop_drop, List.drop_left,
    malloc_add, List.drop_left' (length_malloc _)]

/-- `copyIn_append` into a block with `room` cells left. -/
theorem copyIn_room (pre src tail : Block) (room : Nat) {i : Nat} {n : Int} (hi : i = pre.length)
    (hn : n = src.length) (hroom : src.length ≤ room) :
    (pre ++ malloc room).copyIn i (src ++ tail) n =
      .ok (pre ++ src ++ malloc (room - src.length)) := by
  obtain ⟨k, rfl⟩ : ∃ k, room = src.length + k := ⟨room - src.length, by omega⟩
  rw [copyIn_append pre src tail k hi hn, Nat.add_sub_cancel_left]

theorem copyIn_all (pre src : Block) (room : Nat) {i : Nat} {n : Int} (hi : i = pre.length)
    (hn : n = src.length) (hroom : src.length ≤ room) :
    (pre ++ malloc room).copyIn i src n = .ok (pre ++ src ++ malloc (room - src.length)) := by
  have hcopy := copyIn_room pre src [] room hi hn hroom
  rwa [List.append_nil] at hcopy

theorem alloc_natCast (n : Nat) : alloc n = .ok (malloc n) := by
  unfold alloc
  rw [if_neg (by omega), Int.toNat_natCast]

theorem mallocPtrs_natCast (n : Nat) : mallocPtrs n = .ok (malloc (n * pointerSize)) := by
  unfold mallocPtrs
  rw [← Int.natCast_mul, alloc_natCast]

/-- Only a block that was written whole holds bytes everywhere. -/
theorem part_eq_map {pre out : List UInt8} {k : Nat} (h : part pre k = out.map some) :
    pre = out ∧ k = 0 := by
  have hwritten := congrArg written h
  have hlen := congrArg List.length h
  rw [← part_zero, written_part, written_part] at hwritten
  rw [length_part, List.length_map] at hlen
  obtain rfl : k = 0 := by omega
  rw [part_zero] at h
  exact ⟨List.map_inj_right (fun _ _ => Option.some.inj) |>.1 h, rfl⟩

theorem store_part (pre : List UInt8) (k : Nat) (x : UInt8) :
    (part pre (k + 1)).store pre.length x = .ok (part (pre ++ [x]) k) := by
  have hlt : pre.length < (part pre (k + 1)).length := by simp
  unfold store
  rw [if_pos hlt]
  simp [part, List.replicate_succ]

/-- The bytes that were written. -/
theorem take_part (pre : List UInt8) (k : Nat) : (part pre k).take pre.length = pre.map some := by
  simp [part]

/-- The second of two stores to one cell is what counts. -/
theorem store_store (b : Block) (i : Nat) (x y : UInt8) :
    (b.store i x >>= fun b => b.store i y) = b.store i y := by
  by_cases h : i < b.length
  · have hset : i < (b.set i (some x)).length := by rw [List.length_set]; exact h
    rw [store, if_pos h, ok_bind, store, if_pos hset, List.set_set, store, if_pos h]
  · rw [store, if_neg h, error_bind, store, if_neg h]

theorem store_end (b : Block) {i : Nat} (h : b.length ≤ i) (x : UInt8) :
    b.store i x = .error .writeOut := by
  unfold store
  rw [if_neg (by omega)]

theorem bytes_part (junk : Nat → UInt8) (pre : List UInt8) (k : Nat) :
    ∃ tail : List UInt8, tail.length = k ∧ (part pre k).bytes junk = pre ++ tail := by
  refine ⟨((List.replicate k (none : Option UInt8)).zipIdx pre.length).map
    (fun c => c.1.getD (junk c.2)), by simp, ?_⟩
  have hpre : ∀ (l : List UInt8) (n : Nat),
      ((l.map some).zipIdx n).map (fun c => c.1.getD (junk c.2)) = l := by
    intro l
    induction l with
    | nil => intro n; rfl
    | cons x l ih => intro n; simp [List.zipIdx_cons, ih]
  simp [bytes, part, List.zipIdx_append, hpre]

end Block

/-! ### Sequential writers -/

/-- An encoder's state: the block it fills and its cursor. -/
structure Cursor where
  buf : Block
  i : Nat
  deriving DecidableEq, Repr

abbrev Enc (α : Type) := StateT Cursor (Except Fault) α

namespace Enc

/-- `buf[i] = x` -/
def poke (x : UInt8) : Enc Unit := fun s => do
  let b ← s.buf.store s.i x
  pure ((), { s with buf := b })

/-- `buf[i++] = x` -/
def put (x : UInt8) : Enc Unit := fun s => do
  let b ← s.buf.store s.i x
  pure ((), ⟨b, s.i + 1⟩)

/-- `memcpy(&buf[i], xs, n); i += n`, where `xs` has `n` bytes. -/
def copy : List UInt8 → Enc Unit
  | [] => pure ()
  | x :: xs => do put x; copy xs

/-- `if (p) c;` -/
def when (p : Prop) [Decidable p] (c : Enc Unit) : Enc Unit := if p then c else pure ()

/-- A computation that does not touch the block. -/
def lift {α : Type} (x : Run α) : Enc α := fun s => x.map (·, s)

/-- Run an encoder on a fresh block of `n` bytes. -/
def runOn (n : Nat) (c : Enc Unit) : Run Cursor := do
  let r ← c ⟨Block.malloc n, 0⟩
  pure r.2

/-- The block an encoder returns. -/
def blockOf (n : Nat) (c : Enc Unit) : Run Block := do
  let r ← runOn n c
  pure r.buf

theorem bind_eq_ok {α β : Type} {x : Enc α} {f : α → Enc β} {s : Cursor} {r : β × Cursor} :
    (x >>= f) s = .ok r ↔ ∃ a s', x s = .ok (a, s') ∧ f a s' = .ok r := by
  show (x s >>= fun p => f p.1 p.2) = .ok r ↔ _
  rw [Mem.bind_eq_ok, Prod.exists]

/-- A last write leaves the same block whether or not it advances the cursor. -/
theorem blockOf_poke (n : Nat) (c : Enc Unit) (x : UInt8) :
    blockOf n (do c; poke x) = blockOf n (do c; put x) := by
  show (((c ⟨Block.malloc n, 0⟩ >>= fun r => poke x r.2) >>= _) >>= _) =
    (((c ⟨Block.malloc n, 0⟩ >>= fun r => put x r.2) >>= _) >>= _)
  cases c ⟨Block.malloc n, 0⟩ with
  | error e => rfl
  | ok r =>
    simp only [ok_bind, poke, put]
    cases r.2.buf.store r.2.i x <;> rfl

end Enc

/-- The state after the bytes `out` were written into a block of `n` bytes, if they fit. -/
def emitted (n : Nat) (out : List UInt8) : Run Cursor :=
  if out.length ≤ n then .ok ⟨.part out (n - out.length), out.length⟩ else .error .writeOut

theorem emitted_of_le {n : Nat} {out : List UInt8} (h : out.length ≤ n) :
    emitted n out = .ok ⟨.part out (n - out.length), out.length⟩ := if_pos h

theorem emitted_of_lt {n : Nat} {out : List UInt8} (h : n < out.length) :
    emitted n out = .error .writeOut := if_neg (by omega)

/-- The block after the bytes `out` were written into its first cells, if they fit. -/
def emittedBlock (n : Nat) (out : List UInt8) : Run Block :=
  if out.length ≤ n then .ok (.part out (n - out.length)) else .error .writeOut

theorem blockOf_of_runOn {n : Nat} {c : Enc Unit} {out : List UInt8}
    (h : Enc.runOn n c = emitted n out) : Enc.blockOf n c = emittedBlock n out := by
  unfold Enc.blockOf
  rw [h, emitted, emittedBlock]
  split <;> rfl

/-- The bytes fill the block. -/
theorem emittedBlock_full (out : List UInt8) :
    emittedBlock out.length out = .ok (out.map some) := by
  unfold emittedBlock
  rw [if_pos (Nat.le_refl _), Nat.sub_self, Block.part_zero]

/-- `d` begins by writing at the cursor, so a byte left there is lost. -/
def Overwrites (d : Enc Unit) : Prop := ∀ x s, (do Enc.poke x; d) s = d s

namespace Overwrites

theorem poke (y : UInt8) : Overwrites (Enc.poke y) := by
  intro x s
  show (s.buf.store s.i x >>= _) >>= _ = _
  simp only [Enc.poke]
  rw [← Block.store_store s.buf s.i x y]
  cases s.buf.store s.i x <;> rfl

theorem put (y : UInt8) (c : Enc Unit) : Overwrites (do Enc.put y; c) := by
  intro x s
  show (s.buf.store s.i x >>= _) >>= _ = (s.buf.store s.i y >>= _) >>= _
  rw [← Block.store_store s.buf s.i x y]
  cases s.buf.store s.i x <;> rfl

end Overwrites

/-- `c` writes `out` at the cursor and advances it past `out`. -/
def Emits (c : Enc Unit) (out : List UInt8) : Prop :=
  ∀ n pre, (emitted n pre >>= c) = (emitted n (pre ++ out)).map ((), ·)

namespace Emits

theorem put (x : UInt8) : Emits (Enc.put x) [x] := by
  intro n pre
  by_cases h : pre.length ≤ n
  · rw [emitted_of_le h, ok_bind]
    by_cases hlt : pre.length < n
    · obtain ⟨k, hk⟩ : ∃ k, n - pre.length = k + 1 := ⟨n - pre.length - 1, by omega⟩
      rw [emitted_of_le (by simp; omega)]
      have hk' : n - (pre ++ [x]).length = k := by simp; omega
      simp only [Enc.put, hk, hk', Block.store_part, ok_bind, pure_eq_ok, Except.map]
      simp
    · rw [emitted_of_lt (by simp; omega)]
      simp only [Enc.put]
      rw [Block.store_end _ (by simp; omega)]
      rfl
  · rw [emitted_of_lt (by omega), emitted_of_lt (by simp; omega)]
    rfl

theorem nil : Emits (pure ()) [] := by
  intro n pre
  rw [List.append_nil]
  cases emitted n pre <;> rfl

theorem seq {c d : Enc Unit} {o1 o2 : List UInt8} (hc : Emits c o1) (hd : Emits d o2) :
    Emits (do c; d) (o1 ++ o2) := by
  intro n pre
  have h1 := hc n pre
  have h2 := hd n (pre ++ o1)
  rw [← List.append_assoc, ← h2]
  cases he : emitted n pre with
  | error e =>
    rw [he] at h1
    cases h3 : emitted n (pre ++ o1) with
    | error e' => rw [h3] at h1; cases h1; rfl
    | ok s => rw [h3] at h1; cases h1
  | ok s =>
    rw [he, ok_bind] at h1
    simp only [ok_bind]
    show (c s >>= fun r => d r.2) = _
    rw [h1]
    cases emitted n (pre ++ o1) <;> rfl

theorem copy : ∀ xs : List UInt8, Emits (Enc.copy xs) xs
  | [] => nil
  | x :: xs => seq (put x) (copy xs)

theorem lift_ok {α : Type} {x : Run α} {a : α} (hx : x = .ok a) {f : α → Enc Unit}
    {out : List UInt8} (hf : Emits (f a) out) : Emits (do f (← Enc.lift x)) out := by
  subst hx
  exact hf

theorem when {p : Prop} [Decidable p] {c : Enc Unit} {out : List UInt8} (hc : p → Emits c out) :
    Emits (Enc.when p c) (if p then out else []) := by
  by_cases h : p
  · simpa [Enc.when, h] using hc h
  · simpa [Enc.when, h] using nil

theorem of_eq {c : Enc Unit} {o1 o2 : List UInt8} (hc : Emits c o1) (h : o1 = o2) : Emits c o2 :=
  h ▸ hc

/-- An encoder that emits `out` fills a fresh block with it, or faults if it does not fit. -/
theorem run {c : Enc Unit} {out : List UInt8} (h : Emits c out) (n : Nat) :
    Enc.runOn n c = emitted n out := by
  have h0 : c ⟨Block.malloc n, 0⟩ = (emitted n out).map ((), ·) := by
    have h1 := h n []
    rwa [List.nil_append, emitted_of_le (Nat.zero_le n), ok_bind] at h1
  unfold Enc.runOn
  rw [h0]
  cases emitted n out <;> rfl

theorem block {c : Enc Unit} {out : List UInt8} (h : Emits c out) (n : Nat) :
    Enc.blockOf n c = emittedBlock n out := blockOf_of_runOn (h.run n)

end Emits

end IotClient.Mem
