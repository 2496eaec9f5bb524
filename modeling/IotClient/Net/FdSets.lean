import IotClient.Machine.Bits
import IotClient.Machine.Runs
import IotClient.Net.Dyad

/-!
# The sets of `select` (`net/dyad.c`)

`dyad.c` keeps the three sets of sockets that it passes to `select` in arrays of words which grow.
An `FdSets` is a `SelectSet` of the source, with blocks of as many words as the capacity says.

The loop of `select_add` may end with `capacity * FD_SETSIZE` equal to the socket, whose bit is then
the first one behind the block (`fits_iff`). A run of `select_zero` and `select_add` stays inside
the blocks if and only if this never happens, and then a socket is found in a set if and only if it
was added since the sets were emptied (`select_calls`). For the stream of `tcp_client.c` that is
what `Stream.selectSet` says (`has_polled`).
-/

namespace IotClient.Net

open Mem Machine

def fdSetSize : ℕ := 1024

/-- The words of an `fd_set`. -/
def fdSetWords : ℕ := 32

theorem fdSetSize_eq (c : ℕ) : c * fdSetWords * 32 = c * fdSetSize := by
  rw [Nat.mul_assoc]
  rfl

/-- `SELECT_READ`, `SELECT_WRITE` and `SELECT_EXCEPT`. -/
inductive SelectKind where
  | read | write | except
  deriving DecidableEq, Repr

structure FdSets where
  capacity : ℕ
  maxfd : ℕ
  /-- the blocks, which are `NULL` while the capacity is 0 -/
  fds : SelectKind → List (BitVec 32)
  length_fds : ∀ k, (fds k).length = capacity * fdSetWords
  size : capacity = 0 ∨ ∃ j, capacity = 2 ^ j

namespace FdSets

/-- `dyad_selectSet` before the first `dyad_update`. -/
def init : FdSets where
  capacity := 0
  maxfd := 0
  fds _ := []
  length_fds _ := rfl
  size := .inl rfl

variable (s : FdSets)

/-- The capacity after `select_grow`. -/
def grown : ℕ := if s.capacity ≠ 0 then s.capacity <<< 1 else 1

theorem grown_of_ne (h : s.capacity ≠ 0) : s.grown = 2 * s.capacity := by
  rw [grown, if_pos h, Nat.shiftLeft_eq]
  omega

theorem lt_grown : s.capacity < s.grown := by
  by_cases h : s.capacity = 0
  · rw [grown, if_neg (by simp [h]), h]
    decide
  · rw [s.grown_of_ne h]
    omega

def selectGrow : FdSets where
  capacity := s.grown
  maxfd := s.maxfd
  fds k := s.fds k ++ .replicate ((s.grown - s.capacity) * fdSetWords) 0
  length_fds k := by
    have hlt := s.lt_grown
    rw [List.length_append, List.length_replicate, s.length_fds, ← Nat.add_mul]
    congr
    omega
  size := by
    refine .inr ?_
    rcases s.size with h | ⟨j, h⟩
    · exact ⟨0, by rw [grown, if_neg (by simp [h])]; rfl⟩
    · refine ⟨j + 1, ?_⟩
      rw [s.grown_of_ne (by rw [h]; exact Nat.two_pow_pos j |>.ne'), h, Nat.pow_succ]
      omega

def selectZero : FdSets :=
  if s.capacity = 0 then s else {
    capacity := s.capacity
    maxfd := 0
    fds _ := .replicate (s.capacity * fdSetWords) 0
    length_fds _ := List.length_replicate
    size := s.size }

/-- The loop of `select_add`. -/
def growFor (s : FdSets) (fd : ℕ) : FdSets :=
  if s.capacity * fdSetSize < fd then s.selectGrow.growFor fd else s
termination_by fd - s.capacity * fdSetSize
decreasing_by
  have hlt : s.capacity * fdSetSize < s.selectGrow.capacity * fdSetSize :=
    Nat.mul_lt_mul_of_pos_right s.lt_grown (by decide)
  omega

/-- The block with a bit set. -/
def orBit (k : SelectKind) (fd : ℕ) (ws : List (BitVec 32)) (h : setBit (s.fds k) fd = some ws) :
    FdSets where
  capacity := s.capacity
  maxfd := if fd > s.maxfd then fd else s.maxfd
  fds j := if j = k then ws else s.fds j
  length_fds j := by
    split
    · next hj =>
      subst hj
      rw [length_setBit h, s.length_fds]
    · exact s.length_fds j
  size := s.size

def selectAdd (k : SelectKind) (fd : ℕ) : Run FdSets :=
  match h : setBit ((s.growFor fd).fds k) fd with
  | some ws => .ok ((s.growFor fd).orBit k fd ws h)
  | none => .error .writeOut

def selectHas (k : SelectKind) (fd : ℕ) : Run Bool :=
  if s.maxfd < fd then .ok false
  else match hasBit? (s.fds k) fd with
    | some b => .ok b
    | none => .error .readOut

end FdSets

inductive SelectCall where
  | zero
  | add (k : SelectKind) (fd : ℕ)

def FdSets.step (s : FdSets) : SelectCall → Run FdSets
  | .zero => .ok s.selectZero
  | .add k fd => s.selectAdd k fd

/-- The bit of the socket is in the block that the loop leaves. -/
def FdSets.Fits (s : FdSets) : SelectCall → Prop
  | .zero => True
  | .add _ fd => ¬(fd = 0 ∧ s.capacity = 0) ∧ ∀ j, s.capacity ≤ 2 ^ j → fd ≠ 2 ^ j * fdSetSize

/-- What the sets are for: the sockets added since they were emptied. -/
def SelectCall.effect (added : SelectKind → List ℕ) : SelectCall → SelectKind → List ℕ
  | zero, _ => []
  | add k fd, j => if j = k then fd :: added j else added j

def addedBy (calls : List SelectCall) : SelectKind → List ℕ :=
  calls.foldl SelectCall.effect fun _ => []

namespace FdSets

variable {s t : FdSets} {k : SelectKind} {fd n : ℕ}

/-! ### Growing -/

theorem hasBit_selectGrow : hasBit (s.selectGrow.fds k) n = hasBit (s.fds k) n :=
  hasBit_append_zeros _

theorem le_growFor (s : FdSets) (fd : ℕ) : fd ≤ (s.growFor fd).capacity * fdSetSize := by
  fun_induction growFor s fd with
  | case1 s hlt ih => exact ih
  | case2 s hlt => omega

theorem capacity_le_growFor (s : FdSets) (fd : ℕ) : s.capacity ≤ (s.growFor fd).capacity := by
  fun_induction growFor s fd with
  | case1 s hlt ih => exact Nat.le_trans (Nat.le_of_lt s.lt_grown) ih
  | case2 s hlt => exact Nat.le_refl _

theorem maxfd_growFor (s : FdSets) (fd : ℕ) : (s.growFor fd).maxfd = s.maxfd := by
  fun_induction growFor s fd with
  | case1 s hlt ih => exact ih
  | case2 s hlt => rfl

theorem hasBit_growFor (s : FdSets) (fd : ℕ) :
    hasBit ((s.growFor fd).fds k) n = hasBit (s.fds k) n := by
  fun_induction growFor s fd with
  | case1 s hlt ih => exact ih.trans hasBit_selectGrow
  | case2 s hlt => rfl

/-- The capacity is doubled no further than it has to be. -/
theorem growFor_le {j : ℕ} (hs : s.capacity ≤ 2 ^ j) (hfd : fd ≤ 2 ^ j * fdSetSize) :
    (s.growFor fd).capacity ≤ 2 ^ j := by
  fun_induction growFor s fd with
  | case2 s hlt => exact hs
  | case1 s hlt ih =>
    apply ih
    have hlt : s.capacity < 2 ^ j :=
      Nat.lt_of_mul_lt_mul_right (Nat.lt_of_lt_of_le hlt hfd)
    change s.grown ≤ 2 ^ j
    rcases s.size with h | ⟨i, h⟩
    · rw [grown, if_neg (by simp [h])]
      exact Nat.one_le_two_pow
    · have hi : i + 1 ≤ j := by
        rw [h] at hlt
        exact (Nat.pow_lt_pow_iff_right (by decide)).1 hlt
      rw [s.grown_of_ne (by rw [h]; exact (Nat.two_pow_pos i).ne'), h, Nat.mul_comm,
        ← Nat.pow_succ]
      exact Nat.pow_le_pow_right (by decide) hi

/-- The loop ends at the socket itself. -/
theorem growFor_eq_iff : fd = (s.growFor fd).capacity * fdSetSize ↔
    fd = 0 ∧ s.capacity = 0 ∨ ∃ j, s.capacity ≤ 2 ^ j ∧ fd = 2 ^ j * fdSetSize := by
  have hpos : 0 < fdSetSize := by decide
  constructor
  · intro h
    rcases (s.growFor fd).size with hsize | ⟨j, hsize⟩
    · have hle := s.capacity_le_growFor fd
      rw [hsize, Nat.zero_mul] at h
      exact .inl ⟨h, by omega⟩
    · refine .inr ⟨j, ?_, by rwa [← hsize]⟩
      rw [← hsize]
      exact s.capacity_le_growFor fd
  · rintro (⟨rfl, h⟩ | ⟨j, hj, rfl⟩)
    · rw [growFor, if_neg (by simp), h, Nat.zero_mul]
    · have hle := growFor_le hj (Nat.le_refl (2 ^ j * fdSetSize))
      have hge := Nat.le_of_mul_le_mul_right (s.le_growFor (2 ^ j * fdSetSize)) hpos
      rw [Nat.le_antisymm hle hge]

/-! ### One call -/

theorem exists_orBit (s : FdSets) (k : SelectKind) (fd : ℕ) :
    (∃ ws, setBit (s.fds k) fd = some ws) ↔ fd < s.capacity * fdSetSize := by
  rw [setBit_eq_some_iff (by decide), s.length_fds, fdSetSize_eq]

theorem selectAdd_eq_ok (h : s.selectAdd k fd = .ok t) :
    fd < t.capacity * fdSetSize ∧ t.maxfd = max s.maxfd fd ∧
      ∀ j n, hasBit (t.fds j) n = (hasBit (s.fds j) n || decide (j = k ∧ n = fd)) := by
  unfold selectAdd at h
  split at h
  · next ws hws =>
    cases h
    have hfd : fd < (s.growFor fd).capacity * fdSetSize := (exists_orBit _ k fd).1 ⟨ws, hws⟩
    refine ⟨hfd, ?_, fun j n => ?_⟩
    · change (if fd > (s.growFor fd).maxfd then fd else (s.growFor fd).maxfd) = _
      rw [maxfd_growFor]
      split <;> omega
    · change hasBit (if j = k then ws else _) n = _
      by_cases hj : j = k
      · subst hj
        rw [if_pos rfl, hasBit_setBit (by decide) hws, hasBit_growFor]
        simp
      · rw [if_neg hj, hasBit_growFor]
        simp [hj]
  · cases h

/-- A call stays inside the blocks. -/
theorem fits_iff (s : FdSets) (call : SelectCall) : (∃ t, s.step call = .ok t) ↔ s.Fits call := by
  cases call with
  | zero => exact iff_of_true ⟨_, rfl⟩ trivial
  | add k fd =>
    have hstep : (∃ t, s.selectAdd k fd = .ok t) ↔
        ∃ ws, setBit ((s.growFor fd).fds k) fd = some ws := by
      unfold selectAdd
      split
      · next ws hws => exact iff_of_true ⟨_, rfl⟩ ⟨ws, hws⟩
      · next hws =>
        refine iff_of_false ?_ ?_
        · rintro ⟨_, h⟩
          cases h
        · rintro ⟨ws, h⟩
          rw [hws] at h
          cases h
    have hfits : s.Fits (.add k fd) ↔ ¬(fd = 0 ∧ s.capacity = 0 ∨
        ∃ j, s.capacity ≤ 2 ^ j ∧ fd = 2 ^ j * fdSetSize) := by
      simp only [Fits, not_or, not_exists, not_and, ne_eq]
    have hle := s.le_growFor fd
    change (∃ t, s.selectAdd k fd = .ok t) ↔ _
    rw [hstep, exists_orBit, hfits, ← growFor_eq_iff]
    omega

/-! ### Runs -/

/-- The sets hold what was added, and their sockets are within the blocks. -/
structure Holds (s : FdSets) (added : SelectKind → List ℕ) : Prop where
  bits : ∀ k n, hasBit (s.fds k) n = true ↔ n ∈ added k
  le_maxfd : ∀ k n, n ∈ added k → n ≤ s.maxfd
  maxfd_lt : s.maxfd = 0 ∨ s.maxfd < s.capacity * fdSetSize

variable {added : SelectKind → List ℕ} {call : SelectCall} {calls : List SelectCall}

theorem holds_init : Holds init fun _ => [] where
  bits k n := by simp [init, hasBit, hasBit?]
  le_maxfd k n h := absurd h List.not_mem_nil
  maxfd_lt := .inl rfl

theorem Holds.zero (h : Holds s added) : Holds s.selectZero fun _ => [] := by
  have hfds (k : SelectKind) : s.selectZero.fds k = .replicate (s.capacity * fdSetWords) 0 := by
    unfold selectZero
    split
    · next hc =>
      rw [hc, Nat.zero_mul]
      exact List.eq_nil_of_length_eq_zero (by rw [s.length_fds, hc, Nat.zero_mul])
    · rfl
  have hmaxfd : s.selectZero.maxfd = 0 := by
    unfold selectZero
    split
    · next hc =>
      have hlt := h.maxfd_lt
      rw [hc] at hlt
      omega
    · rfl
  constructor
  · intro k n
    rw [hfds]
    exact iff_of_false (by simp [hasBit_zeros]) List.not_mem_nil
  · intro k n hn
    cases hn
  · exact .inl hmaxfd

theorem Holds.add (h : Holds s added) (ht : s.selectAdd k fd = .ok t) :
    Holds t (SelectCall.effect added (.add k fd)) := by
  obtain ⟨hfd, hmaxfd, hbits⟩ := selectAdd_eq_ok ht
  have hmem (j : SelectKind) (n : ℕ) :
      n ∈ SelectCall.effect added (.add k fd) j ↔ n ∈ added j ∨ j = k ∧ n = fd := by
    change n ∈ (if j = k then fd :: added j else added j) ↔ _
    by_cases hj : j = k
    · simp [hj, or_comm]
    · simp [hj]
  constructor
  · intro j n
    rw [hmem, hbits, Bool.or_eq_true, h.bits, decide_eq_true_eq]
  · intro j n hn
    rw [hmaxfd]
    rcases (hmem j n).1 hn with hn | ⟨-, rfl⟩
    · exact Nat.le_trans (h.le_maxfd j n hn) (Nat.le_max_left _ _)
    · exact Nat.le_max_right _ _
  · have hlt := h.maxfd_lt
    have hcap : s.capacity ≤ t.capacity := by
      unfold selectAdd at ht
      split at ht
      · cases ht
        exact s.capacity_le_growFor fd
      · cases ht
    have hmul : s.capacity * fdSetSize ≤ t.capacity * fdSetSize := Nat.mul_le_mul_right _ hcap
    omega

theorem Holds.step (h : Holds s added) (ht : s.step call = .ok t) :
    Holds t (SelectCall.effect added call) := by
  cases call with
  | zero =>
    cases ht
    exact h.zero
  | add k fd => exact h.add ht

theorem Holds.run (h : Holds s added) (ht : Machine.run FdSets.step s calls = .ok t) :
    Holds t (calls.foldl SelectCall.effect added) := by
  induction calls generalizing s added with
  | nil =>
    cases ht
    exact h
  | cons call calls ih =>
    obtain ⟨u, hu, ht⟩ := run_cons_eq_ok.1 ht
    exact ih (h.step hu) ht

/-- A lookup in sets that hold something. -/
theorem Holds.has (h : Holds s added) (k : SelectKind) (hfd : s.capacity = 0 → fd ≠ 0) :
    ∃ b, s.selectHas k fd = .ok b ∧ (b = true ↔ fd ∈ added k) := by
  unfold selectHas
  by_cases hlt : s.maxfd < fd
  · rw [if_pos hlt]
    refine ⟨false, rfl, iff_of_false Bool.false_ne_true fun hn => ?_⟩
    have hle := h.le_maxfd k fd hn
    omega
  · have hmaxfd := h.maxfd_lt
    have hin : fd < (s.fds k).length * 32 := by
      rw [s.length_fds, fdSetSize_eq]
      rcases hmaxfd with hmaxfd | hmaxfd
      · have hc : s.capacity ≠ 0 := fun hc => hfd hc (by omega)
        have hpos : 0 < s.capacity * fdSetSize :=
          Nat.mul_pos (Nat.pos_of_ne_zero hc) (by decide)
        omega
      · omega
    rw [if_neg hlt, hasBit?_eq (by decide) hin]
    exact ⟨_, rfl, h.bits k fd⟩

/-- A run of the calls goes outside the blocks exactly when a socket does not fit, and else a socket
is in a set when it was added to it since they were emptied. -/
theorem select_calls (calls : List SelectCall) :
    ((∃ s, Machine.run FdSets.step init calls = .ok s) ↔ Each FdSets.step Fits init calls) ∧
    ∀ s, Machine.run FdSets.step init calls = .ok s → ∀ k fd, (s.capacity = 0 → fd ≠ 0) →
      ∃ b, s.selectHas k fd = .ok b ∧ (b = true ↔ fd ∈ addedBy calls k) :=
  ⟨run_iff_each fits_iff, fun _ hs k _ hfd => (holds_init.run hs).has k hfd⟩

/-! ### One `dyad_update` -/

/-- What `dyad_update` does to the sets before `select`, for a stream with the socket `fd`. -/
def selectCalls (stream : Stream) (fd : ℕ) : List SelectCall :=
  .zero :: match stream.state with
    | .connected => .add .read fd ::
      if !stream.ready || stream.writeBuffer ≠ [] then [.add .write fd] else []
    | .connecting => [.add .write fd, .add .except fd]
    | .closed => []

def ofSet (sets : SelectSet) : SelectKind → Bool
  | .read => sets.read
  | .write => sets.write
  | .except => sets.except

theorem addedBy_selectCalls (calls : List SelectCall) (stream : Stream) (fd : ℕ) :
    addedBy (calls ++ selectCalls stream fd) =
      fun k => if ofSet stream.selectSet k then [fd] else [] := by
  obtain ⟨state, ready, written, writeBuffer⟩ := stream
  unfold addedBy selectCalls
  rw [List.foldl_append, List.foldl_cons]
  funext k
  cases state with
  | closed | connecting => cases k <;> rfl
  | connected =>
    by_cases hw : (!ready || writeBuffer ≠ []) = true
    · simp only [hw, if_true]
      cases k with
      | read | except => rfl
      | write => exact (if_pos hw).symm
    · simp only [hw]
      cases k with
      | read | except => rfl
      | write => exact (if_neg hw).symm

/-- Whatever the sets held before, the socket of the stream is found in those of
`Stream.selectSet`. -/
theorem has_polled {stream : Stream}
    (ht : Machine.run FdSets.step init (calls ++ selectCalls stream fd) = .ok t)
    (hstate : stream.state ≠ .closed) (k : SelectKind) :
    t.selectHas k fd = .ok (ofSet stream.selectSet k) := by
  have hheld := holds_init.run ht
  change Holds t (addedBy (calls ++ selectCalls stream fd)) at hheld
  rw [addedBy_selectCalls] at hheld
  have hsome : ∃ j, ofSet stream.selectSet j = true := by
    cases hs : stream.state with
    | closed => exact absurd hs hstate
    | connecting => exact ⟨.write, by simp [ofSet, Stream.selectSet, hs]⟩
    | connected => exact ⟨.read, by simp [ofSet, Stream.selectSet, hs]⟩
  have hcap : t.capacity = 0 → fd ≠ 0 := by
    intro hc
    obtain ⟨j, hj⟩ := hsome
    have hbit : hasBit (t.fds j) fd = true := (hheld.bits j fd).2 (by simp [hj])
    have hlength := t.length_fds j
    rw [hc, Nat.zero_mul] at hlength
    rw [List.eq_nil_of_length_eq_zero hlength] at hbit
    cases hbit
  obtain ⟨b, hb, hmem⟩ := hheld.has k hcap
  have hbk : b = true ↔ ofSet stream.selectSet k = true := by
    rw [hmem]
    split
    · next hk => simp [hk]
    · next hk => simp [hk]
  rw [hb, Bool.eq_iff_iff.2 hbk]

/-- A socket that fits whatever the capacity is. -/
theorem fits_small (s : FdSets) (k : SelectKind) (h0 : fd ≠ 0) (h : fd < fdSetSize) :
    s.Fits (.add k fd) := by
  refine ⟨fun hs => h0 hs.1, fun j _ hj => ?_⟩
  have hpos := Nat.two_pow_pos j
  have hle : 1 * fdSetSize ≤ 2 ^ j * fdSetSize := Nat.mul_le_mul_right _ hpos
  omega

theorem has_polled_connecting : ∃ t,
    Machine.run FdSets.step init ([] ++ selectCalls ⟨.connecting, false, false, []⟩ 3) = .ok t ∧
    ∀ k, t.selectHas k 3 = .ok (ofSet (Stream.selectSet ⟨.connecting, false, false, []⟩) k) := by
  have hfits : ∀ call ∈ [] ++ selectCalls ⟨.connecting, false, false, []⟩ 3, ∀ s : FdSets,
      s.Fits call := by
    intro call hcall s
    cases call with
    | zero => trivial
    | add k fd =>
      simp only [selectCalls, List.nil_append, List.mem_cons, SelectCall.add.injEq, reduceCtorEq,
        List.not_mem_nil, or_false, false_or] at hcall
      obtain rfl : fd = 3 := hcall.elim And.right And.right
      exact s.fits_small k (by decide) (by decide)
  obtain ⟨t, ht⟩ := (run_iff_each fits_iff).2 (each_of_forall hfits)
  exact ⟨t, ht, has_polled ht (by decide)⟩

end FdSets

end IotClient.Net
