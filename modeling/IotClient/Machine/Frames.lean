import IotClient.Mem.Run

/-!
# Cutting a read buffer into frames

A receiver that gets several frames in one buffer looks up the size of the frame at its
cursor, hands the frame on and advances the cursor, until it is at the end (`cutLoop`). What
the frame is handed to is any state transformer, so that `HandsOver` says which pieces are
handed on, in which order, and that nothing else is done.

The pieces are the frames exactly when the size looked up at the start of each frame is its
length (`cutLoop_eq`, `sizesRight_of_cutLoop`). The loop moves its cursor on in every round
exactly when the sizes cut the buffer into pieces, right or not (`advances_iff_cuts`).
-/

namespace IotClient.Machine

open Mem

/-! ### Memory -/

/-- What stands in memory from an address on. -/
abbrev Memory := Nat → UInt8

namespace Memory

/-- Bytes, and what stands behind them. -/
def of (bytes : List UInt8) (behind : Memory) : Memory := fun k => bytes[k]?.getD (behind k)

def slice (m : Memory) (i n : Nat) : List UInt8 := (List.range n).map fun k => m (i + k)

/-- The bytes `bs` stand at `i`. -/
def At (m : Memory) (i : Nat) (bs : List UInt8) : Prop := m.slice i bs.length = bs

variable {m : Memory} {i n : Nat} {bs cs : List UInt8} {x : UInt8}

@[simp] theorem length_slice : (m.slice i n).length = n := by simp [slice]

theorem slice_succ : m.slice i (n + 1) = m i :: m.slice (i + 1) n := by
  simp only [slice, List.range_succ_eq_map, List.map_cons, List.map_map, Nat.add_zero]
  congr 1
  apply List.map_congr_left
  intro k _
  show m (i + (k + 1)) = m (i + 1 + k)
  congr 1
  omega

theorem at_cons : m.At i (x :: bs) ↔ m i = x ∧ m.At (i + 1) bs := by
  rw [At, List.length_cons, slice_succ, List.cons.injEq]
  exact Iff.rfl

theorem at_append : m.At i (bs ++ cs) ↔ m.At i bs ∧ m.At (i + bs.length) cs := by
  induction bs generalizing i with
  | nil => simp [At, slice]
  | cons x bs ih =>
    rw [List.cons_append, at_cons, at_cons, ih, and_assoc, List.length_cons,
      show i + 1 + bs.length = i + (bs.length + 1) by omega]

theorem at_of (bs : List UInt8) (behind : Memory) : (of bs behind).At 0 bs := by
  apply List.ext_getElem
  · exact length_slice
  · intro k h1 h2
    simp [slice, of, h2]

end Memory

/-! ### Handing pieces on -/

/-- A reader hands on the pieces, in order, and does nothing else. -/
def HandsOver (reader : (σ : Type) → (σ → List UInt8 → Run σ) → σ → Run σ)
    (pieces : List (List UInt8)) : Prop :=
  ∀ σ hand s, reader σ hand s = pieces.foldlM hand s

/-- Keeps every piece. -/
def keep (log : List (List UInt8)) (piece : List UInt8) : Run (List (List UInt8)) :=
  .ok (log ++ [piece])

theorem foldlM_keep (pieces : List (List UInt8)) :
    ∀ log, pieces.foldlM keep log = .ok (log ++ pieces) := by
  induction pieces with
  | nil => intro log; rw [List.append_nil]; rfl
  | cons p ps ih =>
    intro log
    rw [List.foldlM_cons, keep, ok_bind, ih, List.append_assoc]
    rfl

/-- What a reader hands on, it can be asked for. -/
theorem HandsOver.kept {reader : (σ : Type) → (σ → List UInt8 → Run σ) → σ → Run σ}
    {pieces : List (List UInt8)} (h : HandsOver reader pieces) : reader _ keep [] = .ok pieces := by
  rw [h, foldlM_keep, List.nil_append]

/-- Pieces with a byte each are no more than their bytes. -/
theorem length_le_flatten {fs : List (List UInt8)} (hpos : ∀ f ∈ fs, 0 < f.length) :
    fs.length ≤ fs.flatten.length := by
  induction fs with
  | nil => exact Nat.le_refl 0
  | cons f fs ih =>
    have hf := hpos f List.mem_cons_self
    have hfs := ih fun g hg => hpos g (List.mem_cons_of_mem f hg)
    rw [List.flatten_cons, List.length_append, List.length_cons]
    omega

/-! ### The loop -/

section Loop

variable {σ : Type} (buf : Memory) (readable : Nat) (size : Nat → Int)

/-- A `do` loop with its cursor at `i`, where a frame of `length` bytes is expected. -/
def cutLoop (hand : σ → List UInt8 → Run σ) : Nat → Nat → Int → σ → Run σ
  | 0, _, _, _ => .error .fuel
  | fuel + 1, i, length, s =>
    if length < 0 then .error .negativeSize
    else do
      let s ← hand s (buf.slice i length.toNat)
      let i := i + length.toNat
      if i < readable then cutLoop hand fuel i (size i) s else pure s

/-- The size looked up at the start of each frame is its length. -/
def SizesRight : Nat → List (List UInt8) → Prop
  | _, [] => True
  | i, f :: fs => size i = f.length ∧ SizesRight (i + f.length) fs

variable {buf readable size}

/-- One round of the loop, over a frame. -/
theorem cutLoop_frame {hand : σ → List UInt8 → Run σ} {fuel i : Nat} {f : List UInt8} {s : σ}
    (hat : buf.At i f) :
    cutLoop buf readable size hand (fuel + 1) i f.length s = (do
      let s ← hand s f
      if i + f.length < readable then
        cutLoop buf readable size hand fuel (i + f.length) (size (i + f.length)) s
      else pure s) := by
  have hslice : buf.slice i ((f.length : Nat) : Int).toNat = f := hat
  rw [cutLoop, if_neg (by omega), hslice]
  rfl

/-- With the right sizes the loop hands on the frames, the rounds being enough. -/
theorem cutLoop_eq (hand : σ → List UInt8 → Run σ) (fs : List (List UInt8)) :
    ∀ {f : List UInt8} {fuel i : Nat} {s : σ}, (∀ g ∈ fs, 0 < g.length) →
      buf.At i (f ++ fs.flatten) → readable = i + (f ++ fs.flatten).length →
      SizesRight size (i + f.length) fs → fs.length < fuel →
      cutLoop buf readable size hand fuel i f.length s = (f :: fs).foldlM hand s := by
  induction fs with
  | nil =>
    intro f fuel i s _ hat hread _ hfuel
    obtain ⟨fuel, rfl⟩ : ∃ k, fuel = k + 1 := ⟨fuel - 1, by simp at hfuel; omega⟩
    rw [cutLoop_frame (Memory.at_append.mp hat).1]
    have hend : ¬ i + f.length < readable := by simp [hread]
    simp only [if_neg hend]
    rfl
  | cons g fs ih =>
    intro f fuel i s hpos hat hread hsize hfuel
    obtain ⟨fuel, rfl⟩ : ∃ k, fuel = k + 1 := ⟨fuel - 1, by simp at hfuel; omega⟩
    have hg := hpos g List.mem_cons_self
    rw [List.flatten_cons] at hat hread
    obtain ⟨hf, hrest⟩ := Memory.at_append.mp hat
    rw [cutLoop_frame hf]
    have hmore : i + f.length < readable := by
      rw [hread, List.length_append, List.length_append]; omega
    simp only [if_pos hmore, hsize.1]
    rw [List.foldlM_cons]
    congr 1
    funext s
    refine ih (fun h hh => hpos h (List.mem_cons_of_mem g hh)) hrest ?_ hsize.2 ?_
    · rw [hread, List.length_append, Nat.add_assoc]
    · simp only [List.length_cons] at hfuel; omega

/-- The loop only adds to what was kept, and first the piece at the cursor. -/
theorem cutLoop_keep {fuel : Nat} : ∀ {i : Nat} {length : Int} {log log' : List (List UInt8)},
    cutLoop buf readable size keep fuel i length log = .ok log' →
      ∃ more, log' = log ++ buf.slice i length.toNat :: more := by
  induction fuel with
  | zero => intro i length log log' h; cases h
  | succ fuel ih =>
    intro i length log log' h
    unfold cutLoop at h
    split at h
    · cases h
    · simp only [keep, ok_bind] at h
      split at h
      · obtain ⟨more, rfl⟩ := ih h
        exact ⟨_ :: more, by rw [List.append_assoc]; rfl⟩
      · cases h
        exact ⟨[], rfl⟩

/-- A frame that was kept has the length that was expected, and the loop goes on behind it. -/
theorem cutLoop_kept {fuel i : Nat} {length : Int} {f : List UInt8} {log fs : List (List UInt8)}
    (h : cutLoop buf readable size keep (fuel + 1) i length log = .ok (log ++ f :: fs)) :
    length = f.length ∧ (fs ≠ [] → cutLoop buf readable size keep fuel (i + f.length)
      (size (i + f.length)) (log ++ [f]) = .ok (log ++ [f] ++ fs)) := by
  obtain ⟨more, hlog⟩ := cutLoop_keep h
  have hf : buf.slice i length.toNat = f := by
    have heq := List.append_cancel_left hlog
    exact (List.cons.inj heq).1.symm
  have hlen : length.toNat = f.length := by rw [← hf, Memory.length_slice]
  rw [hlen] at hf
  unfold cutLoop at h
  split at h
  · cases h
  case isFalse hneg =>
    refine ⟨by omega, fun hne => ?_⟩
    simp only [keep, ok_bind, hlen, hf] at h
    split at h
    · rw [h, List.append_assoc]
      rfl
    · simp only [pure_eq_ok, Except.ok.injEq, List.append_cancel_left_eq] at h
      exact absurd (List.cons.inj h).2.symm hne

/-- If the frames are what the loop hands on, the sizes were right. -/
theorem sizesRight_of_cutLoop (fs : List (List UInt8)) :
    ∀ {f : List UInt8} {fuel i : Nat} {length : Int} (log : List (List UInt8)),
      cutLoop buf readable size keep fuel i length log = .ok (log ++ f :: fs) →
      length = f.length ∧ SizesRight size (i + f.length) fs := by
  induction fs with
  | nil =>
    intro f fuel i length log h
    cases fuel with
    | zero => cases h
    | succ fuel => exact ⟨(cutLoop_kept h).1, trivial⟩
  | cons g fs ih =>
    intro f fuel i length log h
    cases fuel with
    | zero => cases h
    | succ fuel =>
      obtain ⟨hlen, hnext⟩ := cutLoop_kept h
      exact ⟨hlen, ih _ (hnext (List.cons_ne_nil g fs))⟩

/-- The loop does not run out of rounds when every frame it expects has a byte. -/
theorem cutLoop_ne_fuel {hand : σ → List UInt8 → Run σ} (hhand : ∀ s x, hand s x ≠ .error .fuel)
    (hsize : ∀ i, 0 < size i) {fuel : Nat} :
    ∀ {i : Nat} {length : Int} {s : σ}, 0 < length → i < readable → readable ≤ i + fuel →
      cutLoop buf readable size hand fuel i length s ≠ .error .fuel := by
  induction fuel with
  | zero => intro i length s _ hi hfuel; omega
  | succ fuel ih =>
    intro i length s hlen hi hfuel h
    unfold cutLoop at h
    rw [if_neg (by omega)] at h
    cases hs : hand s (buf.slice i length.toNat) with
    | error e =>
      rw [hs] at h
      cases h
      exact hhand _ _ hs
    | ok s' =>
      simp only [hs, ok_bind] at h
      split at h
      case isTrue hmore => exact ih (hsize _) hmore (by omega) h
      case isFalse => cases h

end Loop

/-! ### Rounds -/

section Rounds

variable (readable limit : Nat) (size : Nat → Int)

/-- The cursors at which rounds of the loop start, every piece being dealt with. -/
inductive Round (start : Nat) : Nat → Prop where
  | first : Round start start
  | next {i : Nat} : Round start i → 0 ≤ size i → i + (size i).toNat < readable →
      Round start (i + (size i).toNat)

/-- The round at a cursor moves it on, to a number below `limit`. -/
def Advances (i : Nat) : Prop := 0 < size i ∧ i + (size i).toNat < limit

/-- From a cursor on, the sizes cut the readable bytes into pieces of these lengths; the last
piece may reach behind them. -/
inductive Cuts : Nat → List Nat → Prop where
  | last {i l : Nat} : size i = l → 0 < l → readable ≤ i + l → i + l < limit → Cuts i [l]
  | more {i l : Nat} {ls : List Nat} : size i = l → 0 < l → i + l < readable → Cuts (i + l) ls →
      Cuts i (l :: ls)

variable {readable limit size} {start i : Nat} {ls : List Nat}

theorem Cuts.lt_limit (h : Cuts readable limit size i ls) : i < limit := by
  induction h with
  | last _ _ _ hlt => omega
  | more _ _ _ _ ih => omega

theorem Cuts.advances (h : Cuts readable limit size i ls) : Advances limit size i := by
  cases h with
  | last hsize hpos _ hlt => exact ⟨by omega, by omega⟩
  | more hsize hpos _ hrest =>
    have hlt := hrest.lt_limit
    exact ⟨by omega, by omega⟩

/-- Every round starts at a piece. -/
theorem Cuts.round (h : Cuts readable limit size start ls) (hround : Round readable size start i) :
    ∃ ms, Cuts readable limit size i ms := by
  induction hround with
  | first => exact ⟨ls, h⟩
  | @next i _ _ hmore ih =>
    obtain ⟨ms, hms⟩ := ih
    cases hms with
    | last hsize _ hend _ => omega
    | @more _ l ms hsize _ _ hrest =>
      have hl : (size i).toNat = l := by omega
      rw [hl]
      exact ⟨ms, hrest⟩

/-- Rounds that move the cursor on cut the readable bytes; the induction is on what is left of
them. -/
theorem cuts_of_advances (h : ∀ i, Round readable size start i → Advances limit size i) :
    ∀ n i, readable ≤ i + n → Round readable size start i →
      ∃ ls, Cuts readable limit size i ls := by
  intro n
  induction n with
  | zero =>
    intro i hle hround
    obtain ⟨hpos, hlt⟩ := h i hround
    exact ⟨[(size i).toNat], .last (by omega) (by omega) (by omega) hlt⟩
  | succ n ih =>
    intro i hle hround
    obtain ⟨hpos, hlt⟩ := h i hround
    rcases Nat.lt_or_ge (i + (size i).toNat) readable with hmore | hend
    · obtain ⟨ls, hls⟩ := ih _ (by omega) (.next hround (by omega) hmore)
      exact ⟨(size i).toNat :: ls, .more (by omega) (by omega) hmore hls⟩
    · exact ⟨[(size i).toNat], .last (by omega) (by omega) hend hlt⟩

/-- All rounds move the cursor on exactly when the sizes cut the readable bytes. -/
theorem advances_iff_cuts : (∀ i, Round readable size start i → Advances limit size i) ↔
    ∃ ls, Cuts readable limit size start ls := by
  refine ⟨fun h => cuts_of_advances h readable start (by omega) .first, ?_⟩
  rintro ⟨ls, hls⟩ i hround
  obtain ⟨ms, hms⟩ := hls.round hround
  exact hms.advances

variable {σ : Type} {buf : Memory} {hand : σ → List UInt8 → Run σ}

/-- A round for every piece is enough. -/
theorem cutLoop_cuts (hhand : ∀ s piece, hand s piece ≠ .error .fuel)
    (h : Cuts readable limit size i ls) :
    ∀ s, cutLoop buf readable size hand ls.length i (size i) s ≠ .error .fuel := by
  induction h with
  | @last i l hsize hpos hend _ =>
    intro s
    rw [List.length_singleton, cutLoop, hsize, if_neg (by omega), Int.toNat_natCast]
    cases hs : hand s (buf.slice i l) with
    | error e => exact fun herror => hhand _ _ (hs.trans herror)
    | ok s' =>
      rw [ok_bind]
      simp only [if_neg (Nat.not_lt.2 hend)]
      exact nofun
  | @more i l ls hsize hpos hmore _ ih =>
    intro s
    rw [List.length_cons, cutLoop, hsize, if_neg (by omega), Int.toNat_natCast]
    cases hs : hand s (buf.slice i l) with
    | error e => exact fun herror => hhand _ _ (hs.trans herror)
    | ok s' =>
      rw [ok_bind]
      simp only [if_pos hmore]
      exact ih s'

/-- At a size of 0 the loop stays where it is. -/
theorem cutLoop_stuck (hhand : ∀ s piece, ∃ s', hand s piece = .ok s') (hsize : size i = 0)
    (hi : i < readable) : ∀ fuel s, cutLoop buf readable size hand fuel i (size i) s = .error .fuel := by
  intro fuel
  induction fuel with
  | zero => exact fun _ => rfl
  | succ fuel ih =>
    intro s
    obtain ⟨s', hs'⟩ := hhand s (buf.slice i 0)
    rw [cutLoop, hsize, if_neg (by omega), Int.toNat_zero, hs', ok_bind]
    simp only [Nat.add_zero, if_pos hi]
    exact ih s'

end Rounds

end IotClient.Machine
