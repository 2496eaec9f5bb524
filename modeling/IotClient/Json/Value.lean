import Mathlib.Algebra.Group.Int.Defs
import IotClient.Mem.Byte

/-!
# JSON values

A JSON value over byte strings, with the members of an object in the order they were added,
and what makes a value one that can be written as JSON text: its strings are UTF-8 without
NUL, its integers fit 64 bits, and the keys of an object are distinct (`Valid`).
-/

namespace IotClient.Json

open Mem

inductive Value where
  | null
  | bool (b : Bool)
  | int (n : Int)
  | str (s : List UInt8)
  | arr (xs : List Value)
  | obj (ms : List (List UInt8 × Value))
  deriving Inhabited

/-- An ASCII name as bytes. -/
def key (s : String) : List UInt8 := s.toList.map fun c => UInt8.ofNat c.toNat

/-! ### UTF-8 -/

/-- The ranges of the bytes that follow a first byte, if it can be one. -/
def utf8Rest (a : UInt8) : Option (List (UInt8 × UInt8)) :=
  if a < 0x80 then some []
  else if a < 0xc2 then none
  else if a < 0xe0 then some [(0x80, 0xbf)]
  else if a = 0xe0 then some [(0xa0, 0xbf), (0x80, 0xbf)]
  else if a = 0xed then some [(0x80, 0x9f), (0x80, 0xbf)]
  else if a < 0xf0 then some [(0x80, 0xbf), (0x80, 0xbf)]
  else if a = 0xf0 then some [(0x90, 0xbf), (0x80, 0xbf), (0x80, 0xbf)]
  else if a < 0xf4 then some [(0x80, 0xbf), (0x80, 0xbf), (0x80, 0xbf)]
  else if a = 0xf4 then some [(0x80, 0x8f), (0x80, 0xbf), (0x80, 0xbf)]
  else none

/-- Whether the bytes go on as UTF-8 when the ranges of the next ones are `expected`. -/
def utf8From : List (UInt8 × UInt8) → List UInt8 → Bool
  | [], [] => true
  | _ :: _, [] => false
  | [], a :: r =>
    match utf8Rest a with
    | some expected => utf8From expected r
    | none => false
  | (lo, hi) :: expected, b :: r => lo ≤ b && b ≤ hi && utf8From expected r

def utf8 (s : List UInt8) : Bool := utf8From [] s

theorem utf8_ascii {s : List UInt8} (h : ∀ b ∈ s, b < 0x80) : utf8 s = true := by
  induction s with
  | nil => rfl
  | cons b s ih =>
    have hb : utf8Rest b = some [] := if_pos (h b List.mem_cons_self)
    rw [utf8, utf8From, hb]
    exact ih fun c hc => h c (List.mem_cons_of_mem b hc)

/-- A string JSON text can hold. -/
def IsText (s : List UInt8) : Prop := utf8 s = true ∧ 0 ∉ s

instance (s : List UInt8) : Decidable (IsText s) := inferInstanceAs (Decidable (_ ∧ _))

theorem isText_ascii {s : List UInt8} (h : ∀ b ∈ s, 0 < b ∧ b < 0x80) : IsText s :=
  ⟨utf8_ascii fun b hb => (h b hb).2, fun h0 => absurd (h 0 h0).1 (by decide)⟩

/-! ### Objects -/

/-- The member of an object with a given key. -/
def Value.get (k : List UInt8) : Value → Option Value
  | obj ms => ms.lookup k
  | _ => none

/-- Members with one more, in the place of an earlier one with the same key. -/
def insert (ms : List (List UInt8 × Value)) (k : List UInt8) (v : Value) :
    List (List UInt8 × Value) :=
  if (ms.lookup k).isSome then ms.map fun m => if m.1 = k then (k, v) else m
  else ms ++ [(k, v)]

/-- A value that can be written as JSON text and read back. -/
inductive Value.Valid : Value → Prop where
  | null : Valid null
  | bool (b : Bool) : Valid (bool b)
  | int {n : Int} (lo : -2 ^ 63 ≤ n) (hi : n < 2 ^ 63) : Valid (int n)
  | str {s : List UInt8} (h : IsText s) : Valid (str s)
  | arr {xs : List Value} (h : ∀ x ∈ xs, Valid x) : Valid (arr xs)
  | obj {ms : List (List UInt8 × Value)} (distinct : (ms.map Prod.fst).Nodup)
      (keys : ∀ m ∈ ms, IsText m.1) (h : ∀ m ∈ ms, Valid m.2) : Valid (obj ms)

/-! ### Adding a member -/

section Insert

variable {ms : List (List UInt8 × Value)} {k : List UInt8} {v : Value}

theorem mem_keys_iff : k ∈ ms.map Prod.fst ↔ (ms.lookup k).isSome := by
  simp [List.lookup_isSome_iff]

theorem lookup_cons_eq (k a : List UInt8) (w : Value) :
    ((a, w) :: ms).lookup k = if k = a then some w else ms.lookup k := by
  rw [List.lookup_cons]
  by_cases h : k = a
  · rw [if_pos h, beq_iff_eq.mpr h]
  · rw [if_neg h, beq_eq_false_iff_ne.mpr h]

/-- A replaced value is not seen under another key. -/
theorem lookup_replace_ne {k' : List UInt8} (hk' : k' ≠ k) :
    (ms.map fun m => if m.1 = k then (k, v) else m).lookup k' = ms.lookup k' := by
  induction ms with
  | nil => rfl
  | cons m ms ih =>
    obtain ⟨a, w⟩ := m
    rw [List.map_cons]
    by_cases ha : a = k
    · rw [if_pos ha, lookup_cons_eq, lookup_cons_eq, ih, ha, if_neg hk', if_neg hk']
    · rw [if_neg ha, lookup_cons_eq, lookup_cons_eq, ih]

theorem lookup_replace (hk : (ms.lookup k).isSome) :
    (ms.map fun m => if m.1 = k then (k, v) else m).lookup k = some v := by
  induction ms with
  | nil => cases hk
  | cons m ms ih =>
    obtain ⟨a, w⟩ := m
    rw [List.map_cons]
    by_cases ha : a = k
    · rw [if_pos ha, lookup_cons_eq, if_pos rfl]
    · have hka : k ≠ a := fun h => ha h.symm
      rw [lookup_cons_eq, if_neg hka] at hk
      rw [if_neg ha, lookup_cons_eq, if_neg hka]
      exact ih hk

/-- The new member is found under its key, every other one as before. -/
theorem lookup_insert (k' : List UInt8) :
    (insert ms k v).lookup k' = if k' = k then some v else ms.lookup k' := by
  by_cases hk : (ms.lookup k).isSome
  · unfold insert
    rw [if_pos hk]
    split
    case isTrue h => rw [h, lookup_replace hk]
    case isFalse h => rw [lookup_replace_ne h]
  · unfold insert
    rw [if_neg hk, List.lookup_append, lookup_cons_eq]
    rw [Option.not_isSome_iff_eq_none] at hk
    split
    case isTrue h => rw [h, hk]; rfl
    case isFalse h => rw [List.lookup_nil, Option.or_none]

theorem valid_insert (hms : (Value.obj ms).Valid) (hk : IsText k) (hv : v.Valid) :
    (Value.obj (insert ms k v)).Valid := by
  cases hms with
  | obj distinct keys h =>
    by_cases hmem : (ms.lookup k).isSome
    · unfold insert
      rw [if_pos hmem]
      have hfst : (ms.map fun m => if m.1 = k then (k, v) else m).map Prod.fst =
          ms.map Prod.fst := by
        rw [List.map_map]
        refine List.map_congr_left fun m _ => ?_
        by_cases hm : m.1 = k
        · simp [hm]
        · simp [hm]
      have hall : ∀ m ∈ ms.map fun m => if m.1 = k then (k, v) else m,
          IsText m.1 ∧ m.2.Valid := by
        intro m hm
        obtain ⟨m', hm', rfl⟩ := List.mem_map.mp hm
        by_cases heq : m'.1 = k
        · rw [if_pos heq]
          exact ⟨hk, hv⟩
        · rw [if_neg heq]
          exact ⟨keys m' hm', h m' hm'⟩
      exact .obj (hfst ▸ distinct) (fun m hm => (hall m hm).1) fun m hm => (hall m hm).2
    · unfold insert
      rw [if_neg hmem]
      refine .obj ?_ ?_ ?_
      · rw [List.map_append, List.nodup_append]
        refine ⟨distinct, by simp, fun a ha b hb => ?_⟩
        rw [List.map_singleton, List.mem_singleton] at hb
        rintro rfl
        subst hb
        exact hmem (mem_keys_iff.mp ha)
      · intro m hm
        rcases List.mem_append.mp hm with hm | hm
        · exact keys m hm
        · rw [List.mem_singleton.mp hm]
          exact hk
      · intro m hm
        rcases List.mem_append.mp hm with hm | hm
        · exact h m hm
        · rw [List.mem_singleton.mp hm]
          exact hv

theorem valid_empty : (Value.obj []).Valid := .obj List.nodup_nil (by simp) (by simp)

end Insert

end IotClient.Json
