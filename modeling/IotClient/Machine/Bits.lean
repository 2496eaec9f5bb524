import Mathlib.Algebra.Group.Nat.Defs
import Mathlib.Data.Nat.Notation

/-!
# Sets of numbers in words

`hasBit ws n` is the bit of the number `n` in an array of words, the lowest bit of a word first, and
`setBit ws n` the array with that bit set. A set bit stays within the array if and only if the array
has that many bits (`setBit_eq_some_iff`), and is then the only one that changes (`hasBit_setBit`).
-/

namespace IotClient.Machine

variable {w : ℕ}

/-- The bit is read within the array. -/
def hasBit? (ws : List (BitVec w)) (n : ℕ) : Option Bool :=
  ws[n / w]?.map (·.getLsbD (n % w))

/-- A bit behind the array is not set. -/
def hasBit (ws : List (BitVec w)) (n : ℕ) : Bool := (hasBit? ws n).getD false

/-- The bit is written within the array. -/
def setBit (ws : List (BitVec w)) (n : ℕ) : Option (List (BitVec w)) :=
  ws[n / w]?.map fun x => ws.set (n / w) (x ||| 1#w <<< (n % w))

section Bits

variable {ws us : List (BitVec w)} {m n : ℕ}

theorem div_lt_iff (hw : 0 < w) {k : ℕ} : n / w < k ↔ n < k * w := Nat.div_lt_iff_lt_mul hw

theorem hasBit?_eq (hw : 0 < w) (h : n < ws.length * w) : hasBit? ws n = some (hasBit ws n) := by
  have hlt : n / w < ws.length := (div_lt_iff hw).2 h
  simp only [hasBit, hasBit?, List.getElem?_eq_getElem hlt, Option.map_some, Option.getD_some]

theorem setBit_eq_some_iff (hw : 0 < w) : (∃ us, setBit ws n = some us) ↔ n < ws.length * w := by
  unfold setBit
  by_cases h : n < ws.length * w
  · have hlt : n / w < ws.length := (div_lt_iff hw).2 h
    simp only [List.getElem?_eq_getElem hlt, Option.map_some]
    exact iff_of_true ⟨_, rfl⟩ h
  · have hle : ws.length ≤ n / w := (Nat.le_div_iff_mul_le hw).2 (Nat.le_of_not_lt h)
    simp only [List.getElem?_eq_none hle, Option.map_none]
    refine iff_of_false ?_ h
    rintro ⟨_, hus⟩
    cases hus

theorem length_setBit (h : setBit ws n = some us) : us.length = ws.length := by
  obtain ⟨x, -, rfl⟩ := Option.map_eq_some_iff.1 h
  exact List.length_set

/-- The word of a bit and its place in the word are those of no other bit. -/
theorem eq_of_div_mod (hdiv : m / w = n / w) (hmod : m % w = n % w) : m = n := by
  rw [← Nat.div_add_mod m w, ← Nat.div_add_mod n w, hdiv, hmod]

theorem hasBit_setBit (hw : 0 < w) (h : setBit ws n = some us) :
    hasBit us m = (hasBit ws m || decide (m = n)) := by
  obtain ⟨x, hx, rfl⟩ := Option.map_eq_some_iff.1 h
  have hlt : n / w < ws.length := (List.getElem?_eq_some_iff.1 hx).1
  unfold hasBit hasBit?
  by_cases hdiv : n / w = m / w
  · rw [← hdiv, List.getElem?_set_self hlt, hx]
    have hbit : (1#w <<< (n % w)).getLsbD (m % w) = decide (m = n) := by
      rw [BitVec.getLsbD_shiftLeft]
      have hm : m % w < w := Nat.mod_lt m hw
      by_cases hmn : m = n
      · subst hmn
        simp [hw, hm]
      · have hne : m % w ≠ n % w := fun hmod => hmn (eq_of_div_mod hdiv.symm hmod)
        have hone : m % w < n % w ∨ m % w - n % w ≠ 0 := by omega
        rcases hone with hlow | hhigh
        · simp [hlow, hmn]
        · simp [BitVec.getLsbD_one, hhigh, hmn]
    simp only [Option.map_some, Option.getD_some, BitVec.getLsbD_or, hbit]
  · have hmn : m ≠ n := fun h => hdiv (by rw [h])
    rw [List.getElem?_set_ne hdiv]
    simp [hmn]

/-- Words of zeros behind the array, or in its place, are no new bits. -/
theorem hasBit_append_zeros (k : ℕ) : hasBit (ws ++ .replicate k 0#w) n = hasBit ws n := by
  unfold hasBit hasBit?
  rcases Nat.lt_or_ge (n / w) ws.length with h | h
  · rw [List.getElem?_append_left h]
  · rw [List.getElem?_append_right h, List.getElem?_eq_none h, List.getElem?_replicate]
    split <;> simp

theorem hasBit_zeros (k : ℕ) : hasBit (.replicate k 0#w) n = false :=
  (@hasBit_append_zeros w [] n k).trans rfl

end Bits

end IotClient.Machine
