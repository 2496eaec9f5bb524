import Mathlib.Data.List.TakeWhile
import IotClient.Mem.Run

/-!
# Reading a byte buffer, and C strings

`rd` and `copyOut` read a buffer at an index and fault past its end. A decoder's position is
described by the rest of the buffer, `buf.drop i = s`: the lemmas here turn the first bytes
of `s` into the result of a read and give the rest at the advanced index.

A `CString` is what a `char *` string denotes: the bytes before its terminator, so none of
them is 0.
-/

namespace IotClient.Mem

/-- `buf[i]` -/
def rd (buf : List UInt8) (i : Nat) : Run UInt8 :=
  match buf[i]? with
  | some x => .ok x
  | none => .error .readOut

/-- `memcpy(dst, &buf[i], n)` into a `dst` of at least `n` bytes; copying 0 bytes reads none. -/
def copyOut (buf : List UInt8) (i : Nat) (n : Int) : Run (List UInt8) :=
  if n < 0 then .error .negativeSize
  else if n = 0 then .ok []
  else if i + n.toNat ≤ buf.length then .ok ((buf.drop i).take n.toNat)
  else .error .readOut

theorem rd_returns {buf : List UInt8} {i : Nat} : Returns (rd buf i) ↔ i < buf.length := by
  unfold rd
  rcases Nat.lt_or_ge i buf.length with hlt | hge
  · rw [List.getElem?_eq_getElem hlt]
    exact iff_of_true (returns_ok _) hlt
  · rw [List.getElem?_eq_none hge]
    exact iff_of_false (not_returns_error _) (Nat.not_lt.2 hge)

theorem copyOut_returns {buf : List UInt8} {i : Nat} {n : Int} :
    Returns (copyOut buf i n) ↔ 0 ≤ n ∧ (0 < n → i + n ≤ buf.length) := by
  unfold copyOut
  split
  case isTrue hneg => exact iff_of_false (not_returns_error _) (by omega)
  case isFalse hnonneg =>
    split
    case isTrue hzero => exact iff_of_true (returns_ok _) (by omega)
    case isFalse hne =>
      split
      case isTrue hle => exact iff_of_true (returns_ok _) (by omega)
      case isFalse hgt => exact iff_of_false (not_returns_error _) (by omega)

section Suffix

variable {buf s xs : List UInt8} {i : Nat} {x y : UInt8}

theorem drop_succ (h : buf.drop i = x :: s) : buf.drop (i + 1) = s := by
  rw [← List.drop_drop, h]; rfl

theorem drop_add (h : buf.drop i = xs ++ s) : buf.drop (i + xs.length) = s := by
  rw [← List.drop_drop, h, List.drop_left]

theorem length_of_drop (h : buf.drop i = xs) (hi : i ≤ buf.length) :
    buf.length = i + xs.length := by
  have := congrArg List.length h
  rw [List.length_drop] at this
  omega

theorem lt_of_drop (h : buf.drop i = x :: s) : i < buf.length := by
  have := congrArg List.length h
  rw [List.length_drop, List.length_cons] at this
  omega

theorem rd_drop (h : buf.drop i = x :: s) : rd buf i = .ok x := by
  have hx : buf[i]? = some x := by
    rw [← List.head?_drop, h]; rfl
  unfold rd
  rw [hx]

theorem rd_ok_lt (h : rd buf i = .ok x) : i < buf.length := by
  by_contra hle
  unfold rd at h
  rw [List.getElem?_eq_none (by omega)] at h
  cases h

theorem rd_end (h : buf.length ≤ i) : rd buf i = .error .readOut := by
  unfold rd
  rw [List.getElem?_eq_none h]

theorem copyOut_drop (h : buf.drop i = xs ++ s) : copyOut buf i xs.length = .ok xs := by
  have hlen := congrArg List.length h
  rw [List.length_drop, List.length_append] at hlen
  unfold copyOut
  rw [if_neg (by omega)]
  by_cases h0 : (xs.length : Int) = 0
  · have hnil : xs = [] := List.eq_nil_of_length_eq_zero (by omega)
    rw [if_pos h0, hnil]
  · rw [if_neg h0, if_pos (by omega), h, Int.toNat_natCast, List.take_left]

/-- `copyOut_drop` at a size the code computed in another form. -/
theorem copyOut_drop_of_eq (h : buf.drop i = xs ++ s) {n : Int} (hn : n = xs.length) :
    copyOut buf i n = .ok xs := hn ▸ copyOut_drop h

theorem copyOut_ok_le {n : Int} (h : copyOut buf i n = .ok xs) (hn : 0 < n) :
    i + n.toNat ≤ buf.length := by
  by_contra hle
  unfold copyOut at h
  rw [if_neg (by omega), if_neg (by omega), if_neg hle] at h
  cases h

theorem copyOut_ok_eq {n : Nat} (h : copyOut buf i n = .ok xs) : xs = (buf.drop i).take n := by
  unfold copyOut at h
  rw [if_neg (by omega)] at h
  split at h
  case isTrue h0 =>
    cases h
    rw [show n = 0 by omega, List.take_zero]
  case isFalse =>
    split at h
    · cases h
      rw [Int.toNat_natCast]
    · cases h

theorem copyOut_ok_length {n : Nat} (h : copyOut buf i n = .ok xs) : xs.length = n := by
  rcases Nat.eq_zero_or_pos n with rfl | hpos
  · rw [copyOut_ok_eq h, List.take_zero, List.length_nil]
  · have hle := copyOut_ok_le h (by omega)
    rw [copyOut_ok_eq h, List.length_take, List.length_drop]
    omega

theorem copyOut_past {n : Int} (hn : 0 < n) (h : buf.length < i + n) :
    copyOut buf i n = .error .readOut := by
  unfold copyOut
  rw [if_neg (by omega), if_neg (by omega), if_neg (by omega)]

end Suffix

/-! ### C strings -/

/-- The bytes of a NUL-terminated string, without the NUL. -/
structure CString where
  bytes : List UInt8
  nulFree : 0 ∉ bytes
  deriving DecidableEq

namespace CString

/-- The string at the start of an array: its bytes up to the first NUL. -/
def ofBytes (bs : List UInt8) : CString where
  bytes := bs.takeWhile (· ≠ 0)
  nulFree h := by simpa using List.mem_takeWhile_imp h

def strlen (s : CString) : Nat := s.bytes.length

/-- A string literal of ASCII characters. -/
def literal (s : String) : CString := ofBytes (s.toList.map fun c => UInt8.ofNat c.toNat)

instance : EmptyCollection CString := ⟨⟨[], List.not_mem_nil⟩⟩

theorem ofBytes_of_nulFree {bs : List UInt8} (h : 0 ∉ bs) : ofBytes bs = ⟨bs, h⟩ := by
  have ht : bs.takeWhile (· ≠ 0) = bs := by
    rw [List.takeWhile_eq_self_iff]
    intro x hx
    simpa using fun h0 : x = 0 => h (h0 ▸ hx)
  simp only [ofBytes, ht]

@[simp] theorem ofBytes_bytes (s : CString) : ofBytes s.bytes = s := ofBytes_of_nulFree s.nulFree

end CString

/-- `sprintf(str, "%d", n)` -/
def decimal (n : Nat) : CString :=
  CString.ofBytes ((Nat.toDigits 10 n).map fun c => UInt8.ofNat c.toNat)

/-- The digits of a decimal number. -/
def decimalValue (n : Nat) : List UInt8 → Nat
  | [] => n
  | c :: cs => if 0x30 ≤ c ∧ c ≤ 0x39 then decimalValue (10 * n + (c.toNat - 48)) cs else n

def atoi (s : CString) : Int :=
  match s.bytes.dropWhile fun c => c = 0x20 ∨ (9 ≤ c ∧ c ≤ 13) with
  | 0x2d :: cs => -(decimalValue 0 cs : Int)
  | 0x2b :: cs => decimalValue 0 cs
  | cs => decimalValue 0 cs

/-- `strlen(p)` -/
def strlen (p : Ptr CString) : Run Nat := do
  let s ← p.deref
  pure s.strlen

@[simp] theorem strlen_ref (s : CString) : strlen (.ref s) = .ok s.bytes.length := rfl

end IotClient.Mem
