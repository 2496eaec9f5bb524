import Mathlib.Algebra.Group.Nat.Defs
import IotClient.Mem.Byte
import IotClient.Mem.Run

/-!
# `ws/base64_parser.c`

`base64Encode` and `base64Decode`. A group of three bytes becomes four letters; the encoder
writes the last group with zero bytes in place of the missing ones and then overwrites its
last letters with `=`. The decoder's table has indeterminate entries outside the alphabet.

`base64Decode_encode`: the pair is the identity on every non-empty input.
-/

namespace IotClient.Ws

open Mem

/-- `encoding_table` -/
def encodingTable : List UInt8 :=
  "ABCDEFGHIJKLMNOPQRSTUVWXYZabcdefghijklmnopqrstuvwxyz0123456789+/".toList.map
    fun c => UInt8.ofNat c.toNat

/-- `encoding_table[k]`, where `k` has 6 bits -/
def letter (k : Nat) : UInt8 := encodingTable.getD k 0

/-- `mod_table[n % 3]`: the letters of padding. -/
def modTable (n : Nat) : Nat := [0, 2, 1].getD (n % 3) 0

/-- The four letters of a group. -/
def quad (a b c : UInt8) : List UInt8 :=
  let triple := a.toNat * 2 ^ 16 + b.toNat * 2 ^ 8 + c.toNat
  [letter (triple / 2 ^ 18 % 64), letter (triple / 2 ^ 12 % 64), letter (triple / 2 ^ 6 % 64),
    letter (triple % 64)]

/-- The loop of `base64_encode`, a missing byte read as 0. -/
def encodeLoop : List UInt8 → List UInt8
  | [] => []
  | [a] => quad a 0 0
  | [a, b] => quad a b 0
  | a :: b :: c :: data => quad a b c ++ encodeLoop data

def base64Encode (data : List UInt8) : List UInt8 :=
  let encoded := encodeLoop data
  encoded.take (encoded.length - modTable data.length) ++
    List.replicate (modTable data.length) 0x3d

/-! ### Decoding -/

/-- `decoding_table` after `build_decoding_table`. -/
def decodingTable : List (Cell UInt8) :=
  (List.range 64).foldl (fun t i => t.set (letter i).toNat (.is (UInt8.ofNat i)))
    (List.replicate 256 .indet)

/-- The six bits of a letter, 0 for `=`. -/
def sextet (x : UInt8) : Run Nat := do
  if x = 0x3d then pure 0
  else pure (← (decodingTable.getD x.toNat .indet).get).toNat

/-- `if (j < *output_length) decoded_data[j++] = x`, where `j` bytes were written. -/
def push (outputLength : Nat) (decoded : List UInt8) (x : Nat) : List UInt8 :=
  if decoded.length < outputLength then decoded ++ [UInt8.ofNat x] else decoded

/-- The loop of `base64_decode`. -/
def decodeLoop (outputLength : Nat) : List UInt8 → List UInt8 → Run (List UInt8)
  | decoded, a :: b :: c :: d :: data => do
    let triple := (← sextet a) * 2 ^ 18 + (← sextet b) * 2 ^ 12 + (← sextet c) * 2 ^ 6 + (← sextet d)
    let decoded := push outputLength decoded (triple / 2 ^ 16 % 256)
    let decoded := push outputLength decoded (triple / 2 ^ 8 % 256)
    let decoded := push outputLength decoded (triple % 256)
    decodeLoop outputLength decoded data
  | decoded, [] => pure decoded
  | _, _ => .error .readOut

/-- `NULL` for a length that is no multiple of 4; the length of the result is
`*output_length`. -/
def base64Decode (data : List UInt8) : Run (Option (List UInt8)) := do
  if data.length % 4 ≠ 0 then pure none
  else
    -- an empty input is read before its start
    match data.reverse with
    | last :: beforeLast :: _ =>
      let outputLength := data.length / 4 * 3
      let outputLength := if last = 0x3d then outputLength - 1 else outputLength
      let outputLength := if beforeLast = 0x3d then outputLength - 1 else outputLength
      pure (some (← decodeLoop outputLength [] data))
    | _ => .error .readOut

/-- `*output_length` as `base64_decode` leaves it. -/
def outputLength (data : List UInt8) : Nat :=
  let outputLength := data.length / 4 * 3
  let outputLength := if data.reverse[0]? = some 0x3d then outputLength - 1 else outputLength
  if data.reverse[1]? = some 0x3d then outputLength - 1 else outputLength

/-! ### The pair -/

theorem length_encodeLoop (data : List UInt8) :
    (encodeLoop data).length = 4 * ((data.length + 2) / 3) := by
  induction data using encodeLoop.induct with
  | case1 => rfl
  | case2 a => simp [encodeLoop, quad]
  | case3 a b => simp [encodeLoop, quad]
  | case4 a b c data ih =>
    unfold encodeLoop
    rw [List.length_append, ih]
    simp only [quad, List.length_cons, List.length_nil]
    omega

theorem modTable_eq (n : Nat) : modTable n = (3 - n % 3) % 3 := by
  have hall : ∀ k < 3, [0, 2, 1].getD k 0 = (3 - k) % 3 := by decide
  exact hall _ (Nat.mod_lt _ (by decide))

theorem modTable_le (n : Nat) : modTable n ≤ 2 := by
  have hall : ∀ k < 3, [0, 2, 1].getD k 0 ≤ 2 := by decide
  exact hall _ (Nat.mod_lt _ (by decide))

theorem modTable_add_three (n : Nat) : modTable (n + 3) = modTable n := by
  simp [modTable]

/-- `A` to `Z`, `a` to `z`, `0` to `9`, `+` and `/`. -/
def letterCodes : List Nat :=
  List.range' 0x41 26 ++ List.range' 0x61 26 ++ List.range' 0x30 10 ++ [0x2b, 0x2f]

theorem encodingTable_eq : encodingTable = letterCodes.map UInt8.ofNat := by decide +kernel

theorem mem_letterCodes {n : Nat} : n ∈ letterCodes ↔ 0x41 ≤ n ∧ n ≤ 0x5a ∨ 0x61 ≤ n ∧ n ≤ 0x7a ∨
    0x30 ≤ n ∧ n ≤ 0x39 ∨ n = 0x2b ∨ n = 0x2f := by
  simp only [letterCodes, List.mem_append, List.mem_range'_1, List.mem_cons, List.not_mem_nil,
    or_false]
  omega

theorem mem_encodingTable {x : UInt8} : x ∈ encodingTable ↔ x.toNat ∈ letterCodes := by
  rw [encodingTable_eq, List.mem_map]
  constructor
  · rintro ⟨n, hn, rfl⟩
    have hlt := mem_letterCodes.1 hn
    rwa [toNat_ofNat_of_lt (by omega)]
  · exact fun h => ⟨_, h, UInt8.ofNat_toNat⟩

theorem encodingTable_length : encodingTable.length = 64 := by
  rw [encodingTable_eq]
  rfl

theorem letterCodes_nodup : letterCodes.Nodup := by decide

theorem encodingTable_nodup : encodingTable.Nodup := by
  rw [encodingTable_eq]
  refine letterCodes_nodup.map_on fun m hm n hn h => ?_
  have hm := mem_letterCodes.1 hm
  have hn := mem_letterCodes.1 hn
  have heq := congrArg UInt8.toNat h
  rwa [toNat_ofNat_of_lt (by omega), toNat_ofNat_of_lt (by omega)] at heq

theorem letter_eq {k : Nat} (h : k < encodingTable.length) : letter k = encodingTable[k] := by
  rw [letter, List.getD_eq_getElem?_getD, List.getElem?_eq_getElem h]
  rfl

theorem letter_mem {k : Nat} (h : k < 64) : letter k ∈ encodingTable := by
  rw [← encodingTable_length] at h
  rw [letter_eq h]
  exact List.getElem_mem h

theorem letter_inj {k l : Nat} (hk : k < 64) (hl : l < 64) (h : letter k = letter l) : k = l := by
  rw [← encodingTable_length] at hk hl
  rw [letter_eq hk, letter_eq hl] at h
  exact (encodingTable_nodup.getElem_inj_iff).1 h

theorem exists_letter {x : UInt8} (h : x ∈ encodingTable) : ∃ k < 64, letter k = x := by
  obtain ⟨k, hk, rfl⟩ := List.getElem_of_mem h
  exact ⟨k, encodingTable_length ▸ hk, letter_eq hk⟩

theorem encodeLoop_letters {data : List UInt8} :
    ∀ x ∈ encodeLoop data, x ∈ encodingTable := by
  have hquad : ∀ a b c, ∀ x ∈ quad a b c, x ∈ encodingTable := by
    intro a b c x hx
    simp only [quad, List.mem_cons, List.not_mem_nil, or_false] at hx
    rcases hx with rfl | rfl | rfl | rfl
    all_goals exact letter_mem (Nat.mod_lt _ (by decide))
  induction data using encodeLoop.induct with
  | case1 => exact List.forall_mem_nil _
  | case2 a => exact hquad a 0 0
  | case3 a b => exact hquad a b 0
  | case4 a b c data ih =>
    intro x hx
    rcases List.mem_append.1 hx with hx | hx
    · exact hquad a b c x hx
    · exact ih x hx

/-- The letters and the padding are ASCII. -/
theorem base64Encode_ascii {data : List UInt8} : ∀ x ∈ base64Encode data, 0 < x ∧ x < 0x80 := by
  have hascii : ∀ x ∈ encodingTable, 0 < x ∧ x < 0x80 := by
    intro x hx
    have hcode := mem_letterCodes.1 (mem_encodingTable.1 hx)
    rw [UInt8.lt_iff_toNat_lt, UInt8.lt_iff_toNat_lt]
    simp only [UInt8.reduceToNat]
    omega
  intro x hx
  rcases List.mem_append.mp hx with hx | hx
  · exact hascii x (encodeLoop_letters x (List.mem_of_mem_take hx))
  · rw [List.eq_of_mem_replicate hx]
    decide

/-- A full group in front adds its four letters. -/
theorem base64Encode_cons (a b c : UInt8) (data : List UInt8) :
    base64Encode (a :: b :: c :: data) = quad a b c ++ base64Encode data := by
  have hquad : (quad a b c).length = 4 := rfl
  have hmod : modTable (a :: b :: c :: data).length = modTable data.length :=
    modTable_add_three data.length
  have hle : modTable data.length ≤ (encodeLoop data).length := by
    rcases data with _ | ⟨d, data⟩
    · exact Nat.le_refl 0
    · rw [length_encodeLoop]
      have := modTable_le (d :: data).length
      have : 1 ≤ (d :: data).length := by simp
      omega
  simp only [base64Encode, hmod, encodeLoop, List.length_append, hquad]
  rw [show 4 + (encodeLoop data).length - modTable data.length =
    4 + ((encodeLoop data).length - modTable data.length) by omega, ← hquad,
    List.take_length_add_append, List.append_assoc]

section Table

variable {α : Type} {f : Nat → Nat} {g : Nat → α} {t : List α} {d : α}

theorem length_foldl_set (n : Nat) :
    ((List.range n).foldl (fun t i => t.set (f i) (g i)) t).length = t.length := by
  induction n with
  | zero => rfl
  | succ n ih => rw [List.range_succ, List.foldl_append, List.foldl_cons, List.foldl_nil, List.length_set, ih]

theorem getD_foldl_set_of_ne {n j : Nat} (h : ∀ i < n, f i ≠ j) :
    ((List.range n).foldl (fun t i => t.set (f i) (g i)) t).getD j d = t.getD j d := by
  induction n with
  | zero => rfl
  | succ n ih =>
    rw [List.range_succ, List.foldl_append, List.foldl_cons, List.foldl_nil,
      List.getD_eq_getElem?_getD, List.getElem?_set_ne (h n (by omega)), ← List.getD_eq_getElem?_getD]
    exact ih fun i hi => h i (by omega)

/-- An entry that no other assignment touches. -/
theorem getD_foldl_set {n k : Nat} (hinj : ∀ i < n, f i = f k → i = k) (hk : k < n)
    (hlt : f k < t.length) :
    ((List.range n).foldl (fun t i => t.set (f i) (g i)) t).getD (f k) d = g k := by
  induction n with
  | zero => cases hk
  | succ n ih =>
    rw [List.range_succ, List.foldl_append, List.foldl_cons, List.foldl_nil,
      List.getD_eq_getElem?_getD]
    by_cases hn : n = k
    · subst hn
      rw [List.getElem?_set_self (by rwa [length_foldl_set])]
      rfl
    · rw [List.getElem?_set_ne fun h => hn (hinj n (by omega) h), ← List.getD_eq_getElem?_getD]
      exact ih (fun i hi => hinj i (by omega)) (by omega)

end Table

theorem decodingTable_letter {k : Nat} (h : k < 64) :
    decodingTable.getD (letter k).toNat .indet = .is (UInt8.ofNat k) := by
  refine getD_foldl_set (fun i hi heq => letter_inj hi h (UInt8.toNat_inj.1 heq)) h ?_
  rw [List.length_replicate]
  exact UInt8.toNat_lt _

theorem decodingTable_other {x : UInt8} (h : x ∉ encodingTable) :
    decodingTable.getD x.toNat .indet = .indet := by
  refine (getD_foldl_set_of_ne fun i hi heq => h ?_).trans ?_
  · rw [← UInt8.toNat_inj.1 heq]
    exact letter_mem hi
  · rw [List.getD_eq_getElem?_getD, List.getElem?_replicate]
    split <;> rfl
theorem pad_not_mem : 0x3d ∉ encodingTable := by
  intro h
  have hcode := mem_letterCodes.1 (mem_encodingTable.1 h)
  simp only [UInt8.reduceToNat] at hcode
  omega

/-- The alphabet is inverted by the table, and has no `=`. -/
theorem sextet_letter {k : Nat} (h : k < 64) : letter k ≠ 0x3d ∧ sextet (letter k) = .ok k := by
  have hne : letter k ≠ 0x3d := fun heq => pad_not_mem (heq ▸ letter_mem h)
  refine ⟨hne, ?_⟩
  unfold sextet
  rw [if_neg hne, decodingTable_letter h, Cell.get_is, ok_bind, pure_eq_ok,
    toNat_ofNat_of_lt (by omega)]

theorem sextet_pad : sextet 0x3d = .ok 0 := rfl

/-- The 24 bits of a group from its four letters. -/
theorem triple_join {t : Nat} (h : t < 2 ^ 24) :
    t / 2 ^ 18 % 64 * 2 ^ 18 + t / 2 ^ 12 % 64 * 2 ^ 12 + t / 2 ^ 6 % 64 * 2 ^ 6 + t % 64 = t := by
  omega

/-- Three bytes pushed: as many as there is room for. -/
theorem push_three (n : Nat) (decoded : List UInt8) (x y z : Nat) :
    push n (push n (push n decoded x) y) z =
      decoded ++ [UInt8.ofNat x, UInt8.ofNat y, UInt8.ofNat z].take (n - decoded.length) := by
  rcases Nat.lt_or_ge decoded.length n with h | h
  · obtain ⟨k, rfl⟩ : ∃ k, n = decoded.length + (k + 1) := ⟨n - decoded.length - 1, by omega⟩
    rcases k with _ | _ | k <;> simp [push]
  · have hroom : n - decoded.length = 0 := by omega
    simp [push, hroom, Nat.not_lt.mpr h]

theorem byte_of_triple (a b c : UInt8) :
    let t := a.toNat * 2 ^ 16 + b.toNat * 2 ^ 8 + c.toNat
    t < 2 ^ 24 ∧ UInt8.ofNat (t / 2 ^ 16 % 256) = a ∧ UInt8.ofNat (t / 2 ^ 8 % 256) = b ∧
      UInt8.ofNat (t % 256) = c := by
  have ha := a.toNat_lt
  have hb := b.toNat_lt
  have hc := c.toNat_lt
  have h1 : (a.toNat * 2 ^ 16 + b.toNat * 2 ^ 8 + c.toNat) / 2 ^ 16 % 256 = a.toNat := by omega
  have h2 : (a.toNat * 2 ^ 16 + b.toNat * 2 ^ 8 + c.toNat) / 2 ^ 8 % 256 = b.toNat := by omega
  have h3 : (a.toNat * 2 ^ 16 + b.toNat * 2 ^ 8 + c.toNat) % 256 = c.toNat := by omega
  simp only [h1, h2, h3, UInt8.ofNat_toNat, and_true]
  omega

/-- One round of the loop. -/
theorem decodeLoop_step {n p q r s : Nat} {a b c d : UInt8} (decoded data : List UInt8)
    (ha : sextet a = .ok p) (hb : sextet b = .ok q) (hc : sextet c = .ok r) (hd : sextet d = .ok s)
    {t : Nat} (ht : p * 2 ^ 18 + q * 2 ^ 12 + r * 2 ^ 6 + s = t) :
    decodeLoop n decoded (a :: b :: c :: d :: data) =
      decodeLoop n (push n (push n (push n decoded (t / 2 ^ 16 % 256)) (t / 2 ^ 8 % 256))
        (t % 256)) data := by
  rw [decodeLoop, ha, ok_bind, hb, ok_bind, hc, ok_bind, hd, ok_bind, ht]

/-- The letters of a full group in front. -/
theorem decodeLoop_quad (a b c : UInt8) {n : Nat} (decoded data : List UInt8)
    (h : decoded.length + 3 ≤ n) :
    decodeLoop n decoded (quad a b c ++ data) = decodeLoop n (decoded ++ [a, b, c]) data := by
  obtain ⟨ht, hta, htb, htc⟩ := byte_of_triple a b c
  unfold quad
  generalize a.toNat * 2 ^ 16 + b.toNat * 2 ^ 8 + c.toNat = t at ht hta htb htc ⊢
  refine (decodeLoop_step decoded data (sextet_letter (by omega)).2 (sextet_letter (by omega)).2
    (sextet_letter (by omega)).2 (sextet_letter (by omega)).2 (triple_join ht)).trans ?_
  rw [push_three, List.take_of_length_le (by simp; omega), hta, htb, htc]

theorem base64Encode_one (a : UInt8) :
    base64Encode [a] = [letter (a.toNat * 2 ^ 16 / 2 ^ 18 % 64),
      letter (a.toNat * 2 ^ 16 / 2 ^ 12 % 64), 0x3d, 0x3d] := by
  simp [base64Encode, encodeLoop, quad, modTable]

theorem base64Encode_two (a b : UInt8) :
    base64Encode [a, b] = [letter ((a.toNat * 2 ^ 16 + b.toNat * 2 ^ 8) / 2 ^ 18 % 64),
      letter ((a.toNat * 2 ^ 16 + b.toNat * 2 ^ 8) / 2 ^ 12 % 64),
      letter ((a.toNat * 2 ^ 16 + b.toNat * 2 ^ 8) / 2 ^ 6 % 64), 0x3d] := by
  simp [base64Encode, encodeLoop, quad, modTable]

theorem decodeLoop_encode (data : List UInt8) : ∀ decoded : List UInt8,
    decodeLoop (decoded.length + data.length) decoded (base64Encode data) =
      .ok (decoded ++ data) := by
  induction data using encodeLoop.induct with
  | case1 => intro decoded; simp [base64Encode, encodeLoop, modTable, decodeLoop]
  | case2 a =>
    intro decoded
    obtain ⟨ht, hta, -, -⟩ := byte_of_triple a 0 0
    have ha := a.toNat_lt
    simp only [UInt8.toNat_zero, Nat.zero_mul, Nat.add_zero] at ht hta
    rw [base64Encode_one, decodeLoop_step decoded [] (sextet_letter (by omega)).2
      (sextet_letter (by omega)).2 sextet_pad sextet_pad (t := a.toNat * 2 ^ 16) (by omega),
      push_three, hta, Nat.add_sub_cancel_left, decodeLoop]
    rfl
  | case3 a b =>
    intro decoded
    obtain ⟨ht, hta, htb, -⟩ := byte_of_triple a b 0
    have ha := a.toNat_lt
    have hb := b.toNat_lt
    simp only [UInt8.toNat_zero, Nat.add_zero] at ht hta htb
    rw [base64Encode_two, decodeLoop_step decoded [] (sextet_letter (by omega)).2
      (sextet_letter (by omega)).2 (sextet_letter (by omega)).2 sextet_pad
      (t := a.toNat * 2 ^ 16 + b.toNat * 2 ^ 8) (by omega),
      push_three, hta, htb, Nat.add_sub_cancel_left, decodeLoop]
    rfl
  | case4 a b c data ih =>
    intro decoded
    have hlen : decoded.length + (a :: b :: c :: data).length =
        (decoded ++ [a, b, c]).length + data.length := by
      simp only [List.length_append, List.length_cons, List.length_nil]
      omega
    rw [base64Encode_cons, decodeLoop_quad a b c decoded _ (by simp), hlen, ih]
    simp

/-- The last two letters say how long the last group is. -/
theorem base64Encode_last {data : List UInt8} (hne : data ≠ []) :
    ∃ pre x y, base64Encode data = pre ++ [x, y] ∧
      (y = 0x3d ↔ 1 ≤ modTable data.length) ∧ (x = 0x3d ↔ modTable data.length = 2) := by
  induction data using encodeLoop.induct with
  | case1 => exact absurd rfl hne
  | case2 a =>
    exact ⟨[_, _], _, _, base64Encode_one a, iff_of_true rfl (by simp [modTable]),
      iff_of_true rfl (by simp [modTable])⟩
  | case3 a b =>
    exact ⟨[_, _], _, _, base64Encode_two a b, iff_of_true rfl (by simp [modTable]),
      iff_of_false (sextet_letter (by omega)).1 (by simp [modTable])⟩
  | case4 a b c data ih =>
    have hmod : modTable (a :: b :: c :: data).length = modTable data.length :=
      modTable_add_three data.length
    rw [base64Encode_cons, hmod]
    rcases eq_or_ne data [] with rfl | hdata
    · refine ⟨[_, _], _, _, rfl, ?_, ?_⟩
      · exact iff_of_false (sextet_letter (by omega)).1 (by decide)
      · exact iff_of_false (sextet_letter (by omega)).1 (by decide)
    · obtain ⟨pre, x, y, hpre, hy, hx⟩ := ih hdata
      exact ⟨quad a b c ++ pre, x, y, by rw [hpre, List.append_assoc], hy, hx⟩

theorem length_base64Encode (data : List UInt8) :
    (base64Encode data).length = 4 * ((data.length + 2) / 3) := by
  have hmod := modTable_le data.length
  have hlen := length_encodeLoop data
  rcases eq_or_ne data [] with rfl | hne
  · rfl
  · have hpos := List.length_pos_iff.mpr hne
    rw [base64Encode, List.length_append, List.length_take, List.length_replicate]
    omega

/-- Decoding gives back what was encoded. -/
theorem base64Decode_encode {data : List UInt8} (hne : data ≠ []) :
    base64Decode (base64Encode data) = .ok (some data) := by
  obtain ⟨pre, x, y, hpre, hy, hx⟩ := base64Encode_last hne
  have hlen := length_base64Encode data
  have hpos := List.length_pos_iff.mpr hne
  have hmod := modTable_eq data.length
  have hrev : (base64Encode data).reverse = y :: x :: pre.reverse := by rw [hpre]; simp
  have hout : (let outputLength := (base64Encode data).length / 4 * 3
      let outputLength := if y = 0x3d then outputLength - 1 else outputLength
      if x = 0x3d then outputLength - 1 else outputLength) = data.length := by
    simp only [hlen, hy, hx, hmod]
    split <;> split <;> omega
  have hloop := decodeLoop_encode data []
  rw [List.length_nil, Nat.zero_add, List.nil_append] at hloop
  rw [base64Decode, if_neg (by omega), hrev]
  simp only at hout ⊢
  rw [hout, hloop]
  rfl

/-! ### The length of the result -/

theorem length_push_three {n : Nat} {decoded : List UInt8} (h : decoded.length ≤ n) (x y z : Nat) :
    (push n (push n (push n decoded x) y) z).length = min n (decoded.length + 3) := by
  rw [push_three, List.length_append, List.length_take]
  simp only [List.length_cons, List.length_nil]
  omega

/-- Each group adds three bytes, as far as there is room. -/
theorem decodeLoop_length {n : Nat} (groups : Nat) : ∀ {decoded s r : List UInt8},
    s.length = 4 * groups → decoded.length ≤ n → decodeLoop n decoded s = .ok r →
      r.length = min n (decoded.length + groups * 3) := by
  induction groups with
  | zero =>
    intro decoded s r h hle hr
    rw [List.eq_nil_of_length_eq_zero h] at hr
    cases hr
    omega
  | succ groups ih =>
    intro decoded s r h hle hr
    rcases s with _ | ⟨a, _ | ⟨b, _ | ⟨c, _ | ⟨d, data⟩⟩⟩⟩
    case cons.cons.cons.cons =>
      have hdata : data.length = 4 * groups := by
        simp only [List.length_cons] at h
        omega
      unfold decodeLoop at hr
      obtain ⟨p, -, hr⟩ := bind_eq_ok.1 hr
      obtain ⟨q, -, hr⟩ := bind_eq_ok.1 hr
      obtain ⟨p', -, hr⟩ := bind_eq_ok.1 hr
      obtain ⟨q', -, hr⟩ := bind_eq_ok.1 hr
      have hpush := length_push_three hle
        ((p * 2 ^ 18 + q * 2 ^ 12 + p' * 2 ^ 6 + q') / 2 ^ 16 % 256)
        ((p * 2 ^ 18 + q * 2 ^ 12 + p' * 2 ^ 6 + q') / 2 ^ 8 % 256)
        ((p * 2 ^ 18 + q * 2 ^ 12 + p' * 2 ^ 6 + q') % 256)
      have hlen := ih hdata (by rw [hpush]; exact Nat.min_le_left ..) hr
      rw [hpush] at hlen
      omega
    all_goals
      simp only [List.length_cons, List.length_nil] at h
      omega

/-- What `base64_decode` returns fills `*output_length` bytes. -/
theorem base64Decode_length {data decoded : List UInt8}
    (h : base64Decode data = .ok (some decoded)) : decoded.length = outputLength data := by
  unfold base64Decode at h
  split at h
  · cases h
  next hmod =>
    rw [not_not] at hmod
    rcases hrev : data.reverse with _ | ⟨y, _ | ⟨x, rest⟩⟩
    · rw [hrev] at h
      cases h
    · rw [hrev] at h
      cases h
    · rw [hrev] at h
      obtain ⟨r, hr, hsome⟩ := bind_eq_ok.1 h
      cases hsome
      have hlen := decodeLoop_length (data.length / 4) (by omega) (Nat.zero_le _) hr
      rw [hlen, outputLength, hrev]
      simp only [List.getElem?_cons_zero, List.getElem?_cons_succ, Option.some.injEq,
        List.length_nil]
      split <;> split <;> omega

/-- The letters, the padding behind them, and what `base64_decode` makes of both. -/
theorem base64_inverse {data : List UInt8} (hlen : 1 ≤ data.length) :
    (base64Encode data).length = 4 * ((data.length + 2) / 3) ∧
      (∃ letters, base64Encode data =
          letters ++ List.replicate ((3 - data.length % 3) % 3) 0x3d ∧
        ∀ x ∈ letters, x ∈ encodingTable ∧ x ≠ 0x3d) ∧
      outputLength (base64Encode data) = data.length ∧
      base64Decode (base64Encode data) = .ok (some data) := by
  have hdecode := base64Decode_encode (List.ne_nil_of_length_pos hlen)
  have hpad : 0x3d ∉ encodingTable := by decide
  refine ⟨length_base64Encode data,
    ⟨(encodeLoop data).take ((encodeLoop data).length - modTable data.length), ?_, fun x hx => ?_⟩,
    (base64Decode_length hdecode).symm, hdecode⟩
  · rw [← modTable_eq]
    rfl
  · have hx' := encodeLoop_letters x (List.mem_of_mem_take hx)
    exact ⟨hx', fun h => hpad (h ▸ hx')⟩

theorem base64_inverse_four :
    (base64Encode [0x66, 0x6f, 0x6f, 0x62]).length = 8 ∧
      base64Decode (base64Encode [0x66, 0x6f, 0x6f, 0x62]) = .ok (some [0x66, 0x6f, 0x6f, 0x62]) :=
  have hpair := @base64_inverse [0x66, 0x6f, 0x6f, 0x62] (by decide)
  ⟨hpair.1, hpair.2.2.2⟩

end IotClient.Ws
