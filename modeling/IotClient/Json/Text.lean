import IotClient.Json.Value

/-!
# Compact JSON text

`print` writes a value without blanks, escaping quotes, backslashes and control characters;
`parse` reads one value from the front of a text. A text read back gives the value that was
written, for every valid value (`parse_print`, `loads_dumps`).
-/

namespace IotClient.Json

open Mem

/-! ### Writing -/

def hexDigit (n : UInt8) : UInt8 := if n < 10 then 0x30 + n else 0x37 + n

/-- The bytes with a short escape, and the letter behind its backslash. -/
def escapes : List (UInt8 × UInt8) :=
  [(0x22, 0x22), (0x5c, 0x5c), (0x08, 0x62), (0x0c, 0x66), (0x0a, 0x6e), (0x0d, 0x72),
    (0x09, 0x74)]

def shortEscape (b : UInt8) : Option UInt8 := escapes.lookup b

def escape (b : UInt8) : List UInt8 :=
  match shortEscape b with
  | some e => [0x5c, e]
  | none =>
    if b < 0x20 then [0x5c, 0x75, 0x30, 0x30, hexDigit (b / 16), hexDigit (b % 16)] else [b]

def printString (s : List UInt8) : List UInt8 := 0x22 :: (s.flatMap escape ++ [0x22])

def printNat (n : Nat) : List UInt8 :=
  if n < 10 then [UInt8.ofNat (0x30 + n)]
  else printNat (n / 10) ++ [UInt8.ofNat (0x30 + n % 10)]

def printInt : Int → List UInt8
  | .ofNat n => printNat n
  | .negSucc n => 0x2d :: printNat (n + 1)

mutual

def print : Value → List UInt8
  | .null => key "null"
  | .bool true => key "true"
  | .bool false => key "false"
  | .int n => printInt n
  | .str s => printString s
  | .arr [] => key "[]"
  | .arr (x :: xs) => 0x5b :: (print x ++ printElems xs)
  | .obj [] => key "\x7b\x7d"
  | .obj ((k, v) :: ms) => 0x7b :: (printString k ++ 0x3a :: (print v ++ printMembers ms))

/-- The rest of an array. -/
def printElems : List Value → List UInt8
  | [] => [0x5d]
  | x :: xs => 0x2c :: (print x ++ printElems xs)

/-- The rest of an object. -/
def printMembers : List (List UInt8 × Value) → List UInt8
  | [] => [0x7d]
  | (k, v) :: ms => 0x2c :: (printString k ++ 0x3a :: (print v ++ printMembers ms))

end

/-! ### Reading -/

def unescape (e : UInt8) : Option UInt8 := (escapes.map Prod.swap).lookup e

def hexValue (b : UInt8) : UInt8 := if b < 0x3a then b - 0x30 else b - 0x37

/-- A string behind its opening quote, and what follows the closing one. -/
def parseString : List UInt8 → Option (List UInt8 × List UInt8)
  | [] => none
  | b :: r =>
    if b = 0x22 then some ([], r)
    else if b = 0x5c then
      match r with
      | [] => none
      | e :: r =>
        if e = 0x75 then
          match r with
          | _ :: _ :: h1 :: h0 :: r =>
            (parseString r).map fun (s, r) => ((16 * hexValue h1 + hexValue h0) :: s, r)
          | _ => none
        else (unescape e).bind fun b => (parseString r).map fun (s, r) => (b :: s, r)
    else (parseString r).map fun (s, r) => (b :: s, r)

def isDigit (b : UInt8) : Bool := 0x30 ≤ b && b ≤ 0x39

/-- The digits at the front of a text, `n` being the value of those already read. -/
def parseNat (n : Nat) : List UInt8 → Nat × List UInt8
  | [] => (n, [])
  | b :: r => if isDigit b then parseNat (10 * n + (b.toNat - 0x30)) r else (n, b :: r)

/-- What follows `b`, when the text starts with it. -/
def after (b : UInt8) : List UInt8 → Option (List UInt8)
  | [] => none
  | c :: r => if c = b then some r else none

/-- What follows a word, when the text starts with it. -/
def afterWord (w s : List UInt8) : Option (List UInt8) := w.foldlM (fun s b => after b s) s

mutual

def parse : Nat → List UInt8 → Option (Value × List UInt8)
  | 0, _ => none
  | _ + 1, [] => none
  | n + 1, b :: r =>
    if b = 0x22 then (parseString r).map fun (s, r) => (.str s, r)
    else if b = 0x5b then
      match after 0x5d r with
      | some r => some (.arr [], r)
      | none => do
        let (x, r) ← parse n r
        let (xs, r) ← parseElems n r
        some (.arr (x :: xs), r)
    else if b = 0x7b then
      match after 0x7d r with
      | some r => some (.obj [], r)
      | none => do
        let (m, r) ← parseMember n r
        let (ms, r) ← parseMembers n r
        some (.obj (m :: ms), r)
    else if b = 0x2d then some (.int (-(parseNat 0 r).1), (parseNat 0 r).2)
    else if isDigit b then some (.int (parseNat 0 (b :: r)).1, (parseNat 0 (b :: r)).2)
    else if b = 0x6e then (afterWord (key "ull") r).map (.null, ·)
    else if b = 0x74 then (afterWord (key "rue") r).map (.bool true, ·)
    else if b = 0x66 then (afterWord (key "alse") r).map (.bool false, ·)
    else none

/-- The rest of an array. -/
def parseElems : Nat → List UInt8 → Option (List Value × List UInt8)
  | 0, _ => none
  | _ + 1, [] => none
  | n + 1, b :: r =>
    if b = 0x5d then some ([], r)
    else if b = 0x2c then do
      let (x, r) ← parse n r
      let (xs, r) ← parseElems n r
      some (x :: xs, r)
    else none

/-- A key, its colon and the value. -/
def parseMember : Nat → List UInt8 → Option ((List UInt8 × Value) × List UInt8)
  | 0, _ => none
  | n + 1, r => do
    let (k, r) ← parseString (← after 0x22 r)
    let (v, r) ← parse n (← after 0x3a r)
    some ((k, v), r)

/-- The rest of an object. -/
def parseMembers : Nat → List UInt8 → Option (List (List UInt8 × Value) × List UInt8)
  | 0, _ => none
  | _ + 1, [] => none
  | n + 1, b :: r =>
    if b = 0x7d then some ([], r)
    else if b = 0x2c then do
      let (m, r) ← parseMember n r
      let (ms, r) ← parseMembers n r
      some (m :: ms, r)
    else none

end

/-! ### Strings -/

theorem unescape_shortEscape {b e : UInt8} (h : shortEscape b = some e) :
    unescape e = some b ∧ e ≠ 0x75 := by
  obtain ⟨l1, l2, hl, -⟩ := List.lookup_eq_some_iff.mp h
  have hmem : (b, e) ∈ escapes := by rw [hl]; simp
  have hall : escapes.all (fun p => decide (unescape p.2 = some p.1 ∧ p.2 ≠ 0x75)) = true := by
    decide
  exact of_decide_eq_true (List.all_eq_true.mp hall _ hmem)

theorem hexValue_hexDigit : ∀ n : UInt8, n < 16 → hexValue (hexDigit n) = n := by decide +kernel

/-- The two hexadecimal digits of a byte are read back. -/
theorem hex_pair (b : UInt8) :
    16 * hexValue (hexDigit (b / 16)) + hexValue (hexDigit (b % 16)) = b := by
  have hhi : ∀ b : UInt8, b / 16 < 16 := by decide +kernel
  have hlo : ∀ b : UInt8, b % 16 < 16 := by decide +kernel
  have hsum : ∀ b : UInt8, 16 * (b / 16) + b % 16 = b := by decide +kernel
  rw [hexValue_hexDigit _ (hhi b), hexValue_hexDigit _ (hlo b), hsum]

theorem shortEscape_quote {b : UInt8} (h : shortEscape b = none) : b ≠ 0x22 ∧ b ≠ 0x5c := by
  constructor <;> rintro rfl <;> cases h

/-- One escaped byte is read back. -/
theorem parseString_escape (b : UInt8) (r : List UInt8) :
    parseString (escape b ++ r) = (parseString r).map fun (s, r) => (b :: s, r) := by
  cases h : shortEscape b with
  | some e =>
    obtain ⟨he, hu⟩ := unescape_shortEscape h
    have hesc : escape b = [0x5c, e] := by rw [escape, h]
    rw [hesc]
    show parseString (0x5c :: e :: r) = _
    rw [parseString.eq_def (0x5c :: e :: r)]
    simp only [if_neg hu, he, if_true]
    rfl
  | none =>
    obtain ⟨hquote, hslash⟩ := shortEscape_quote h
    by_cases hb : b < 0x20
    · have hesc : escape b =
          [0x5c, 0x75, 0x30, 0x30, hexDigit (b / 16), hexDigit (b % 16)] := by
        unfold escape
        rw [h]
        exact if_pos hb
      rw [hesc]
      show parseString
        (0x5c :: 0x75 :: 0x30 :: 0x30 :: hexDigit (b / 16) :: hexDigit (b % 16) :: r) = _
      rw [parseString.eq_def (_ :: _)]
      simp only [if_true, hex_pair b]
      rfl
    · have hesc : escape b = [b] := by
        unfold escape
        rw [h]
        exact if_neg hb
      rw [hesc]
      show parseString (b :: r) = _
      rw [parseString.eq_def (b :: r)]
      simp only [if_neg hquote, if_neg hslash]

theorem parseString_print (s r : List UInt8) :
    parseString (s.flatMap escape ++ 0x22 :: r) = some (s, r) := by
  induction s with
  | nil =>
    show parseString (0x22 :: r) = _
    rw [parseString.eq_def (0x22 :: r)]
    rfl
  | cons b s ih => rw [List.flatMap_cons, List.append_assoc, parseString_escape, ih]; rfl

/-! ### Numbers -/

/-- What follows a number does not start with a digit. -/
def NoDigit (r : List UInt8) : Prop := ∀ b ∈ r.head?, isDigit b = false

theorem isDigit_digit {d : Nat} (h : d < 10) : isDigit (UInt8.ofNat (0x30 + d)) = true := by
  have hall : ∀ d : Fin 10, isDigit (UInt8.ofNat (0x30 + d)) = true := by decide
  exact hall ⟨d, h⟩

theorem parseNat_digit {d : Nat} (h : d < 10) (n : Nat) (r : List UInt8) :
    parseNat n (UInt8.ofNat (0x30 + d) :: r) = parseNat (10 * n + d) r := by
  have hd : (UInt8.ofNat (0x30 + d)).toNat = 0x30 + d := toNat_ofNat_of_lt (by omega)
  rw [parseNat, if_pos (isDigit_digit h), hd, Nat.add_sub_cancel_left]

theorem parseNat_print (n : Nat) (r : List UInt8) :
    parseNat 0 (printNat n ++ r) = parseNat n r := by
  induction n using Nat.strongRecOn generalizing r with
  | ind n ih =>
    unfold printNat
    by_cases h : n < 10
    · rw [if_pos h, List.singleton_append, parseNat_digit h, Nat.mul_zero, Nat.zero_add]
    · rw [if_neg h, List.append_assoc, ih (n / 10) (by omega), List.singleton_append,
        parseNat_digit (by omega), Nat.div_add_mod]

theorem parseNat_stop {r : List UInt8} (h : NoDigit r) (n : Nat) : parseNat n r = (n, r) := by
  cases r with
  | nil => rfl
  | cons b r => rw [parseNat, h b rfl]; rfl

theorem printNat_head (n : Nat) : ∃ b r, printNat n = b :: r ∧ isDigit b = true := by
  induction n using Nat.strongRecOn with
  | ind n ih =>
    unfold printNat
    by_cases h : n < 10
    · exact ⟨_, [], if_pos h, isDigit_digit h⟩
    · obtain ⟨b, r, hr, hb⟩ := ih (n / 10) (by omega)
      exact ⟨b, _, by rw [if_neg h, hr]; rfl, hb⟩

/-- A text that starts with a digit is read as a number. -/
theorem parse_digit {b : UInt8} (hb : isDigit b = true) (n : Nat) (r : List UInt8) :
    parse (n + 1) (b :: r) =
      some (.int (parseNat 0 (b :: r)).1, (parseNat 0 (b :: r)).2) := by
  have hne : b ≠ 0x22 ∧ b ≠ 0x5b ∧ b ≠ 0x7b ∧ b ≠ 0x2d := by
    refine ⟨?_, ?_, ?_, ?_⟩ <;> rintro rfl <;> cases hb
  obtain ⟨h1, h2, h3, h4⟩ := hne
  unfold parse
  rw [if_neg h1, if_neg h2, if_neg h3, if_neg h4, if_pos hb]

theorem parse_printInt (n : Int) (k : Nat) {r : List UInt8} (hr : NoDigit r) :
    parse (k + 1) (printInt n ++ r) = some (.int n, r) := by
  cases n with
  | ofNat m =>
    obtain ⟨b, t, ht, hb⟩ := printNat_head m
    have hnat : parseNat 0 (b :: (t ++ r)) = (m, r) := by
      rw [← List.cons_append, ← ht, parseNat_print, parseNat_stop hr]
    rw [printInt, ht, List.cons_append, parse_digit hb, hnat]
    rfl
  | negSucc m =>
    unfold printInt
    rw [List.cons_append, parse]
    simp only [parseNat_print, parseNat_stop hr]
    simp [Int.negSucc_eq]

/-! ### Values -/

@[simp] theorem after_self (b : UInt8) (r : List UInt8) : after b (b :: r) = some r := if_pos rfl

theorem after_ne {b c : UInt8} (h : c ≠ b) (r : List UInt8) : after b (c :: r) = none := if_neg h

/-- What follows a value in a text: nothing, a comma or a closing bracket. -/
def Follows (r : List UInt8) : Prop := ∀ b ∈ r.head?, b = 0x2c ∨ b = 0x5d ∨ b = 0x7d

theorem Follows.noDigit {r : List UInt8} (h : Follows r) : NoDigit r := by
  intro b hb
  rcases h b hb with rfl | rfl | rfl <;> rfl

theorem follows_printElems (xs : List Value) (r : List UInt8) : Follows (printElems xs ++ r) := by
  intro b hb
  cases xs <;> (rw [printElems] at hb; cases hb)
  · exact .inr (.inl rfl)
  · exact .inl rfl

theorem follows_printMembers (ms : List (List UInt8 × Value)) (r : List UInt8) :
    Follows (printMembers ms ++ r) := by
  intro b hb
  rcases ms with _ | ⟨⟨k, v⟩, ms⟩ <;> (rw [printMembers] at hb; cases hb)
  · exact .inr (.inr rfl)
  · exact .inl rfl

/-- `print v` in front of any text that may follow a value is read back as `v`. -/
def Reads (v : Value) : Prop :=
  ∀ n r, (print v).length ≤ n → Follows r → parse n (print v ++ r) = some (v, r)

theorem parseElems_print {xs : List Value} (h : ∀ x ∈ xs, Reads x) (n : Nat) (r : List UInt8)
    (hn : (printElems xs).length ≤ n) : parseElems n (printElems xs ++ r) = some (xs, r) := by
  induction xs generalizing n with
  | nil =>
    cases n with
    | zero => simp [printElems] at hn
    | succ n => rfl
  | cons x xs ih =>
    unfold printElems at hn ⊢
    simp only [List.length_cons, List.length_append] at hn
    cases n with
    | zero => omega
    | succ n =>
      rw [List.cons_append, List.append_assoc, parseElems, if_neg (by decide), if_pos rfl,
        h x List.mem_cons_self n _ (by omega) (follows_printElems xs r)]
      simp only [Option.bind_eq_bind, Option.bind_some]
      rw [ih (fun y hy => h y (List.mem_cons_of_mem x hy)) n (by omega)]
      rfl

theorem parseMember_print {k : List UInt8} {v : Value} (h : Reads v) (n : Nat) {r : List UInt8}
    (hn : (print v).length + 1 ≤ n) (hr : Follows r) :
    parseMember n (printString k ++ 0x3a :: (print v ++ r)) = some ((k, v), r) := by
  cases n with
  | zero => omega
  | succ n =>
    unfold printString parseMember
    simp only [List.cons_append, List.append_assoc, after_self, Option.bind_eq_bind,
      Option.bind_some, List.nil_append, parseString_print]
    rw [h n r (by omega) hr]
    rfl

theorem parseMembers_print {ms : List (List UInt8 × Value)} (h : ∀ m ∈ ms, Reads m.2) (n : Nat)
    (r : List UInt8) (hn : (printMembers ms).length ≤ n) :
    parseMembers n (printMembers ms ++ r) = some (ms, r) := by
  induction ms generalizing n with
  | nil =>
    cases n with
    | zero => simp [printMembers] at hn
    | succ n => rfl
  | cons m ms ih =>
    obtain ⟨k, v⟩ := m
    unfold printMembers at hn ⊢
    simp only [List.length_cons, List.length_append] at hn
    cases n with
    | zero => omega
    | succ n =>
      have hv : (print v).length + 1 ≤ n := by omega
      rw [List.cons_append, List.append_assoc, List.cons_append, List.append_assoc, parseMembers,
        if_neg (by decide), if_pos rfl,
        parseMember_print (h (k, v) List.mem_cons_self) n hv (follows_printMembers ms r)]
      simp only [Option.bind_eq_bind, Option.bind_some]
      rw [ih (fun y hy => h y (List.mem_cons_of_mem _ hy)) n (by omega)]
      rfl

/-- No value's text starts with a closing bracket. -/
theorem print_head (v : Value) : ∃ b r, print v = b :: r ∧ b ≠ 0x5d := by
  cases v with
  | null => exact ⟨0x6e, key "ull", rfl, by decide⟩
  | bool b =>
    cases b with
    | false => exact ⟨0x66, key "alse", rfl, by decide⟩
    | true => exact ⟨0x74, key "rue", rfl, by decide⟩
  | int n =>
    cases n with
    | ofNat m =>
      obtain ⟨b, r, hr, hb⟩ := printNat_head m
      exact ⟨b, r, hr, by rintro rfl; cases hb⟩
    | negSucc m => exact ⟨0x2d, _, rfl, by decide⟩
  | str s => exact ⟨0x22, _, rfl, by decide⟩
  | arr xs => cases xs <;> exact ⟨0x5b, _, rfl, by decide⟩
  | obj ms => cases ms <;> exact ⟨0x7b, _, rfl, by decide⟩

theorem reads_int (n : Int) : Reads (.int n) := by
  intro k r hk hr
  cases k with
  | zero =>
    obtain ⟨b, t, ht, -⟩ := print_head (.int n)
    rw [ht] at hk
    cases hk
  | succ k => exact parse_printInt n k hr.noDigit

theorem reads_bool (b : Bool) : Reads (.bool b) := by
  intro n r hn hr
  cases n with
  | zero => cases b <;> cases hn
  | succ n => cases b <;> rfl

theorem reads_str (s : List UInt8) : Reads (.str s) := by
  intro k r hk hr
  cases k with
  | zero => cases hk
  | succ k =>
    unfold print printString
    rw [List.cons_append, List.append_assoc, parse, if_pos rfl]
    exact congrArg (Option.map _) (parseString_print s r)

theorem reads_arr {xs : List Value} (h : ∀ x ∈ xs, Reads x) : Reads (.arr xs) := by
  intro n r hn hr
  cases xs with
  | nil => cases n <;> [cases hn; rfl]
  | cons x xs =>
    obtain ⟨b, t, ht, hb⟩ := print_head x
    unfold print at hn ⊢
    simp only [List.length_cons, List.length_append] at hn
    cases n with
    | zero => omega
    | succ n =>
      have hafter : after 0x5d (print x ++ (printElems xs ++ r)) = none := by
        rw [ht]
        exact after_ne hb _
      rw [List.cons_append, List.append_assoc, parse, if_neg (by decide), if_pos rfl, hafter]
      simp only
      rw [h x List.mem_cons_self n _ (by omega) (follows_printElems xs r)]
      simp only [Option.bind_eq_bind, Option.bind_some]
      rw [parseElems_print (fun y hy => h y (List.mem_cons_of_mem x hy)) n r (by omega)]
      rfl

theorem reads_obj {ms : List (List UInt8 × Value)} (h : ∀ m ∈ ms, Reads m.2) :
    Reads (.obj ms) := by
  intro n r hn hr
  cases ms with
  | nil => cases n <;> [cases hn; rfl]
  | cons m ms =>
    obtain ⟨k, v⟩ := m
    unfold print at hn ⊢
    simp only [List.length_cons, List.length_append] at hn
    cases n with
    | zero => omega
    | succ n =>
      have hv : (print v).length + 1 ≤ n := by omega
      rw [List.cons_append, List.append_assoc, List.cons_append, List.append_assoc, parse,
        if_neg (by decide), if_neg (by decide), if_pos rfl]
      have hafter : after 0x7d (printString k ++ 0x3a :: (print v ++ (printMembers ms ++ r))) =
          none := after_ne (by decide) _
      rw [hafter]
      simp only
      rw [parseMember_print (h (k, v) List.mem_cons_self) n hv (follows_printMembers ms r)]
      simp only [Option.bind_eq_bind, Option.bind_some]
      rw [parseMembers_print (fun y hy => h y (List.mem_cons_of_mem _ hy)) n r (by omega)]
      rfl

theorem reads_valid {v : Value} (h : v.Valid) : Reads v := by
  induction h with
  | null => intro n r hn hr; cases n <;> [cases hn; rfl]
  | bool b => exact reads_bool b
  | int _ _ => exact reads_int _
  | str _ => exact reads_str _
  | arr _ ih => exact reads_arr ih
  | obj _ _ _ ih => exact reads_obj ih

/-- The text of a value. -/
def dumps (v : Value) : List UInt8 := print v

/-- The value a text holds and nothing else. -/
def loads (s : List UInt8) : Option Value :=
  match parse s.length s with
  | some (v, []) => some v
  | _ => none

/-- Reading inverts writing on valid values. -/
theorem loads_dumps {v : Value} (h : v.Valid) : loads (dumps v) = some v := by
  have hread := reads_valid h (print v).length [] (Nat.le_refl _) (by intro b hb; cases hb)
  rw [List.append_nil] at hread
  unfold loads dumps
  rw [hread]

end IotClient.Json
