import IotClient.App.Config

/-!
# The strings of a configuration file

A line `key:text` should store its text. The copy of the text ends with a byte that was never
written, and its terminator is written behind the block: what is stored is the text if and only if
that byte happens to be 0 and the block has room for one more (`stores_iff`).
-/

namespace IotClient.App

open Mem

/-! ### The lines of a file -/

/-- A line that `fgets` reads at once. -/
def IsLine (line : List UInt8) : Prop :=
  ∃ text, line = text ++ [10] ∧ 10 ∉ text ∧ line.length < maxBuf

theorem fgets_line {n : Nat} {text : List UInt8} (rest : List UInt8) (h : 10 ∉ text)
    (hn : text.length < n) : fgets n (text ++ [10] ++ rest) = (text ++ [10], rest) := by
  induction text generalizing n with
  | nil =>
    obtain ⟨k, rfl⟩ : ∃ k, n = k + 1 := ⟨n - 1, by rw [List.length_nil] at hn; omega⟩
    rfl
  | cons x text ih =>
    rw [List.mem_cons, not_or] at h
    rw [List.length_cons] at hn
    obtain ⟨k, rfl⟩ : ∃ k, n = k + 1 := ⟨n - 1, by omega⟩
    rw [List.cons_append, List.cons_append, fgets, if_neg (Ne.symm h.1), ih h.2 (by omega)]

theorem readLines_flatten {ls : List (List UInt8)} (h : ∀ line ∈ ls, IsLine line) {fuel : Nat}
    (hfuel : ls.flatten.length ≤ fuel) : readLines fuel ls.flatten = ls := by
  induction ls generalizing fuel with
  | nil => cases fuel <;> rfl
  | cons line ls ih =>
    obtain ⟨⟨text, rfl, h10, hlt⟩, hls⟩ := List.forall_mem_cons.1 h
    rw [List.length_append, List.length_singleton, maxBuf] at hlt
    rw [List.flatten_cons, List.length_append, List.length_append, List.length_singleton] at hfuel
    obtain ⟨k, rfl⟩ : ∃ k, fuel = k + 1 := ⟨fuel - 1, by omega⟩
    obtain ⟨x, file, hfile⟩ : ∃ x file, text ++ [10] ++ ls.flatten = x :: file :=
      List.exists_cons_of_ne_nil (by simp)
    have hfgets := fgets_line ls.flatten h10 (n := maxBuf - 1) (by rw [maxBuf]; omega)
    have hread : readLines (k + 1) (x :: file) =
        (fgets (maxBuf - 1) (x :: file)).1 :: readLines k (fgets (maxBuf - 1) (x :: file)).2 := rfl
    rw [List.flatten_cons, hfile, hread, ← hfile, hfgets]
    exact congrArg _ (ih hls (by omega))

theorem lines_flatten {ls : List (List UInt8)} (h : ∀ line ∈ ls, IsLine line) :
    lines ls.flatten = ls := readLines_flatten h (Nat.le_refl _)

namespace Config

variable {heap : Heap} {behind line pre v : List UInt8} {c : Config} {k : StringKey}

theorem loadLines_append (heap : Heap) (ls ls' : List (List UInt8)) : ∀ (i : Nat) (c : Config),
    loadLines heap i c (ls ++ ls') =
      (do loadLines heap (i + ls.length) (← loadLines heap i c ls) ls') := by
  induction ls with
  | nil => exact fun _ _ => rfl
  | cons line ls ih =>
    intro i c
    rw [List.cons_append, loadLines, loadLines, bind_assoc]
    refine bind_congr fun c' => ?_
    rw [ih, List.length_cons, Nat.add_assoc, Nat.add_comm 1]

/-- The loop reaches each line of the file in turn. -/
theorem readConfig_split {ls : List (List UInt8)} (h : ∀ line ∈ ls, IsLine line) {i : Nat}
    (hi : ls[i]? = some line) : readConfig heap ls.flatten = (do
      let c ← loadLines heap 0 (.initial heap) (ls.take i)
      let c ← c.loadLine heap (heap.behind i) line
      loadLines heap (i + 1) c (ls.drop (i + 1))) := by
  obtain ⟨hlt, hget⟩ := List.getElem?_eq_some_iff.1 hi
  have hsplit : ls = ls.take i ++ line :: ls.drop (i + 1) := by
    rw [← hget, ← List.drop_eq_getElem_cons hlt, List.take_append_drop]
  have hlen : (ls.take i).length = i := by
    rw [List.length_take]
    omega
  unfold readConfig
  rw [lines_flatten h]
  conv => lhs; rw [hsplit]
  rw [loadLines_append, hlen, Nat.zero_add]
  rfl

/-! ### A line -/

/-- The line stores `v` under its key, and changes nothing else. The block has a byte more than `v`,
for the terminator. -/
def Stores (heap : Heap) (behind : List UInt8) (c : Config) (line : List UInt8) (k : StringKey)
    (v : List UInt8) : Prop :=
  ∃ s, c.loadLine heap behind line = .ok (c.setString s k) ∧ s.bytes = v

theorem setString_inj {s s' : CString} (h : c.setString s k = c.setString s' k) : s = s' := by
  have hstring := congrArg (fun c => c.string k) h
  rw [string_setString, string_setString, if_pos rfl, if_pos rfl] at hstring
  exact Option.some.inj hstring

theorem afterDelim_eq {l : CString} (h : l.bytes = pre ++ 0x3a :: v) (hpre : 0x3a ∉ pre) :
    afterDelim l = some (CString.ofBytes v) := by
  have hdrop : l.bytes.dropWhile (· ≠ 0x3a) = 0x3a :: v := by
    rw [h, List.dropWhile_append_of_pos, List.dropWhile_cons_of_neg (by decide)]
    intro x hx
    simpa using fun h0 : x = 0x3a => hpre (h0 ▸ hx)
  unfold afterDelim
  rw [hdrop]

theorem afterDelim_none {l : CString} (h : 0x3a ∉ l.bytes) : afterDelim l = none := by
  have hdrop : l.bytes.dropWhile (· ≠ 0x3a) = [] := by
    rw [List.dropWhile_eq_nil_iff]
    intro x hx
    simpa using fun h0 : x = 0x3a => h (h0 ▸ hx)
  unfold afterDelim
  rw [hdrop]

/-- What a line that sets a string is taken for. -/
theorem parseLine_of_keyOf {key : Key} (hkey : keyOf line = some key) :
    ∃ value, afterDelim (CString.ofBytes line) = some value ∧
      parseLine line = .ok (some (key, value)) := by
  unfold keyOf at hkey
  split at hkey
  next key' value hparse =>
    cases hkey
    refine ⟨value, ?_, hparse⟩
    unfold parseLine at hparse
    split at hparse
    · cases hparse
    · split at hparse
      next key' value' _ hvalue =>
        rw [pure_eq_ok, Except.ok.injEq, Option.map_eq_some_iff] at hparse
        obtain ⟨p, -, hp⟩ := hparse
        cases hp
        exact hvalue
      · cases hparse
      · cases hparse
  · cases hkey

theorem ofBytes_append {s : List UInt8} (h0 : 0 ∉ s) (behind : List UInt8) :
    (CString.ofBytes (s ++ behind)).bytes = s ↔ behind.headD 0 = 0 := by
  have htake : (CString.ofBytes (s ++ behind)).bytes = s ++ behind.takeWhile (· ≠ 0) := by
    refine List.takeWhile_append_of_pos ?_
    intro x hx
    simpa using fun hx0 : x = 0 => h0 (hx0 ▸ hx)
  rw [htake, List.append_right_eq_self]
  cases behind with
  | nil => exact iff_of_true rfl rfl
  | cons x xs =>
    rw [List.headD_cons, List.takeWhile_cons]
    by_cases hx : x = 0 <;> simp [hx]

/-- A line stores its text if and only if that has no NUL, the byte behind it in the block of the copy
is 0, and there is room for another behind the block. -/
theorem loadLine_stores_iff (hpre : 0x3a ∉ pre)
    (hkey : keyOf (pre ++ 0x3a :: (v ++ [10])) = some (.string k)) :
    Stores heap behind c (pre ++ 0x3a :: (v ++ [10])) k v ↔
      0 ∉ v ∧ heap.padded (v.length + 1) ∧ behind.headD 0 = 0 := by
  obtain ⟨value, hafter, hparse⟩ := parseLine_of_keyOf hkey
  have hload : c.loadLine heap behind (pre ++ 0x3a :: (v ++ [10])) =
      (do pure (c.setString (← getStrFromValue heap behind value) k)) := by
    rw [loadLine, hparse]
    rfl
  unfold Stores
  rw [hload]
  by_cases h0 : 0 ∈ v
  · refine iff_of_false ?_ fun h => h.1 h0
    rintro ⟨s, -, rfl⟩
    exact s.nulFree h0
  have hv : 0 ∉ v ++ [10] := by simpa using h0
  have hpre0 : 0 ∉ pre := by
    intro hmem
    obtain ⟨head, tail, rfl, hhead⟩ := List.eq_append_cons_of_mem hmem
    have hcut : (CString.ofBytes (head ++ 0 :: tail ++ 0x3a :: (v ++ [10]))).bytes = head := by
      rw [List.append_assoc]
      exact (ofBytes_append hhead _).2 rfl
    have hcolon : 0x3a ∉ (CString.ofBytes (head ++ 0 :: tail ++ 0x3a :: (v ++ [10]))).bytes := by
      rw [hcut]
      exact fun h => hpre (List.mem_append_left _ h)
    rw [afterDelim_none hcolon] at hafter
    cases hafter
  have hline : 0 ∉ pre ++ 0x3a :: (v ++ [10]) := by
    rw [List.mem_append, List.mem_cons, not_or, not_or]
    exact ⟨hpre0, by decide, hv⟩
  have hbytes : (CString.ofBytes (pre ++ 0x3a :: (v ++ [10]))).bytes = pre ++ 0x3a :: (v ++ [10]) := by
    rw [CString.ofBytes_of_nulFree hline]
  rw [afterDelim_eq hbytes hpre, Option.some.injEq, CString.ofBytes_of_nulFree hv] at hafter
  subst hafter
  have hstrlen : CString.strlen ⟨v ++ [10], hv⟩ = v.length + 1 := List.length_append
  rw [← ofBytes_append h0]
  unfold getStrFromValue
  rw [hstrlen, if_neg (Nat.succ_ne_zero _), List.dropLast_concat]
  cases heap.padded (v.length + 1) with
  | false =>
    refine iff_of_false ?_ fun h => Bool.false_ne_true h.2.1
    rintro ⟨s, hs, -⟩
    cases hs
  | true =>
    constructor
    · rintro ⟨s, hs, hbytes⟩
      obtain rfl := setString_inj (Except.ok.inj hs)
      exact ⟨h0, rfl, hbytes⟩
    · rintro ⟨-, -, hbytes⟩
      exact ⟨_, rfl, hbytes⟩

/-- The line of a file that sets a string. -/
theorem stores_iff {ls : List (List UInt8)} (hls : ∀ line ∈ ls, IsLine line) {i : Nat}
    (hi : ls[i]? = some (pre ++ 0x3a :: (v ++ [10]))) (hpre : 0x3a ∉ pre)
    (hkey : keyOf (pre ++ 0x3a :: (v ++ [10])) = some (.string k)) :
    (readConfig heap ls.flatten = (do
      let c ← loadLines heap 0 (.initial heap) (ls.take i)
      let c ← c.loadLine heap (heap.behind i) (pre ++ 0x3a :: (v ++ [10]))
      loadLines heap (i + 1) c (ls.drop (i + 1)))) ∧
    ∀ c, Stores heap (heap.behind i) c (pre ++ 0x3a :: (v ++ [10])) k v ↔
      0 ∉ v ∧ heap.padded (v.length + 1) ∧ (heap.behind i).headD 0 = 0 :=
  ⟨readConfig_split hls hi, fun _ => loadLine_stores_iff hpre hkey⟩

/-- Memory in which a block has room for one byte more, and holds `x` where a copy ends. -/
def heapOf (x : UInt8) : Heap where
  padded := fun _ => true
  behind := fun _ => [x]
  cleanSession := 0

/-- `username:bob` -/
def usernameLine : List UInt8 :=
  [0x75, 0x73, 0x65, 0x72, 0x6e, 0x61, 0x6d, 0x65] ++ 0x3a :: ([0x62, 0x6f, 0x62] ++ [10])

theorem isLine_usernameLine : ∀ line ∈ [usernameLine], IsLine line :=
  List.forall_mem_singleton.2
    ⟨[0x75, 0x73, 0x65, 0x72, 0x6e, 0x61, 0x6d, 0x65, 0x3a, 0x62, 0x6f, 0x62], by decide⟩

theorem keyOf_usernameLine : keyOf usernameLine = some (.string .username) := by decide +kernel

theorem stores_iff_usernameLine :
    (∀ line ∈ [usernameLine], IsLine line) ∧ keyOf usernameLine = some (.string .username) ∧
      ∀ c, Stores (heapOf 0) [0] c usernameLine .username [0x62, 0x6f, 0x62] ↔
        0 ∉ [(0x62 : UInt8), 0x6f, 0x62] ∧ (heapOf 0).padded 4 ∧ [(0 : UInt8)].headD 0 = 0 :=
  ⟨isLine_usernameLine, keyOf_usernameLine,
    (stores_iff (i := 0) isLine_usernameLine rfl (by decide) keyOf_usernameLine).2⟩

/-- In memory that held an `x`, the user name becomes `bobx`. -/
theorem usernameLine_not_stored :
    (∀ line ∈ [usernameLine], IsLine line) ∧ keyOf usernameLine = some (.string .username) ∧
      ∀ c, ¬ Stores (heapOf 0x78) [0x78] c usernameLine .username [0x62, 0x6f, 0x62] := by
  refine ⟨isLine_usernameLine, keyOf_usernameLine, fun c h => ?_⟩
  have hbehind := ((loadLine_stores_iff (by decide) keyOf_usernameLine).1 h).2.2
  exact absurd hbehind (by decide)

end Config

end IotClient.App
