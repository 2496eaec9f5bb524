import IotClient.Helpers

/-!
# What `utf8_check` accepts

An encoding is the UTF-8 of a code point other than U+FFFE and U+FFFF; `Char` has no surrogates and
ends at U+10FFFF. `Accepts` is what the branches of `utf8_check` ask of the bytes of an encoding, and
they ask no more and no less (`isEncoding_iff`). So the function stops behind the longest text in
front (`utf8Check_iff`).
-/

namespace IotClient

open Mem

/-- The UTF-8 of a code point other than U+FFFE and U+FFFF. -/
def IsEncoding (u : List UInt8) : Prop :=
  ∃ c : Char, c.toNat ≠ 0xfffe ∧ c.toNat ≠ 0xffff ∧ u = String.utf8EncodeChar c

/-- Encodings, one after the other. -/
def IsUtf8 (bs : List UInt8) : Prop :=
  ∃ us : List (List UInt8), (∀ u ∈ us, IsEncoding u) ∧ bs = us.flatten

/-- `i` is the position of the first byte that starts no encoding. -/
def StopsAt (bs : List UInt8) (i : Nat) : Prop :=
  ∃ pre rest, bs = pre ++ rest ∧ i = pre.length ∧ IsUtf8 pre ∧ rest ≠ [] ∧
    ∀ u, IsEncoding u → ¬ u <+: rest

/-! ### The bytes of an encoding -/

/-- `10xxxxxx` -/
def IsTail (b : UInt8) : Prop := b &&& 0xc0 = 0x80

/-- The tests of `utf8_check`. -/
def Accepts : List UInt8 → Prop
  | [a] => a < 0x80
  | [a, b] => a &&& 0xe0 = 0xc0 ∧ IsTail b ∧ a &&& 0xfe ≠ 0xc0
  | [a, b, c] => a &&& 0xf0 = 0xe0 ∧ IsTail b ∧ IsTail c ∧ ¬ (a = 0xe0 ∧ b &&& 0xe0 = 0x80) ∧
      ¬ (a = 0xed ∧ b &&& 0xe0 = 0xa0) ∧ ¬ (a = 0xef ∧ b = 0xbf ∧ c &&& 0xfe = 0xbe)
  | [a, b, c, d] => a &&& 0xf8 = 0xf0 ∧ IsTail b ∧ IsTail c ∧ IsTail d ∧
      ¬ (a = 0xf0 ∧ b &&& 0xf0 = 0x80) ∧ ¬ (a = 0xf4 ∧ b > 0x8f) ∧ ¬ a > 0xf4
  | _ => False

section Masks

variable {x : UInt8}

theorem isTail_iff : IsTail x ↔ 0x80 ≤ x.toNat ∧ x.toNat ≤ 0xbf :=
  mask_iff 6 2 (by decide) rfl rfl

theorem mask_two : x &&& 0xe0 = 0xc0 ↔ 0xc0 ≤ x.toNat ∧ x.toNat ≤ 0xdf :=
  mask_iff 5 6 (by decide) rfl rfl

theorem mask_three : x &&& 0xf0 = 0xe0 ↔ 0xe0 ≤ x.toNat ∧ x.toNat ≤ 0xef :=
  mask_iff 4 14 (by decide) rfl rfl

theorem mask_four : x &&& 0xf8 = 0xf0 ↔ 0xf0 ≤ x.toNat ∧ x.toNat ≤ 0xf7 :=
  mask_iff 3 30 (by decide) rfl rfl

theorem mask_overlong_two : x &&& 0xfe = 0xc0 ↔ 0xc0 ≤ x.toNat ∧ x.toNat ≤ 0xc1 :=
  mask_iff 1 96 (by decide) rfl rfl

theorem mask_overlong_three : x &&& 0xe0 = 0x80 ↔ 0x80 ≤ x.toNat ∧ x.toNat ≤ 0x9f :=
  mask_iff 5 4 (by decide) rfl rfl

theorem mask_surrogate : x &&& 0xe0 = 0xa0 ↔ 0xa0 ≤ x.toNat ∧ x.toNat ≤ 0xbf :=
  mask_iff 5 5 (by decide) rfl rfl

theorem mask_nonCharacter : x &&& 0xfe = 0xbe ↔ 0xbe ≤ x.toNat ∧ x.toNat ≤ 0xbf :=
  mask_iff 1 95 (by decide) rfl rfl

theorem mask_overlong_four : x &&& 0xf0 = 0x80 ↔ 0x80 ≤ x.toNat ∧ x.toNat ≤ 0x8f :=
  mask_iff 4 8 (by decide) rfl rfl

end Masks

/-- The tests as bounds. -/
theorem accepts_one {a : UInt8} : Accepts [a] ↔ a.toNat < 0x80 := UInt8.lt_iff_toNat_lt

theorem accepts_two {a b : UInt8} : Accepts [a, b] ↔
    0xc2 ≤ a.toNat ∧ a.toNat ≤ 0xdf ∧ 0x80 ≤ b.toNat ∧ b.toNat ≤ 0xbf := by
  simp only [Accepts, mask_two, isTail_iff, ne_eq, mask_overlong_two]
  omega

theorem accepts_three {a b c : UInt8} : Accepts [a, b, c] ↔
    0xe0 ≤ a.toNat ∧ a.toNat ≤ 0xef ∧ 0x80 ≤ b.toNat ∧ b.toNat ≤ 0xbf ∧ 0x80 ≤ c.toNat ∧
      c.toNat ≤ 0xbf ∧ (a.toNat = 0xe0 → 0xa0 ≤ b.toNat) ∧ (a.toNat = 0xed → b.toNat < 0xa0) ∧
      (a.toNat = 0xef → b.toNat = 0xbf → c.toNat < 0xbe) := by
  simp only [Accepts, mask_three, isTail_iff, mask_overlong_three, mask_surrogate,
    mask_nonCharacter]
  simp only [← UInt8.toNat_inj, UInt8.reduceToNat]
  omega

theorem accepts_four {a b c d : UInt8} : Accepts [a, b, c, d] ↔
    0xf0 ≤ a.toNat ∧ a.toNat ≤ 0xf4 ∧ 0x80 ≤ b.toNat ∧ b.toNat ≤ 0xbf ∧ 0x80 ≤ c.toNat ∧
      c.toNat ≤ 0xbf ∧ 0x80 ≤ d.toNat ∧ d.toNat ≤ 0xbf ∧ (a.toNat = 0xf0 → 0x90 ≤ b.toNat) ∧
      (a.toNat = 0xf4 → b.toNat ≤ 0x8f) := by
  simp only [Accepts, mask_four, isTail_iff, mask_overlong_four, gt_iff_lt, UInt8.lt_iff_toNat_lt]
  simp only [← UInt8.toNat_inj, UInt8.reduceToNat]
  omega

/-! ### The encodings are what the tests accept -/

theorem utf8EncodeChar_eq (c : Char) : String.utf8EncodeChar c =
    if c.toNat ≤ 0x7f then [UInt8.ofNat c.toNat]
    else if c.toNat ≤ 0x7ff then
      [UInt8.ofNat (c.toNat / 64 % 0x20 + 0xc0), UInt8.ofNat (c.toNat % 0x40 + 0x80)]
    else if c.toNat ≤ 0xffff then
      [UInt8.ofNat (c.toNat / 4096 % 0x10 + 0xe0), UInt8.ofNat (c.toNat / 64 % 0x40 + 0x80),
        UInt8.ofNat (c.toNat % 0x40 + 0x80)]
    else
      [UInt8.ofNat (c.toNat / 262144 % 0x08 + 0xf0), UInt8.ofNat (c.toNat / 4096 % 0x40 + 0x80),
        UInt8.ofNat (c.toNat / 64 % 0x40 + 0x80), UInt8.ofNat (c.toNat % 0x40 + 0x80)] := rfl

theorem accepts_of_isEncoding {u : List UInt8} (h : IsEncoding u) : Accepts u := by
  obtain ⟨c, hfffe, hffff, rfl⟩ := h
  have hscalar : c.toNat < 0xd800 ∨ 0xdfff < c.toNat ∧ c.toNat < 0x110000 := c.valid
  rw [utf8EncodeChar_eq]
  split
  case isTrue h1 =>
    rw [accepts_one, UInt8.toNat_ofNat']
    omega
  case isFalse h1 =>
    split
    case isTrue h2 =>
      rw [accepts_two, UInt8.toNat_ofNat', UInt8.toNat_ofNat']
      omega
    case isFalse h2 =>
      split
      case isTrue h3 =>
        rw [accepts_three, UInt8.toNat_ofNat', UInt8.toNat_ofNat', UInt8.toNat_ofNat']
        omega
      case isFalse h3 =>
        rw [accepts_four, UInt8.toNat_ofNat', UInt8.toNat_ofNat', UInt8.toNat_ofNat',
          UInt8.toNat_ofNat']
        omega

/-- A code point that is no surrogate is a `Char`. -/
theorem isEncoding_of {u : List UInt8} (v : Nat)
    (hv : v < 0xd800 ∨ 0xdfff < v ∧ v < 0x110000) (hne : v ≠ 0xfffe ∧ v ≠ 0xffff)
    (h : ∀ c : Char, c.toNat = v → String.utf8EncodeChar c = u) : IsEncoding u := by
  have hvalid : v.isValidChar := hv
  have htoNat : (Char.ofNat v).toNat = v := by
    rw [Char.ofNat, dif_pos hvalid]
    rfl
  exact ⟨Char.ofNat v, by rw [htoNat]; exact hne.1, by rw [htoNat]; exact hne.2, (h _ htoNat).symm⟩

theorem ofNat_eq {n : Nat} {a : UInt8} (h : n = a.toNat) : UInt8.ofNat n = a := by
  rw [h, UInt8.ofNat_toNat]

theorem isEncoding_of_accepts : ∀ {u : List UInt8}, Accepts u → IsEncoding u
  | [a], h => by
    rw [accepts_one] at h
    refine isEncoding_of a.toNat (by omega) (by omega) fun c hc => ?_
    rw [utf8EncodeChar_eq, hc, if_pos (by omega), ofNat_eq rfl]
  | [a, b], h => by
    rw [accepts_two] at h
    refine isEncoding_of (a.toNat % 32 * 64 + b.toNat % 64) (by omega) (by omega) fun c hc => ?_
    rw [utf8EncodeChar_eq, hc, if_neg (by omega), if_pos (by omega), ofNat_eq (a := a) (by omega),
      ofNat_eq (a := b) (by omega)]
  | [a, b, c], h => by
    rw [accepts_three] at h
    refine isEncoding_of (a.toNat % 16 * 4096 + b.toNat % 64 * 64 + c.toNat % 64) (by omega)
      (by omega) fun x hx => ?_
    rw [utf8EncodeChar_eq, hx, if_neg (by omega), if_neg (by omega), if_pos (by omega),
      ofNat_eq (a := a) (by omega), ofNat_eq (a := b) (by omega), ofNat_eq (a := c) (by omega)]
  | [a, b, c, d], h => by
    rw [accepts_four] at h
    refine isEncoding_of
      (a.toNat % 8 * 262144 + b.toNat % 64 * 4096 + c.toNat % 64 * 64 + d.toNat % 64) (by omega)
      (by omega) fun x hx => ?_
    rw [utf8EncodeChar_eq, hx, if_neg (by omega), if_neg (by omega), if_neg (by omega),
      ofNat_eq (a := a) (by omega), ofNat_eq (a := b) (by omega), ofNat_eq (a := c) (by omega),
      ofNat_eq (a := d) (by omega)]

theorem isEncoding_iff {u : List UInt8} : IsEncoding u ↔ Accepts u :=
  ⟨accepts_of_isEncoding, isEncoding_of_accepts⟩

/-! ### One turn of the loop -/

section Loop

variable {s rest : List UInt8} {i : Nat}

/-- The byte at a position, which is the NUL at the end of the text. -/
theorem rd_text (h : s.drop i = rest ++ [0]) :
    ∃ b, rd s i = .ok b ∧ (b ≠ 0 → ∃ r, rest = b :: r ∧ s.drop (i + 1) = r ++ [0]) := by
  cases rest with
  | nil => exact ⟨0, rd_drop h, fun h0 => absurd rfl h0⟩
  | cons b r => exact ⟨b, rd_drop h, fun _ => ⟨r, rfl, drop_succ h⟩⟩

theorem IsTail.test {b : UInt8} (h : IsTail b) : ¬ (b &&& 0xc0 ≠ 0x80) := not_not.2 h

theorem IsTail.ne_zero {b : UInt8} (h : IsTail b) : b ≠ 0 := by
  rintro rfl
  rw [isTail_iff] at h
  exact absurd h.1 (by decide)

theorem Accepts.head_ne_zero {a : UInt8} {u : List UInt8} (h : Accepts (a :: u)) (hu : u ≠ []) :
    a ≠ 0 ∧ ¬ a < 0x80 := by
  rw [ne_eq, ← UInt8.toNat_inj, UInt8.lt_iff_toNat_lt]
  match u, h with
  | [], _ => exact absurd rfl hu
  | [b], h =>
    rw [accepts_two] at h
    simp only [UInt8.reduceToNat]
    omega
  | [b, c], h =>
    rw [accepts_three] at h
    simp only [UInt8.reduceToNat]
    omega
  | [b, c, d], h =>
    rw [accepts_four] at h
    simp only [UInt8.reduceToNat]
    omega

theorem not_mask_two {a : UInt8} (h : 0xe0 ≤ a.toNat) : ¬ (a &&& 0xe0 = 0xc0) := by
  rw [mask_two]
  omega

theorem not_mask_three {a : UInt8} (h : 0xf0 ≤ a.toNat) : ¬ (a &&& 0xf0 = 0xe0) := by
  rw [mask_three]
  omega

/-- An accepted encoding is passed. -/
theorem utf8CheckFrom_unit {u : List UInt8} (hu : Accepts u) (h0 : 0 ∉ u)
    (h : s.drop i = u ++ rest) (fuel : Nat) :
    utf8CheckFrom s (fuel + 1) i = utf8CheckFrom s fuel (i + u.length) := by
  match u, hu with
  | [a], hu =>
    have ha : a ≠ 0 := fun ha => h0 (by rw [ha]; exact List.mem_singleton_self 0)
    rw [utf8CheckFrom, rd_drop h, ok_bind, if_neg ha]
    exact if_pos hu
  | [a, b], hu =>
    have hhead := hu.head_ne_zero (List.cons_ne_nil _ _)
    obtain ⟨hmask, htail, hoverlong⟩ := hu
    rw [utf8CheckFrom, rd_drop h, ok_bind, if_neg hhead.1, if_neg hhead.2, if_pos hmask,
      rd_drop (drop_succ h), ok_bind, if_neg (not_or.2 ⟨htail.test, hoverlong⟩)]
    rfl
  | [a, b, c], hu =>
    have hhead := hu.head_ne_zero (List.cons_ne_nil _ _)
    obtain ⟨hmask, hb, hc, hoverlong, hsurrogate, hnon⟩ := hu
    have htwo := not_mask_two (mask_three.1 hmask).1
    rw [utf8CheckFrom, rd_drop h, ok_bind, if_neg hhead.1, if_neg hhead.2, if_neg htwo, if_pos hmask,
      rd_drop (drop_succ h), ok_bind, if_neg hb.test, rd_drop (drop_succ (drop_succ h)),
      ok_bind, if_neg (not_or.2 ⟨hc.test, not_or.2 ⟨hoverlong, not_or.2 ⟨hsurrogate, hnon⟩⟩⟩)]
    rfl
  | [a, b, c, d], hu =>
    have hhead := hu.head_ne_zero (List.cons_ne_nil _ _)
    obtain ⟨hmask, hb, hc, hd, hoverlong, hrange, hmax⟩ := hu
    have hthree := not_mask_three (mask_four.1 hmask).1
    have htwo := not_mask_two (Nat.le_trans (by decide) (mask_four.1 hmask).1)
    rw [utf8CheckFrom, rd_drop h, ok_bind, if_neg hhead.1, if_neg hhead.2, if_neg htwo,
      if_neg hthree, if_pos hmask, rd_drop (drop_succ h), ok_bind, if_neg hb.test,
      rd_drop (drop_succ (drop_succ h)), ok_bind, if_neg hc.test,
      rd_drop (drop_succ (drop_succ (drop_succ h))), ok_bind,
      if_neg (not_or.2 ⟨hd.test, not_or.2 ⟨hoverlong, not_or.2 ⟨hrange, hmax⟩⟩⟩)]
    rfl

theorem utf8CheckFrom_end (h : s.drop i = [0]) (fuel : Nat) :
    utf8CheckFrom s (fuel + 1) i = .ok none := by
  rw [utf8CheckFrom, rd_drop h, ok_bind, if_pos rfl]
  rfl

/-- Where no accepted encoding starts, the loop stops. The NUL is no tail, so a truncated encoding
is left before it. -/
theorem utf8CheckFrom_stop (h : s.drop i = rest ++ [0]) (hne : rest ≠ []) (h0 : 0 ∉ rest)
    (hno : ∀ u, Accepts u → ¬ u <+: rest) (fuel : Nat) :
    utf8CheckFrom s (fuel + 1) i = .ok (some i) := by
  obtain ⟨a, r, rfl⟩ := List.exists_cons_of_ne_nil hne
  have ha : a ≠ 0 := fun ha => h0 (ha ▸ List.mem_cons_self)
  have hone : ¬ a < 0x80 := fun hlt => hno [a] hlt ⟨r, rfl⟩
  rw [utf8CheckFrom, rd_drop h, ok_bind, if_neg ha, if_neg hone]
  obtain ⟨b, hb, hnext⟩ := rd_text (drop_succ h)
  by_cases htwo : a &&& 0xe0 = 0xc0
  · rw [if_pos htwo, hb, ok_bind]
    refine if_pos (by_contra fun hgo => ?_)
    rw [not_or, not_not] at hgo
    obtain ⟨r', rfl, -⟩ := hnext (IsTail.ne_zero hgo.1)
    exact hno [a, b] ⟨htwo, hgo⟩ ⟨r', rfl⟩
  rw [if_neg htwo]
  by_cases hthree : a &&& 0xf0 = 0xe0
  · rw [if_pos hthree, hb, ok_bind]
    by_cases htb : IsTail b
    case neg => exact if_pos htb
    obtain ⟨r', rfl, hdrop⟩ := hnext htb.ne_zero
    obtain ⟨c, hc, hnext'⟩ := rd_text hdrop
    rw [if_neg htb.test, hc, ok_bind]
    refine if_pos (by_contra fun hgo => ?_)
    rw [not_or, not_or, not_or, not_not] at hgo
    obtain ⟨r'', rfl, -⟩ := hnext' (IsTail.ne_zero hgo.1)
    exact hno [a, b, c] ⟨hthree, htb, hgo⟩ ⟨r'', rfl⟩
  rw [if_neg hthree]
  by_cases hfour : a &&& 0xf8 = 0xf0
  · rw [if_pos hfour, hb, ok_bind]
    by_cases htb : IsTail b
    case neg => exact if_pos htb
    obtain ⟨r', rfl, hdrop⟩ := hnext htb.ne_zero
    obtain ⟨c, hc, hnext'⟩ := rd_text hdrop
    rw [if_neg htb.test, hc, ok_bind]
    by_cases htc : IsTail c
    case neg => exact if_pos htc
    obtain ⟨r'', rfl, hdrop'⟩ := hnext' htc.ne_zero
    obtain ⟨d, hd, hnext''⟩ := rd_text hdrop'
    rw [if_neg htc.test, hd, ok_bind]
    refine if_pos (by_contra fun hgo => ?_)
    rw [not_or, not_or, not_or, not_not] at hgo
    obtain ⟨r3, rfl, -⟩ := hnext'' (IsTail.ne_zero hgo.1)
    exact hno [a, b, c, d] ⟨hfour, htb, htc, hgo⟩ ⟨r3, rfl⟩
  · rw [if_neg hfour]
    rfl

end Loop

/-! ### The whole text -/

theorem isUtf8_nil : IsUtf8 [] := ⟨[], List.forall_mem_nil _, rfl⟩

theorem IsEncoding.ne_nil {u : List UInt8} (h : IsEncoding u) : u ≠ [] := by
  rintro rfl
  exact accepts_of_isEncoding h

theorem IsUtf8.cons {u bs : List UInt8} (hu : IsEncoding u) (h : IsUtf8 bs) : IsUtf8 (u ++ bs) := by
  obtain ⟨us, hus, rfl⟩ := h
  exact ⟨u :: us, List.forall_mem_cons.2 ⟨hu, hus⟩, rfl⟩

theorem StopsAt.cons {u bs : List UInt8} {i : Nat} (hu : IsEncoding u) (h : StopsAt bs i) :
    StopsAt (u ++ bs) (u.length + i) := by
  obtain ⟨pre, rest, rfl, rfl, hpre, hrest⟩ := h
  exact ⟨u ++ pre, rest, (List.append_assoc ..).symm, (List.length_append ..).symm, hpre.cons hu,
    hrest⟩

/-- A text is a concatenation of encodings, or has a first position where none starts. -/
theorem isUtf8_or_stopsAt (bs : List UInt8) : IsUtf8 bs ∨ ∃ i, StopsAt bs i := by
  induction h : bs.length using Nat.strongRecOn generalizing bs with
  | ind n ih =>
    by_cases hnil : bs = []
    · exact .inl (hnil ▸ isUtf8_nil)
    by_cases hunit : ∃ u, IsEncoding u ∧ u <+: bs
    · obtain ⟨u, hu, rest, rfl⟩ := hunit
      have hpos := List.length_pos_of_ne_nil hu.ne_nil
      rw [List.length_append] at h
      rcases ih rest.length (by omega) rest rfl with hvalid | ⟨i, hstops⟩
      · exact .inl (hvalid.cons hu)
      · exact .inr ⟨_, hstops.cons hu⟩
    · exact .inr ⟨0, [], bs, rfl, rfl, isUtf8_nil, hnil, fun u hu hpre => hunit ⟨u, hu, hpre⟩⟩

/-- The loop passes encodings in turn. -/
theorem utf8CheckFrom_units {s rest : List UInt8} (us : List (List UInt8)) :
    (∀ u ∈ us, IsEncoding u) → 0 ∉ us.flatten → ∀ {i : Nat}, s.drop i = us.flatten ++ rest →
    ∀ fuel, utf8CheckFrom s (fuel + us.length) i = utf8CheckFrom s fuel (i + us.flatten.length) := by
  induction us with
  | nil => exact fun _ _ _ _ _ => rfl
  | cons u us ih =>
    intro hus h0 i h fuel
    obtain ⟨hu, hus⟩ := List.forall_mem_cons.1 hus
    rw [List.flatten_cons, List.mem_append, not_or] at h0
    rw [List.flatten_cons, List.append_assoc] at h
    rw [List.length_cons, ← Nat.add_assoc, utf8CheckFrom_unit (isEncoding_iff.1 hu) h0.1 h,
      ih hus h0.2 (drop_add h), List.flatten_cons, List.length_append, Nat.add_assoc]

theorem length_le_flatten {us : List (List UInt8)} (h : ∀ u ∈ us, u ≠ []) :
    us.length ≤ us.flatten.length := by
  induction us with
  | nil => exact Nat.zero_le _
  | cons u us ih =>
    obtain ⟨hu, hus⟩ := List.forall_mem_cons.1 h
    have hpos := List.length_pos_of_ne_nil hu
    have htail := ih hus
    rw [List.length_cons, List.flatten_cons, List.length_append]
    omega

/-- The fuel left behind encodings, of which each has at least a byte. -/
theorem IsUtf8.passed {s pre rest : List UInt8} (hpre : IsUtf8 pre) (h0 : 0 ∉ pre)
    (h : s = pre ++ rest) :
    ∃ fuel, utf8Check s = utf8CheckFrom s (fuel + 1) pre.length := by
  obtain ⟨us, hus, rfl⟩ := hpre
  have hlen := length_le_flatten fun u hu => (hus u hu).ne_nil
  have hs := congrArg List.length h
  rw [List.length_append] at hs
  refine ⟨s.length - us.length, ?_⟩
  have hrun := utf8CheckFrom_units us hus h0 (i := 0) h (s.length - us.length + 1)
  rwa [Nat.zero_add, show s.length - us.length + 1 + us.length = s.length + 1 by omega] at hrun

theorem utf8Check_valid {bs : List UInt8} (h0 : 0 ∉ bs) (h : IsUtf8 bs) :
    utf8Check (bs ++ [0]) = .ok none := by
  obtain ⟨fuel, hfuel⟩ := h.passed h0 rfl
  rw [hfuel]
  exact utf8CheckFrom_end List.drop_left fuel

theorem utf8Check_stops {bs : List UInt8} (h0 : 0 ∉ bs) {i : Nat} (h : StopsAt bs i) :
    utf8Check (bs ++ [0]) = .ok (some i) := by
  obtain ⟨pre, rest, rfl, rfl, hpre, hne, hno⟩ := h
  rw [List.mem_append, not_or] at h0
  obtain ⟨fuel, hfuel⟩ := hpre.passed h0.1 (List.append_assoc pre rest [0])
  rw [hfuel]
  have hdrop : (pre ++ rest ++ [0]).drop pre.length = rest ++ [0] := by
    rw [List.append_assoc, List.drop_left]
  exact utf8CheckFrom_stop hdrop hne h0.2 (fun u hu => hno u (isEncoding_iff.2 hu)) fuel

/-- `utf8_check` reads nothing behind the NUL, accepts UTF-8 without U+FFFE and U+FFFF and nothing
else, and returns the position of the first byte that starts no encoding. -/
theorem utf8Check_iff (s : CString) :
    Returns (utf8Check (s.bytes ++ [0])) ∧
      (utf8Check (s.bytes ++ [0]) = .ok none ↔ IsUtf8 s.bytes) ∧
      ∀ i, utf8Check (s.bytes ++ [0]) = .ok (some i) ↔ StopsAt s.bytes i := by
  have hvalid := utf8Check_valid s.nulFree
  have hstops := fun i => utf8Check_stops s.nulFree (i := i)
  rcases isUtf8_or_stopsAt s.bytes with h | ⟨n, h⟩
  · refine ⟨⟨_, hvalid h⟩, iff_of_true (hvalid h) h, fun i => ⟨fun hi => ?_, hstops i⟩⟩
    rw [hvalid h] at hi
    cases hi
  · refine ⟨⟨_, hstops n h⟩, ⟨fun hnone => ?_, hvalid⟩, fun i => ⟨fun hi => ?_, hstops i⟩⟩
    · rw [hstops n h] at hnone
      cases hnone
    · rw [hstops n h] at hi
      cases hi
      exact h

end IotClient
