import IotClient.Coap.Wire

/-!
# Decoding encoded CoAP messages

A delta or a length between 255 and 268 is written with a two-byte extension that starts at
269, so it wraps around and comes back 65536 larger (`wrapped`); the extension bytes of a
length from 255 on are read a second time, as the start of the value. Other options come back
(`decodeOptions_fit`), and these do not, unless a value happens to be nothing but the extension
bytes that precede it (`fit_of_decodeOptions`).
-/

namespace IotClient.Coap

open Mem

/-! ### Decoding an option -/

/-- What a delta or a length is decoded to. -/
def wrapped (n : Nat) : Nat := if 255 ≤ n ∧ n ≤ 268 then n + 65536 else n

theorem wrapped_eq_self {n : Nat} : wrapped n = n ↔ ¬ (255 ≤ n ∧ n ≤ 268) := by
  unfold wrapped
  split
  · exact iff_of_false (by omega) (by omega)
  · exact iff_of_true rfl (by assumption)

/-- A two-byte extension, read with the offset it was written with. -/
theorem toNat_extension {n : Nat} (h : 255 ≤ n) (hlt : n < 65536) :
    (UInt16.ofInt (n - 269)).toNat + 269 = wrapped n := by
  rw [UInt16.ofInt, UInt16.toNat_ofNat', wrapped]
  split <;> omega

theorem toNat_extension_byte {n : Nat} (h : 13 ≤ n) (hlt : n < 255) :
    (UInt8.ofInt (n - 13)).toNat + 13 = n := by
  rw [UInt8.ofInt, UInt8.toNat_ofNat']
  omega

theorem nibble_bounds (n : Nat) : 0 ≤ nibble n ∧ nibble n < 15 := by
  unfold nibble
  split
  · omega
  · split <;> omega

/-- The two halves of an option's first byte, which is never the marker. -/
theorem option_bits {a b : Int} (ha : 0 ≤ a ∧ a < 15) (hb : 0 ≤ b ∧ b < 15) :
    UInt8.ofInt (a * 16 + b) >>> 4 &&& 15 = UInt8.ofInt a ∧
      UInt8.ofInt (a * 16 + b) &&& 15 = UInt8.ofInt b ∧ UInt8.ofInt (a * 16 + b) ≠ 0xff := by
  have hall : ∀ a b : Fin 15,
      UInt8.ofInt ((a : Nat) * 16 + (b : Nat)) >>> 4 &&& 15 = UInt8.ofInt (a : Nat) ∧
      UInt8.ofInt ((a : Nat) * 16 + (b : Nat)) &&& 15 = UInt8.ofInt (b : Nat) ∧
      UInt8.ofInt ((a : Nat) * 16 + (b : Nat)) ≠ 0xff := by decide +kernel
  obtain ⟨k, rfl⟩ := Int.eq_ofNat_of_zero_le ha.1
  obtain ⟨m, rfl⟩ := Int.eq_ofNat_of_zero_le hb.1
  exact hall ⟨k, by omega⟩ ⟨m, by omega⟩

/-- Up to 12 the nibble is the number itself. -/
theorem nibble_byte {n : Nat} (h : n < 13) :
    UInt8.ofInt n ≠ 13 ∧ UInt8.ofInt n ≠ 14 ∧ ¬ UInt8.ofInt n > 14 ∧ (UInt8.ofInt n).toNat = n := by
  have hall : ∀ n < 13, UInt8.ofInt (n : Nat) ≠ 13 ∧ UInt8.ofInt (n : Nat) ≠ 14 ∧
      ¬ UInt8.ofInt (n : Nat) > 14 ∧ (UInt8.ofInt (n : Nat)).toNat = n := by decide
  exact hall n h

section Option

variable {buf s : List UInt8} {j n : Nat}

theorem decodeDelta_eq (hlt : n < 65536) (h : buf.drop j = extension n ++ s) :
    decodeDelta buf (UInt8.ofInt (nibble n)) j = .ok (some (wrapped n, j + (extension n).length)) := by
  unfold extension at h ⊢
  unfold decodeDelta nibble
  by_cases h13 : n < 13
  · have hbits := nibble_byte h13
    have hw : wrapped n = n := wrapped_eq_self.mpr (by omega)
    rw [if_pos (by omega : (n : Int) < 13), if_pos h13, if_neg hbits.1, if_neg hbits.2.1,
      if_neg hbits.2.2.1, hbits.2.2.2, hw]
    rfl
  · rw [if_neg h13] at h
    rw [if_neg (by omega : ¬ (n : Int) < 13), if_neg h13]
    by_cases hff : n < 0xff
    · rw [if_pos hff] at h
      have hw : wrapped n = n := wrapped_eq_self.mpr (by omega)
      rw [if_pos (by omega : (n : Int) < 0xff), if_pos hff, if_pos (by decide), rd_drop h, ok_bind,
        toNat_extension_byte (by omega) hff, hw]
      rfl
    · rw [if_neg hff] at h
      rw [if_neg (by omega : ¬ (n : Int) < 0xff), if_neg hff, if_neg (by decide), if_pos (by decide),
        getShort_drop h, ok_bind, toNat_extension (by omega) hlt]
      rfl

/-- The length differs from the delta in the position after a two-byte extension. -/
theorem decodeLength_eq_decodeDelta (bits : UInt8) (hbits : bits ≠ 14) :
    decodeLength buf bits j = decodeDelta buf bits j := by
  unfold decodeLength decodeDelta
  rw [if_neg hbits, if_neg hbits]

theorem decodeLength_short (hle : n ≤ 254) (h : buf.drop j = extension n ++ s) :
    decodeLength buf (UInt8.ofInt (nibble n)) j = .ok (some (n, j + (extension n).length)) := by
  have hbits : UInt8.ofInt (nibble n) ≠ 14 := by
    unfold nibble
    split
    · exact (nibble_byte (by omega)).2.1
    · rw [if_pos (by omega)]
      decide
  rw [decodeLength_eq_decodeDelta _ hbits, decodeDelta_eq (by omega) h,
    wrapped_eq_self.mpr (by omega)]

/-- The extension bytes of a long length are not skipped. -/
theorem decodeLength_long (hle : 255 ≤ n) (hlt : n < 65536) (h : buf.drop j = extension n ++ s) :
    decodeLength buf (UInt8.ofInt (nibble n)) j = .ok (some (wrapped n, j)) := by
  have hbits : UInt8.ofInt (nibble n) = 14 := by
    unfold nibble
    rw [if_neg (by omega), if_neg (by omega)]
    decide
  unfold extension at h
  rw [if_neg (by omega), if_neg (by omega)] at h
  unfold decodeLength
  rw [hbits, if_neg (by decide), if_pos rfl, getShort_drop h, ok_bind,
    toNat_extension hle hlt]
  rfl

end Option

/-! ### Decoding the options -/

/-- A decoded option with the number, the length and the value of `o`. -/
def PacketOption.Holds (o : PacketOption) (co : CoapOption) : Prop :=
  co.number = o.number ∧ co.length = o.value.length ∧
    co.value.elems o.value.length = .ok o.value

/-- The struct `coapDecode` makes of an option. -/
def PacketOption.decoded (o : PacketOption) : CoapOption :=
  ⟨o.number, o.value.length, if o.value = [] then .null else .ref o.value⟩

theorem PacketOption.holds_decoded (o : PacketOption) : o.Holds o.decoded := by
  refine ⟨rfl, rfl, ?_⟩
  by_cases h : o.value = []
  · rw [h]; rfl
  · rw [decoded, if_neg h, Ptr.elems_ref]

/-- Delta and length of an option survive. -/
def PacketOption.Fits (previousNumber : Nat) (o : PacketOption) : Prop :=
  ¬ (255 ≤ o.number - previousNumber ∧ o.number - previousNumber ≤ 268) ∧ o.value.length ≤ 254

/-- The deltas and the lengths of all options survive. -/
def OptionsFit : Nat → List PacketOption → Prop
  | _, [] => True
  | previousNumber, o :: os => o.Fits previousNumber ∧ OptionsFit o.number os

/-- The value of a long option is the extension bytes of its own length, over and over. -/
def PacketOption.Echoes (o : PacketOption) : Prop :=
  269 ≤ o.value.length ∧
    (extension o.value.length ++ o.value).take o.value.length = o.value

section Options

variable {buf s : List UInt8} {j n : Nat} {o : PacketOption}

theorem decodeValue_eq {number : Int} {xs : List UInt8} (h : buf.drop j = xs ++ s) :
    decodeValue buf number xs.length j =
      .ok (⟨number, xs.length, if xs = [] then .null else .ref xs⟩, j + xs.length) := by
  unfold decodeValue
  by_cases hxs : xs = []
  · rw [hxs]; rfl
  · have hpos := List.length_pos_iff.mpr hxs
    rw [if_pos hpos, if_neg hxs, copyOut_drop h]
    rfl

theorem decodeValue_ok {number : Int} {length j' : Nat} {co : CoapOption} (hpos : 0 < length)
    (h : decodeValue buf number length j = .ok (co, j')) :
    ∃ value, copyOut buf j length = .ok value ∧ co = ⟨number, length, .ref value⟩ := by
  unfold decodeValue at h
  rw [if_pos hpos] at h
  obtain ⟨value, hvalue, hco⟩ := bind_eq_ok.mp h
  cases hco
  exact ⟨value, hvalue, rfl⟩

/-- The first byte of an option. -/
def optionByte (delta : Nat) (o : PacketOption) : UInt8 :=
  UInt8.ofInt (nibble delta * 16 + nibble o.value.length)

theorem optionByte_ne (delta : Nat) (o : PacketOption) : optionByte delta o ≠ 0xff :=
  (option_bits (nibble_bounds _) (nibble_bounds _)).2.2

/-- The delta of an encoded option is read as its wrapped value. -/
theorem decodeOption_delta (hn : n ≤ o.number)
    (h : buf.drop j = extension (o.number - n) ++ s) :
    decodeOption buf (optionByte (o.number - n) o) n j = (do
      let some (length, j) ← decodeLength buf (UInt8.ofInt (nibble o.value.length))
        (j + (extension (o.number - n)).length) | pure none
      pure (some (← decodeValue buf ((n + wrapped (o.number - n) : Nat) : Int) length j))) := by
  have hlt := o.number_lt
  obtain ⟨hdelta, hlength, -⟩ :=
    option_bits (nibble_bounds (o.number - n)) (nibble_bounds o.value.length)
  have hnumber : ((n : Int) + (wrapped (o.number - n) : Nat)).bmod (2 ^ 32) =
      (n + wrapped (o.number - n) : Nat) := by
    rw [Int.bmod_def, wrapped]
    split <;> omega
  unfold decodeOption optionByte
  rw [hdelta, hlength, decodeDelta_eq (by omega) h, ok_bind]
  simp only [hnumber]
  exact if_neg (by omega)

/-- An option whose length survives is read with its wrapped delta. -/
theorem decodeOption_wrapped (hn : n ≤ o.number) (hlen : o.value.length ≤ 254)
    (h : buf.drop j = optionBytes (o.number - n) o ++ s) :
    decodeOption buf (optionByte (o.number - n) o) n (j + 1) =
      .ok (some (⟨(n + wrapped (o.number - n) : Nat), o.value.length,
          if o.value = [] then .null else .ref o.value⟩,
        j + (optionBytes (o.number - n) o).length)) := by
  have h1 : buf.drop (j + 1) = extension (o.number - n) ++ (extension o.value.length ++
      (o.value ++ s)) := by
    simpa [optionBytes] using drop_succ h
  have h2 := drop_add h1
  rw [decodeOption_delta hn h1, decodeLength_short hlen h2, ok_bind]
  have hend : j + (optionBytes (o.number - n) o).length = j + 1 +
      (extension (o.number - n)).length + (extension o.value.length).length + o.value.length := by
    simp only [optionBytes, List.length_cons, List.length_append]
    omega
  simp only
  rw [decodeValue_eq (drop_add h2), hend]
  rfl

theorem decodeOption_fits (hn : n ≤ o.number) (hfits : o.Fits n)
    (h : buf.drop j = optionBytes (o.number - n) o ++ s) :
    decodeOption buf (optionByte (o.number - n) o) n (j + 1) =
      .ok (some (o.decoded, j + (optionBytes (o.number - n) o).length)) := by
  have hw : n + wrapped (o.number - n) = o.number := by
    rw [wrapped_eq_self.mpr hfits.1]
    omega
  rw [decodeOption_wrapped hn hfits.2 h, hw]
  rfl

/-- An option whose delta or length does not survive is not read back, unless its value echoes
the extension. -/
theorem fits_of_holds {co : CoapOption} {j' : Nat} (hn : n ≤ o.number)
    (h : buf.drop j = optionBytes (o.number - n) o ++ s)
    (hco : decodeOption buf (optionByte (o.number - n) o) n (j + 1) = .ok (some (co, j')))
    (hholds : o.Holds co) : o.Fits n ∨ o.Echoes := by
  have hlen := o.length_lt
  have h1 : buf.drop (j + 1) = extension (o.number - n) ++ (extension o.value.length ++
      (o.value ++ s)) := by
    simpa [optionBytes] using drop_succ h
  have h2 := drop_add h1
  rw [decodeOption_delta hn h1] at hco
  by_cases hshort : o.value.length ≤ 254
  · rw [decodeLength_short hshort h2, ok_bind] at hco
    simp only at hco
    rw [decodeValue_eq (drop_add h2)] at hco
    cases hco
    have hnumber := hholds.1
    simp only at hnumber
    exact .inl ⟨wrapped_eq_self.mp (by omega), hshort⟩
  · rw [decodeLength_long (by omega) hlen h2, ok_bind] at hco
    simp only at hco
    obtain ⟨r, hr, hsome⟩ := bind_eq_ok.mp hco
    cases hsome
    have hpos : 0 < wrapped o.value.length := by
      rw [wrapped]; split <;> omega
    obtain ⟨value, hcopy, rfl⟩ := decodeValue_ok hpos hr
    obtain ⟨-, hlength, hvalue⟩ := hholds
    simp only at hlength hvalue
    have hw : wrapped o.value.length = o.value.length := by omega
    have hlong : 269 ≤ o.value.length := by
      have := wrapped_eq_self.mp hw
      omega
    rw [hw] at hcopy
    have hread := copyOut_ok_eq hcopy
    rw [h2] at hread
    unfold Ptr.elems at hvalue
    rw [if_neg (by omega), Ptr.deref_ref, ok_bind] at hvalue
    split at hvalue
    · have hself : value.take o.value.length = o.value := by simpa using hvalue
      rw [hread, List.take_take, Nat.min_self, ← List.append_assoc,
        List.take_append_of_le_length (by simp)] at hself
      exact .inr ⟨hlong, hself⟩
    · cases hvalue

variable {length : Int}

/-- One round of the loop at an encoded option. -/
theorem decodeOptions_cons {fuel : Nat} {acc : List CoapOption} (hj : (j : Int) < length)
    (h : buf.drop j = optionBytes (o.number - n) o ++ s) :
    decodeOptions buf length (fuel + 1) j j n acc = (do
      let some (co, j) ← decodeOption buf (optionByte (o.number - n) o) n (j + 1) | pure none
      decodeOptions buf length fuel j j co.number (acc ++ [co])) := by
  have hbyte : rd buf j = .ok (optionByte (o.number - n) o) := rd_drop h
  rw [decodeOptions, if_pos hj, hbyte, ok_bind]
  exact if_neg (optionByte_ne _ o)

/-- Options that fit are read up to the marker. -/
theorem decodeOptions_fit (os : List PacketOption) :
    ∀ {n j : Nat} (fuel : Nat) (acc : List CoapOption), Ascending n os → OptionsFit n os →
      buf.drop j = optionsBytes n os ++ 0xff :: s →
      ((j + (optionsBytes n os).length : Nat) : Int) < length → os.length < fuel →
      decodeOptions buf length fuel j j n acc =
        .ok (some (acc ++ os.map PacketOption.decoded, j + (optionsBytes n os).length)) := by
  induction os with
  | nil =>
    intro n j fuel acc _ _ hbuf hlen hfuel
    obtain ⟨fuel, rfl⟩ : ∃ k, fuel = k + 1 := ⟨fuel - 1, by simp at hfuel; omega⟩
    unfold decodeOptions
    rw [if_pos (by simpa [optionsBytes] using hlen), rd_drop hbuf, ok_bind, if_pos rfl]
    simp [optionsBytes]
  | cons o os ih =>
    intro n j fuel acc hasc hfit hbuf hlen hfuel
    obtain ⟨fuel, rfl⟩ : ∃ k, fuel = k + 1 := ⟨fuel - 1, by simp at hfuel; omega⟩
    unfold optionsBytes at hbuf
    rw [List.append_assoc] at hbuf
    unfold optionsBytes at hlen ⊢
    rw [List.length_append] at hlen ⊢
    rw [List.length_cons] at hfuel
    rw [decodeOptions_cons (by omega) hbuf, decodeOption_fits hasc.head hfit.1 hbuf, ok_bind]
    simp only
    have hrest := ih fuel (acc ++ [o.decoded]) hasc.tail hfit.2 (drop_add hbuf)
      (by omega) (by omega)
    rw [List.append_assoc] at hrest
    rw [← Nat.add_assoc]
    exact hrest

/-- The loop only ever adds options. -/
theorem decodeOptions_prefix {fuel : Nat} :
    ∀ {i j i' : Nat} {number : Int} {acc out : List CoapOption},
      decodeOptions buf length fuel i j number acc = .ok (some (out, i')) → acc <+: out := by
  induction fuel with
  | zero => intro i j i' number acc out h; cases h
  | succ fuel ih =>
    intro i j i' number acc out h
    unfold decodeOptions at h
    split at h
    · obtain ⟨nextByte, -, h⟩ := bind_eq_ok.mp h
      split at h
      · cases h
        exact List.prefix_rfl
      · obtain ⟨r, -, h⟩ := bind_eq_ok.mp h
        split at h
        · exact (List.prefix_append _ _).trans (ih h)
        · cases h
    · cases h
      exact List.prefix_rfl

/-- Options that are read back fit, unless a value echoes an extension. -/
theorem fit_of_decodeOptions (os : List PacketOption) :
    ∀ {n j fuel i : Nat} (acc : List CoapOption) {tail : List CoapOption}, Ascending n os →
      buf.drop j = optionsBytes n os ++ s →
      ((j + (optionsBytes n os).length : Nat) : Int) < length →
      decodeOptions buf length fuel j j n acc = .ok (some (acc ++ tail, i)) →
      List.Forall₂ PacketOption.Holds os tail → OptionsFit n os ∨ ∃ o ∈ os, o.Echoes := by
  induction os with
  | nil => exact fun _ _ _ _ _ _ _ => .inl trivial
  | cons o os ih =>
    intro n j fuel i acc tail hasc hbuf hlen hdec hall
    obtain ⟨co, tail, hholds, hrest, rfl⟩ := List.forall₂_cons_left_iff.mp hall
    unfold optionsBytes at hbuf
    rw [List.append_assoc] at hbuf
    unfold optionsBytes at hlen
    rw [List.length_append] at hlen
    cases fuel with
    | zero => cases hdec
    | succ fuel =>
      rw [decodeOptions_cons (by omega) hbuf] at hdec
      obtain ⟨r, hr, hdec⟩ := bind_eq_ok.mp hdec
      split at hdec
      case h_2 => cases hdec
      case h_1 co' j' =>
        -- the option read here is the one at its place in the result
        obtain ⟨more, hmore⟩ := decodeOptions_prefix hdec
        rw [List.append_assoc, List.singleton_append, List.append_cancel_left_eq] at hmore
        cases hmore
        rcases fits_of_holds hasc.head hbuf hr hholds with hfits | hecho
        · rw [decodeOption_fits hasc.head hfits hbuf] at hr
          cases hr
          rw [show acc ++ o.decoded :: tail = acc ++ [o.decoded] ++ tail from
            List.append_cons acc o.decoded tail] at hdec
          rcases ih _ hasc.tail (drop_add hbuf) (by omega) hdec hrest with hfit | ⟨o', ho', hecho⟩
          · exact .inl ⟨hfits, hfit⟩
          · exact .inr ⟨o', List.mem_cons_of_mem o ho', hecho⟩
        · exact .inr ⟨o, List.mem_cons_self, hecho⟩

end Options

/-! ### Decoding the header -/

theorem firstByte_bits (type : CoapType) {k : Nat} (hk : k ≤ 8) :
    (firstByte 1 type.value (UInt16.ofNat k) >>> 6).toNat = 1 ∧
      (firstByte 1 type.value (UInt16.ofNat k) >>> 4 &&& 2).toNat = type.value &&& 2 ∧
      (firstByte 1 type.value (UInt16.ofNat k) &&& 0xf).toNat = k := by
  have hall : ∀ k < 9,
      (firstByte 1 type.value (UInt16.ofNat k) >>> 6).toNat = 1 ∧
      (firstByte 1 type.value (UInt16.ofNat k) >>> 4 &&& 2).toNat = type.value &&& 2 ∧
      (firstByte 1 type.value (UInt16.ofNat k) &&& 0xf).toNat = k := by
    cases type <;> decide
  exact hall k (by omega)

/-- The code that is read from the byte written for `code`. -/
def codeBack (code : Nat) : Nat :=
  (codeByte code >>> 5).toNat * 100 + (codeByte code &&& 0x1f).toNat

theorem codeBack_eq (code : CoapCode) : codeBack code.value = code.value ↔ code.value % 100 < 32 := by
  cases code <;> decide

theorem length_le_optionsBytes (n : Nat) (os : List PacketOption) :
    os.length ≤ (optionsBytes n os).length := by
  induction os generalizing n with
  | nil => exact Nat.zero_le _
  | cons o os ih =>
    have := ih o.number
    simp only [optionsBytes, optionBytes, List.length_append, List.length_cons]
    omega

namespace CoapPacket

variable (p : CoapPacket)

/-- The message `coapDecode` makes of the encoding, given its options and its payload. -/
def decoded (options : List CoapOption) (payload : Ptr CString) : CoapMessage where
  version := 1
  type := p.type.value &&& 2
  code := codeBack p.code.value
  messageId := p.messageId
  token := if p.token.bytes = [] then .indet else .ref p.token
  tokenLength := .is p.token.bytes.length
  options := if options = [] then .indet else .ref options
  optionsAmount := options.length
  payload := payload

theorem length_head : p.head.length = 4 + p.token.bytes.length := by
  simp only [head, List.length_cons, List.length_append, length_shortBytes]
  omega

theorem coapDecode_head (rest : List UInt8) (length : Int) :
    coapDecode (p.head ++ rest) length = (do
      let some (options, i) ← decodeOptions (p.head ++ rest) length
        ((p.head ++ rest).length + 1) p.head.length p.head.length 0 [] | pure none
      let payload ← decodePayload (p.head ++ rest) length i
      pure (some (p.decoded options payload))) := by
  have htoken := p.token_le
  have h0 : (p.head ++ rest).drop 0 =
      firstByte 1 p.type.value (UInt16.ofNat p.token.strlen) :: codeByte p.code.value ::
        (shortBytes p.messageId ++ (p.token.bytes ++ rest)) := by
    simp [head]
  have h1 := drop_succ h0
  have h2 := drop_succ h1
  have h4 := drop_short h2
  obtain ⟨hversion, htype, hlength⟩ := firstByte_bits p.type htoken
  have hdecode : decodeToken (p.head ++ rest) p.token.bytes.length 4 =
      .ok (if p.token.bytes = [] then .indet else .ref p.token) := by
    unfold decodeToken
    by_cases hnil : p.token.bytes = []
    · rw [if_pos hnil, hnil]
      rfl
    · rw [if_pos (List.length_pos_iff.mpr hnil), if_neg hnil, copyOut_drop h4, ok_bind,
        CString.ofBytes_bytes]
      rfl
  unfold coapDecode
  rw [rd_drop h0, ok_bind]
  simp only [CString.strlen, hversion, htype, hlength]
  rw [if_neg (by omega), if_neg (by omega), rd_drop h1, ok_bind, getShort_drop h2, ok_bind, hdecode,
    ok_bind, length_head]
  rfl

/-- The position behind the options. -/
def footStart : Nat := p.head.length + (optionsBytes 0 p.options).length

theorem length_wire : p.wire.length = p.footStart + 1 + (payloadBytes p.payload).length := by
  simp only [wire, foot, footStart, List.length_append, List.length_cons]
  omega

theorem drop_head (tail : List UInt8) :
    (p.wire ++ tail).drop p.head.length = optionsBytes 0 p.options ++ (p.foot ++ tail) := by
  have h : p.wire ++ tail = p.head ++ (optionsBytes 0 p.options ++ (p.foot ++ tail)) := by
    simp [wire]
  rw [h, List.drop_left]

theorem drop_footStart (tail : List UInt8) :
    (p.wire ++ tail).drop p.footStart = p.foot ++ tail := by
  have h : p.wire ++ tail = (p.head ++ optionsBytes 0 p.options) ++ (p.foot ++ tail) := by
    simp [wire]
  rw [h, footStart, ← List.length_append, List.drop_left]

/-- The encoding of a message whose options fit, up to the payload. -/
theorem coapDecode_wire (hfit : OptionsFit 0 p.options) (tail : List UInt8) :
    coapDecode (p.wire ++ tail) p.wire.length = (do
      let payload ← decodePayload (p.wire ++ tail) p.wire.length p.footStart
      pure (some (p.decoded (p.options.map PacketOption.decoded) payload))) := by
  have hsplit : p.wire ++ tail = p.head ++ (optionsBytes 0 p.options ++ (p.foot ++ tail)) := by
    simp [wire]
  have hcount : p.options.length ≤ (optionsBytes 0 p.options).length := length_le_optionsBytes _ _
  have hlen := p.length_wire
  unfold footStart at hlen
  have hdrop : (p.wire ++ tail).drop p.head.length =
      optionsBytes 0 p.options ++ 0xff :: (payloadBytes p.payload ++ tail) := p.drop_head tail
  have hfoot : ((p.head.length + (optionsBytes 0 p.options).length : Nat) : Int) < p.wire.length := by
    omega
  have hopts := decodeOptions_fit p.options ((p.wire ++ tail).length + 1) [] p.ascending hfit hdrop
    hfoot (by rw [List.length_append]; omega)
  rw [hsplit] at hopts ⊢
  rw [coapDecode_head]
  rw [Int.natCast_zero] at hopts
  rw [hopts, ok_bind]
  rfl

end CoapPacket

/-! ### The payload -/

section Payload

variable {buf pre rest : List UInt8} {x z : UInt8} {i : Nat}

/-- What is taken for the payload is the payload and the byte behind it. -/
theorem decodePayload_eq (h : buf.drop i = x :: (pre ++ z :: rest)) :
    decodePayload buf ((i + 1 + pre.length : Nat) : Int) i =
      .ok (if (pre ++ [z]).head? = some 0 then .indet else .ref (CString.ofBytes (pre ++ [z]))) := by
  have h1 : buf.drop (i + 1) = (pre ++ [z]) ++ rest := by
    rw [List.append_assoc]
    exact drop_succ h
  have hcopy : copyOut buf (i + 1) (((i + 1 + pre.length : Nat) : Int) - i) = .ok (pre ++ [z]) :=
    copyOut_drop_of_eq h1 (by simp; omega)
  obtain ⟨y, ys, hy⟩ : ∃ y ys, pre ++ [z] = y :: ys := by
    cases pre with
    | nil => exact ⟨z, [], rfl⟩
    | cons y ys => exact ⟨y, ys ++ [z], rfl⟩
  unfold decodePayload
  rw [if_pos (by omega), hcopy, hy, rd_drop (s := ys ++ rest) (by rw [h1, hy]; rfl), ok_bind]
  by_cases h0 : y = 0
  · simp [h0]
  · simp [h0]

/-- Nothing but the bytes of the message is readable: the byte behind them is missed. -/
theorem decodePayload_exact (hnul : 0 ∉ pre) (h : buf.drop i = x :: pre) :
    decodePayload buf buf.length i = .error .readOut := by
  have hlt := lt_of_drop h
  have hlen := length_of_drop h (by omega)
  rw [List.length_cons] at hlen
  have h1 := drop_succ h
  unfold decodePayload
  rw [if_pos (by omega)]
  cases pre with
  | nil => rw [rd_end (by simp at hlen; omega), error_bind]
  | cons y ys =>
    have hy : y ≠ 0 := fun h0 => hnul (h0 ▸ List.mem_cons_self)
    rw [rd_drop h1, ok_bind, if_pos hy, copyOut_past (by omega) (by simp at hlen; omega), error_bind]

/-- Whatever the bytes: a payload is never found within the given length. -/
theorem decodePayload_indet {payload : Ptr CString}
    (h : decodePayload buf buf.length i = .ok payload) : payload = .indet := by
  rw [decodePayload] at h
  split at h
  case isTrue hpos =>
    obtain ⟨y, -, h⟩ := bind_eq_ok.mp h
    split at h
    · rw [copyOut_past (by omega) (by omega)] at h
      cases h
    · cases h; rfl
  case isFalse => cases h; rfl

end Payload

/-- With a byte to read behind it, the encoding is decoded. -/
theorem CoapPacket.coapDecode_fit (p : CoapPacket) (hfit : OptionsFit 0 p.options)
    {tail : List UInt8} (htail : tail ≠ []) :
    ∃ payload, coapDecode (p.wire ++ tail) p.wire.length =
      .ok (some (p.decoded (p.options.map PacketOption.decoded) payload)) := by
  obtain ⟨z, rest, rfl⟩ := List.exists_cons_of_ne_nil htail
  have hfoot := decodePayload_eq (p.drop_footStart (z :: rest))
  rw [← p.length_wire] at hfoot
  rw [p.coapDecode_wire hfit, hfoot]
  exact ⟨_, rfl⟩

theorem CoapPacket.coapDecode_alone (p : CoapPacket) (hfit : OptionsFit 0 p.options) :
    coapDecode p.wire p.wire.length = .error .readOut := by
  have hdrop := p.drop_footStart []
  have hwire := p.coapDecode_wire hfit []
  rw [List.append_nil] at hdrop hwire
  rw [List.append_nil] at hdrop
  rw [hwire, decodePayload_exact p.nulFree_payloadBytes hdrop]
  rfl

/-- On any bytes of which it may read no more, the decoder finds no payload. -/
theorem coapDecode_exact {buf : List UInt8} {m : CoapMessage}
    (h : coapDecode buf buf.length = .ok (some m)) : m.payload = .indet := by
  unfold coapDecode at h
  obtain ⟨firstByte, -, h⟩ := bind_eq_ok.mp h
  simp only at h
  split at h
  · cases h
  split at h
  · cases h
  obtain ⟨codeByte, -, h⟩ := bind_eq_ok.mp h
  obtain ⟨messageId, -, h⟩ := bind_eq_ok.mp h
  obtain ⟨token, -, h⟩ := bind_eq_ok.mp h
  obtain ⟨r, -, h⟩ := bind_eq_ok.mp h
  split at h
  · obtain ⟨payload, hpayload, h⟩ := bind_eq_ok.mp h
    cases h
    exact decodePayload_indet hpayload
  · cases h

end IotClient.Coap
