import IotClient.Coap.Client

/-!
# The datagrams of a CoAP client

Any message whose strings can be read is encoded to `messageSize` bytes, of which the first are
the header and the token, and is sent if and only if they fit the block of `coap_encode`
(`coapEncodeAndFire_eq`).
-/

namespace IotClient.Coap

open Mem Machine

/-! ### Sizes -/

/-- The number of bytes that extend a delta or a length. -/
def extensionSize (n : Int) : Nat := if n < 13 then 0 else if n < 0xff then 1 else 2

def optionSize (delta length : Int) : Nat :=
  1 + extensionSize delta + extensionSize length + (UInt16.ofInt length).toNat

/-- The size of the options behind one with a given number. -/
def optionsSize : Int → List CoapOption → Nat
  | _, [] => 0
  | previousNumber, o :: os =>
    optionSize (o.number - previousNumber) o.length + optionsSize o.number os

def messageSize (token : CString) (options : List CoapOption) (payload : CString) : Nat :=
  4 + token.strlen + optionsSize 0 options + 1 + payload.strlen % 65536

/-! ### Encoding -/

/-- The value of the option can be copied. -/
def Readable (o : CoapOption) : Prop :=
  ∃ value, o.value.elems (UInt16.ofInt o.length).toNat = .ok value

/-- Header and token of an encoded message. -/
def headBytes (message : CoapMessage) (token : CString) : List UInt8 :=
  firstByte message.version message.type (UInt16.ofNat token.strlen) :: codeByte message.code ::
    (shortBytes message.messageId ++ token.bytes)

variable {o : CoapOption} {os options : List CoapOption} {m message : CoapMessage}
  {token payload : CString} {c : Client}

theorem length_elems {n : Nat} {p : Ptr (List UInt8)} {value : List UInt8}
    (h : p.elems n = .ok value) : value.length = n := by
  unfold Ptr.elems at h
  split at h
  · next h0 =>
    cases h
    exact h0.symm
  · obtain ⟨a, -, h⟩ := bind_eq_ok.mp h
    split at h
    · next hle =>
      cases h
      rw [List.length_take]
      omega
    · cases h

theorem putExtension_size (n : Int) :
    ∃ out, Emits (putExtension n) out ∧ out.length = extensionSize n := by
  unfold putExtension extensionSize
  by_cases h13 : n < 13
  · rw [if_pos h13, if_pos h13]
    exact ⟨_, .nil, rfl⟩
  · rw [if_neg h13, if_neg h13]
    by_cases hff : n < 0xff
    · rw [if_pos hff, if_pos hff]
      exact ⟨_, .put _, rfl⟩
    · rw [if_neg hff, if_neg hff]
      exact ⟨_, addShort_emits _, rfl⟩

theorem encodeOptions_size (os : List CoapOption) : ∀ {n : Int}, (∀ o ∈ os, Readable o) →
    ∃ out, Emits (encodeOptions n os) out ∧ out.length = optionsSize n os := by
  induction os with
  | nil => exact fun _ => ⟨[], .nil, rfl⟩
  | cons o os ih =>
    intro n h
    obtain ⟨value, hvalue⟩ := h o List.mem_cons_self
    obtain ⟨delta, hdelta, hdeltaSize⟩ := putExtension_size (o.number - n)
    obtain ⟨length, hlength, hlengthSize⟩ := putExtension_size o.length
    obtain ⟨rest, hrest, hrestSize⟩ := ih (n := o.number) fun o ho => h o (List.mem_cons_of_mem _ ho)
    refine ⟨_, (Emits.put _).seq (hdelta.seq (hlength.seq
      (.lift_ok hvalue ((Emits.copy _).seq hrest)))), ?_⟩
    have hsize := length_elems hvalue
    simp only [List.length_append, List.length_cons, List.length_nil, optionsSize, optionSize]
    omega

theorem encodeMessage_size (htoken : m.token = .ref token) (hshort : token.strlen < 65536)
    (hoptions : m.options.elems m.optionsAmount.toNat = .ok options)
    (hread : ∀ o ∈ options, Readable o) (hpayload : m.payload = .ref payload) :
    ∃ out, Emits (encodeMessage m) (headBytes m token ++ out) ∧
      (headBytes m token ++ out).length = messageSize token options payload := by
  obtain ⟨out, hout, hsize⟩ := encodeOptions_size options (n := 0) hread
  have htokenRef : m.token.deref = .ok token := by rw [htoken, Ptr.deref_ref]
  have hpayloadRef : m.payload.deref = .ok payload := by rw [hpayload, Ptr.deref_ref]
  have hfoot : Emits (do
      let payload ← Enc.lift m.payload.deref
      Enc.copy (payload.bytes.take (UInt16.ofNat payload.strlen).toNat))
      (payload.bytes.take (UInt16.ofNat payload.strlen).toNat) := .lift_ok hpayloadRef (.copy _)
  have htail := hout.seq ((Emits.put 0xff).seq hfoot)
  have hlen : (UInt16.ofNat token.strlen).toNat = token.strlen := short_toNat_of_lt (by omega)
  refine ⟨out ++ 0xff :: payload.bytes.take (UInt16.ofNat payload.strlen).toNat, ?_, ?_⟩
  · refine .of_eq (.lift_ok htokenRef ((Emits.put _).seq ((Emits.put _).seq
      ((addShort_emits _).seq ((Emits.copy _).seq (.lift_ok hoptions htail)))))) ?_
    rw [hlen, show token.bytes.take token.strlen = token.bytes from List.take_length]
    simp [headBytes]
  · have hbytes : token.bytes.length = token.strlen := rfl
    have hmod : min (payload.strlen % 65536) payload.bytes.length = payload.strlen % 65536 :=
      Nat.min_eq_left (Nat.mod_le _ _)
    simp only [headBytes, List.length_append, List.length_cons, length_shortBytes, List.length_take,
      UInt16.toNat_ofNat', messageSize, hsize, hbytes, hmod, Nat.reducePow]
    omega

/-- The client after `message` was sent as `out`. -/
def Client.fired (c : Client) (message : CoapMessage) (out : List UInt8) : Client :=
  { c with wire := c.wire ++ [.sent message], datagrams := c.datagrams ++ [out.map some] }

/-- `coap_encode` has 256 bytes besides the payload. -/
theorem coapEncode_emitted (htoken : m.token = .ref token) (hshort : token.strlen < 65536)
    (hoptions : m.options.elems m.optionsAmount.toNat = .ok options)
    (hread : ∀ o ∈ options, Readable o) (hpayload : m.payload = .ref payload) :
    ∃ out, coapEncode m = emitted (256 + payload.strlen) (headBytes m token ++ out) ∧
      (headBytes m token ++ out).length = messageSize token options payload := by
  obtain ⟨out, hemits, hsize⟩ := encodeMessage_size htoken hshort hoptions hread hpayload
  refine ⟨out, ?_, hsize⟩
  unfold coapEncode bufSize
  rw [hpayload]
  exact hemits.run _

theorem coapEncode_returns (htoken : m.token = .ref token) (hshort : token.strlen < 65536)
    (hoptions : m.options.elems m.optionsAmount.toNat = .ok options)
    (hread : ∀ o ∈ options, Readable o) (hpayload : m.payload = .ref payload) :
    Returns (coapEncode m) ↔ messageSize token options payload ≤ 256 + payload.strlen := by
  obtain ⟨out, hencode, hsize⟩ := coapEncode_emitted htoken hshort hoptions hread hpayload
  rw [hencode, emitted, hsize]
  split
  case isTrue hle => exact iff_of_true (returns_ok _) hle
  case isFalse hgt => exact iff_of_false (not_returns_error _) hgt

theorem coapEncodeAndFire_eq (htoken : m.token = .ref token) (hshort : token.strlen < 65536)
    (hoptions : m.options.elems m.optionsAmount.toNat = .ok options)
    (hread : ∀ o ∈ options, Readable o) (hpayload : m.payload = .ref payload) :
    ∃ out, c.coapEncodeAndFire m =
      if messageSize token options payload ≤ 256 + payload.strlen
      then .ok (c.fired m (headBytes m token ++ out)) else .error .writeOut := by
  obtain ⟨out, hencode, hsize⟩ := coapEncode_emitted htoken hshort hoptions hread hpayload
  refine ⟨out, ?_⟩
  unfold Client.coapEncodeAndFire
  rw [hencode, emitted, hsize]
  by_cases hle : messageSize token options payload ≤ 256 + payload.strlen
  · rw [if_pos hle, if_pos hle, ok_bind, ← hsize, Block.take_part]
    rfl
  · rw [if_neg hle, if_neg hle]
    rfl

/-- A token that is not there is not looked for. -/
theorem coapEncode_noToken (htoken : ∀ token, m.token ≠ .ref token)
    (hpayload : m.payload = .ref payload) : ∃ e, coapEncode m = .error e := by
  unfold coapEncode bufSize
  rw [hpayload]
  change ∃ e, encodeInto _ m = .error e
  unfold encodeInto Enc.runOn encodeMessage
  cases h : m.token with
  | indet => exact ⟨_, rfl⟩
  | null => exact ⟨_, rfl⟩
  | ref token => exact absurd h (htoken token)

theorem coapEncodeAndFire_indet (htoken : m.token = .indet) (hpayload : m.payload = .ref payload) :
    c.coapEncodeAndFire m = .error .indet := by
  unfold Client.coapEncodeAndFire coapEncode bufSize
  rw [hpayload]
  change (encodeInto _ m >>= _) = _
  unfold encodeInto Enc.runOn encodeMessage
  rw [htoken]
  rfl

/-! ### The options of the client's own messages -/

theorem readable_of_le {number : Int} {length : Nat} {value : List UInt8} (h : length ≤ value.length) :
    Readable ⟨number, length, .ref value⟩ := by
  have hlow : (UInt16.ofInt (length : Int)).toNat ≤ value.length := by
    rw [short_ofInt_natCast, UInt16.toNat_ofNat']
    exact (Nat.mod_le _ _).trans h
  unfold Readable Ptr.elems
  by_cases h0 : (UInt16.ofInt (length : Int)).toNat = 0
  · exact ⟨[], if_pos h0⟩
  · rw [if_neg h0]
    exact ⟨_, if_pos hlow⟩

theorem readable_arrayOption (number : CoapOptionType) (value : List UInt8) :
    Readable (arrayOption number value) := readable_of_le (Nat.le_refl _)

theorem readable_stringOption (number : CoapOptionType) (value : CString) :
    Readable (stringOption number value) := by
  apply readable_of_le
  rw [List.length_append]
  exact Nat.le_add_right _ _

end IotClient.Coap
