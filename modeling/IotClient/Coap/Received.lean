import IotClient.Coap.Client

/-!
# What a CoAP client receives

`Decoded data m` says what `coap_decode` keeps of a datagram it accepts: one of the two bits of
the type, the message id, the token up to a NUL, and options whose values are `NULL` when they
are empty. From there the loops of `process_coap_rx` fault at an empty ACCEPT and nowhere else.
-/

namespace IotClient.Coap

open Mem Machine

/-! ### The header of a datagram -/

def typeBits (data : List UInt8) : Nat := (data.getD 0 0 >>> 4 &&& 3).toNat

def tokenLength (data : List UInt8) : Nat := (data.getD 0 0 &&& 0xf).toNat

def idBytes (data : List UInt8) : List UInt8 := (data.drop 2).take 2

def tokenBytes (data : List UInt8) : List UInt8 := (data.drop 4).take (tokenLength data)

/-- The options of a decoded message. -/
def messageOptions (m : CoapMessage) : List CoapOption :=
  match m.options with
  | .ref options => options
  | _ => []

/-- The value of a decoded option. -/
def WellFormed (o : CoapOption) : Prop :=
  (o.value = .null ∧ o.length = 0) ∨ ∃ value, value ≠ [] ∧ o.value = .ref value ∧
    o.length = value.length

structure Decoded (data : List UInt8) (m : CoapMessage) : Prop where
  version : m.version = 1
  type : m.type = typeBits data &&& 2
  messageId : idBytes data = shortBytes m.messageId
  tokenLength_le : tokenLength data ≤ 8
  length_token : (tokenBytes data).length = tokenLength data
  token : m.token =
    if tokenLength data = 0 then .indet else .ref (CString.ofBytes (tokenBytes data))
  options : m.options.elems m.optionsAmount.toNat = .ok (messageOptions m)
  wellFormed : ∀ o ∈ messageOptions m, WellFormed o

variable {data buf value : List UInt8} {m : CoapMessage} {o : CoapOption}
  {os options : List CoapOption} {length : Int} {i j k : Nat} {x : UInt8}

theorem rd_getElem (hi : i < buf.length) (h : rd buf i = .ok x) : buf[i] = x := by
  unfold rd at h
  rw [List.getElem?_eq_getElem hi] at h
  exact Except.ok.inj h

theorem rd_getD (h : rd buf i = .ok x) : buf.getD i 0 = x := by
  have hi := rd_ok_lt h
  rw [List.getD_eq_getElem?_getD, List.getElem?_eq_getElem hi, rd_getElem hi h]
  rfl

theorem getShort_bytes {s : UInt16} (h : getShort buf i = .ok s) :
    (buf.drop i).take 2 = shortBytes s := by
  obtain ⟨hi, hhi, h⟩ := bind_eq_ok.mp h
  obtain ⟨lo, hlo, h⟩ := bind_eq_ok.mp h
  cases h
  have h0 := rd_ok_lt hhi
  have h1 := rd_ok_lt hlo
  rw [short_split, List.drop_eq_getElem_cons h0, List.drop_eq_getElem_cons h1, rd_getElem h0 hhi,
    rd_getElem h1 hlo]
  rfl

theorem type_bits (x : UInt8) : (x >>> 4 &&& 2).toNat = (x >>> 4 &&& 3).toNat &&& 2 := by
  revert x; decide +kernel

theorem typeBits_lt (data : List UInt8) : typeBits data < 4 := by
  unfold typeBits
  rw [UInt8.toNat_and]
  exact Nat.lt_of_le_of_lt Nat.and_le_right (by decide)

theorem decodeToken_ok {n : Nat} {token : Ptr CString} (h : decodeToken buf n i = .ok token) :
    ((buf.drop i).take n).length = n ∧
      token = if n = 0 then .indet else .ref (CString.ofBytes ((buf.drop i).take n)) := by
  unfold decodeToken at h
  split at h
  · next hpos =>
    obtain ⟨bytes, hcopy, h⟩ := bind_eq_ok.mp h
    cases h
    have hlen := copyOut_ok_length hcopy
    rw [copyOut_ok_eq hcopy] at hlen ⊢
    rw [if_neg (by omega)]
    exact ⟨hlen, rfl⟩
  · next hzero =>
    cases h
    obtain rfl : n = 0 := by omega
    exact ⟨rfl, rfl⟩

theorem decodeValue_wellFormed {number : Int} {n : Nat}
    (h : decodeValue buf number n j = .ok (o, k)) : WellFormed o := by
  unfold decodeValue at h
  split at h
  · next hpos =>
    obtain ⟨bytes, hcopy, h⟩ := bind_eq_ok.mp h
    cases h
    have hlen := copyOut_ok_length hcopy
    refine .inr ⟨bytes, List.ne_nil_of_length_pos (by omega), rfl, ?_⟩
    simp [hlen]
  · next hzero =>
    cases h
    refine .inl ⟨rfl, ?_⟩
    simp only
    omega

theorem decodeOption_wellFormed {nextByte : UInt8} {number : Int}
    (h : decodeOption buf nextByte number j = .ok (some (o, k))) : WellFormed o := by
  obtain ⟨delta, -, h⟩ := bind_eq_ok.mp h
  cases delta with
  | none => cases h
  | some delta =>
    simp only at h
    split at h
    · cases h
    · obtain ⟨len, -, h⟩ := bind_eq_ok.mp h
      cases len with
      | none => cases h
      | some len =>
        obtain ⟨r, hr, h⟩ := bind_eq_ok.mp h
        cases h
        exact decodeValue_wellFormed hr

theorem decodeOptions_wellFormed {fuel : Nat} : ∀ {i j : Nat} {number : Int},
    decodeOptions buf length fuel i j number os = .ok (some (options, k)) →
      (∀ o ∈ os, WellFormed o) → ∀ o ∈ options, WellFormed o := by
  induction fuel generalizing os with
  | zero =>
    intro i j number h
    cases h
  | succ fuel ih =>
    intro i j number h hos
    unfold decodeOptions at h
    split at h
    · obtain ⟨nextByte, -, h⟩ := bind_eq_ok.mp h
      split at h
      · cases h
        exact hos
      · obtain ⟨r, hr, h⟩ := bind_eq_ok.mp h
        split at h
        · refine ih h fun o ho => ?_
          rcases mem_snoc.mp ho with ho | rfl
          · exact hos o ho
          · exact decodeOption_wellFormed hr
        · cases h
    · cases h
      exact hos

theorem decoded (h : coapDecode data length = .ok (some m)) : Decoded data m := by
  unfold coapDecode at h
  obtain ⟨firstByte, hfirst, h⟩ := bind_eq_ok.mp h
  simp only at h
  split at h
  · cases h
  next hversion =>
  split at h
  · cases h
  next htokenLength =>
  obtain ⟨codeByte, -, h⟩ := bind_eq_ok.mp h
  obtain ⟨messageId, hid, h⟩ := bind_eq_ok.mp h
  obtain ⟨token, htoken, h⟩ := bind_eq_ok.mp h
  obtain ⟨r, hr, h⟩ := bind_eq_ok.mp h
  split at h
  case h_2 => cases h
  case h_1 options i =>
  obtain ⟨payload, -, h⟩ := bind_eq_ok.mp h
  cases h
  have hbyte : data.getD 0 0 = firstByte := rd_getD hfirst
  have hlen : tokenLength data = (firstByte &&& 0xf).toNat := by rw [tokenLength, hbyte]
  obtain ⟨hbytes, htoken⟩ := decodeToken_ok htoken
  rw [← hlen] at hbytes htoken
  have hwf : ∀ o ∈ options, WellFormed o := decodeOptions_wellFormed hr (by simp)
  refine ⟨not_not.mp hversion, ?_, getShort_bytes hid, by omega, hbytes, htoken, ?_, ?_⟩
  · unfold typeBits
    rw [hbyte]
    exact type_bits firstByte
  · unfold messageOptions
    by_cases hnil : options = []
    · simp [hnil, Ptr.elems]
    · simp only [if_neg hnil, Int.toNat_natCast]
      exact Ptr.elems_ref options
  · unfold messageOptions
    by_cases hnil : options = []
    · simp [hnil]
    · simpa [if_neg hnil] using hwf

/-! ### The loops over the options -/

/-- The last byte of an option's value. -/
def lastValue (o : CoapOption) : Option UInt8 :=
  match o.value with
  | .ref value => value.getLast?
  | _ => none

/-- The last byte of the first OBSERVE that is not empty. -/
def observeByte (options : List CoapOption) : Option UInt8 :=
  (options.find? fun o => o.number = CoapOptionType.observe.value ∧ 0 < o.length).bind lastValue

/-- No ACCEPT is empty. -/
def AcceptsFilled (options : List CoapOption) : Prop :=
  ∀ o ∈ options, o.number = CoapOptionType.accept.value → 0 < o.length

theorem WellFormed.lastByte_eq (h : WellFormed o) :
    lastByte o = match lastValue o with
      | some x => .ok x
      | none => .error .nullDeref := by
  unfold lastByte lastValue
  rcases h with ⟨hvalue, -⟩ | ⟨value, hne, hvalue, hlength⟩
  · rw [hvalue]
    rfl
  · have hpos := List.length_pos_iff.mpr hne
    have hrd : rd value (value.length - 1) = .ok (value.getLast hne) := by
      unfold rd
      rw [List.getElem?_eq_getElem (by omega), List.getLast_eq_getElem]
    rw [hvalue, hlength]
    simp only [Ptr.deref_ref, ok_bind, List.getLast?_eq_some_getLast hne]
    rw [if_neg (by omega), show ((value.length : Int) - 1).toNat = value.length - 1 by omega, hrd]

theorem WellFormed.lastByte_filled (h : WellFormed o) (hpos : 0 < o.length) :
    ∃ x, lastValue o = some x ∧ lastByte o = .ok x := by
  rcases h with ⟨-, hzero⟩ | ⟨value, hne, hvalue, hlength⟩
  · omega
  · have hlast : lastValue o = some (value.getLast hne) := by
      unfold lastValue
      rw [hvalue]
      exact List.getLast?_eq_some_getLast hne
    refine ⟨_, hlast, ?_⟩
    rw [WellFormed.lastByte_eq (.inr ⟨value, hne, hvalue, hlength⟩), hlast]

theorem WellFormed.lastByte_empty (h : WellFormed o) (hzero : ¬ 0 < o.length) :
    lastByte o = .error .nullDeref := by
  rcases h with ⟨hvalue, -⟩ | ⟨value, hne, -, hlength⟩
  · unfold lastByte
    rw [hvalue]
    rfl
  · have hpos := List.length_pos_iff.mpr hne
    omega

theorem findTopic_none_iff (hwf : ∀ o ∈ options, WellFormed o) : ∀ qos : UInt8,
    (∃ q, findTopic options qos = .ok (none, q)) ↔
      (∀ o ∈ options, o.number ≠ CoapOptionType.uriPath.value) ∧ AcceptsFilled options := by
  induction options with
  | nil => simp [findTopic, AcceptsFilled]
  | cons o os ih =>
    intro qos
    have hrest (q : UInt8) := ih (fun o ho => hwf o (List.mem_cons_of_mem _ ho)) q
    unfold findTopic
    simp only [AcceptsFilled, List.forall_mem_cons]
    by_cases huri : o.number = CoapOptionType.uriPath.value
    · rw [if_pos huri]
      refine iff_of_false ?_ fun h => h.1.1 huri
      rintro ⟨q, h⟩
      obtain ⟨value, -, h⟩ := bind_eq_ok.mp h
      cases h
    · rw [if_neg huri]
      by_cases haccept : o.number = CoapOptionType.accept.value
      · rw [if_pos haccept]
        by_cases hpos : 0 < o.length
        · obtain ⟨x, -, hx⟩ := (hwf o List.mem_cons_self).lastByte_filled hpos
          rw [hx, ok_bind, hrest]
          simp [AcceptsFilled, huri, hpos]
        · rw [(hwf o List.mem_cons_self).lastByte_empty hpos]
          simp [haccept, hpos]
      · rw [if_neg haccept, hrest]
        simp [AcceptsFilled, huri, haccept]

theorem findObserve_eq (hwf : ∀ o ∈ options, WellFormed o) :
    findObserve options = .ok (observeByte options) := by
  induction options with
  | nil => rfl
  | cons o os ih =>
    have hrest := ih fun o ho => hwf o (List.mem_cons_of_mem _ ho)
    unfold findObserve observeByte
    by_cases hobserve : o.number = CoapOptionType.observe.value ∧ 0 < o.length
    · obtain ⟨x, hlast, hx⟩ := (hwf o List.mem_cons_self).lastByte_filled hobserve.2
      rw [if_pos hobserve, hx, List.find?_cons_of_pos (by simpa using hobserve), Option.bind_some,
        hlast]
      rfl
    · rw [if_neg hobserve, hrest, List.find?_cons_of_neg (by simpa using hobserve), observeByte]

theorem readAccepts_iff (hwf : ∀ o ∈ options, WellFormed o) : ∀ qos : UInt8,
    (∃ q, readAccepts options qos = .ok q) ↔ AcceptsFilled options := by
  induction options with
  | nil => simp [readAccepts, AcceptsFilled]
  | cons o os ih =>
    intro qos
    have hrest (q : UInt8) := ih (fun o ho => hwf o (List.mem_cons_of_mem _ ho)) q
    unfold readAccepts
    simp only [AcceptsFilled, List.forall_mem_cons]
    by_cases haccept : o.number = CoapOptionType.accept.value
    · rw [if_pos haccept]
      by_cases hpos : 0 < o.length
      · obtain ⟨x, -, hx⟩ := (hwf o List.mem_cons_self).lastByte_filled hpos
        rw [hx, ok_bind, hrest]
        simp [AcceptsFilled, hpos]
      · rw [(hwf o List.mem_cons_self).lastByte_empty hpos]
        simp [haccept, hpos]
    · rw [if_neg haccept, hrest]
      simp [AcceptsFilled, haccept]

/-! ### The requests that are stored -/

/-- The topic of the message can be copied with `strcpy`. -/
def Terminated (message : CoapMessage) : Prop :=
  ∃ options, message.options.elems message.optionsAmount.toNat = .ok options ∧
    ∀ o ∈ options, o.number = CoapOptionType.uriPath.value → ∃ value, o.value = .ref value ∧ 0 ∈ value

theorem copyTopics_ok (h : ∀ o ∈ options, o.number = CoapOptionType.uriPath.value →
    ∃ value, o.value = .ref value ∧ 0 ∈ value) : copyTopics options = .ok () := by
  induction options with
  | nil => rfl
  | cons o os ih =>
    have hrest := ih fun o ho => h o (List.mem_cons_of_mem _ ho)
    unfold copyTopics
    by_cases huri : o.number = CoapOptionType.uriPath.value
    · obtain ⟨value, hvalue, hnul⟩ := h o List.mem_cons_self huri
      rw [if_pos huri, hvalue, Ptr.deref_ref, ok_bind, if_pos hnul, hrest]
    · rw [if_neg huri, hrest]

namespace Client

variable {c t : Client} {message : CoapMessage} {account : Account} {es : List Event}

/-- An acknowledgement of a GET is read without a fault: when its OBSERVE ends in 0 and its
request is found, none of its ACCEPTs is empty. -/
def AckSafe (c : Client) (m : CoapMessage) : Prop :=
  m.code = CoapCode.get.value → c.m m.messageId ≠ none →
    observeByte (messageOptions m) = some 0 → AcceptsFilled (messageOptions m)

/-- The acknowledgement takes the entry of its id out of the map. -/
def Settles (m : CoapMessage) : Prop :=
  if m.code = CoapCode.get.value then observeByte (messageOptions m) ≠ none else m.messageId ≠ 0

instance (m : CoapMessage) : Decidable (Settles m) := inferInstanceAs (Decidable (ite _ _ _))

def StoredTerminated (c : Client) : Prop := ∀ k message, c.m k = some message → Terminated message

theorem remove_of_none {k : UInt16} (h : c.m k = none) : c.coapRemoveMessageFromMap k = c := by
  unfold coapRemoveMessageFromMap
  rw [Table.erase_of_none h]

theorem readOriginal_iff (hc : StoredTerminated c) (hwf : ∀ o ∈ options, WellFormed o) (k : UInt16)
    (observe : UInt8) : c.readOriginal options observe k = .ok () ↔
      (c.m k ≠ none → observe = 0 → AcceptsFilled options) := by
  unfold readOriginal
  split
  · next hnone => simp [hnone]
  · next original hsome =>
    split
    · next hzero =>
      rw [bind_eq_ok]
      simp only [hsome, hzero, ← readAccepts_iff hwf 0]
      simp
    · next hone =>
      obtain ⟨os, hos, huri⟩ := hc k original hsome
      rw [hos, ok_bind, copyTopics_ok huri]
      simp [hone]

theorem processAck_iff (hc : StoredTerminated c) (hwf : ∀ o ∈ messageOptions m, WellFormed o) :
    c.processAck m (messageOptions m) = .ok t ↔ AckSafe c m ∧
      t = if Settles m then c.coapRemoveMessageFromMap m.messageId else c := by
  unfold processAck AckSafe
  by_cases hget : m.code = CoapCode.get.value
  · have hsettles : Settles m ↔ observeByte (messageOptions m) ≠ none := by
      unfold Settles
      rw [if_pos hget]
    rw [if_pos hget, findObserve_eq hwf, ok_bind]
    rcases Option.eq_none_or_eq_some (observeByte (messageOptions m)) with hnone | ⟨observe, hsome⟩
    · simp [hsettles, hnone, eq_comm]
    · have hread := readOriginal_iff hc hwf m.messageId observe
      have hsafe : (m.code = CoapCode.get.value → c.m m.messageId ≠ none →
          observeByte (messageOptions m) = some 0 → AcceptsFilled (messageOptions m)) ↔
          c.readOriginal (messageOptions m) observe m.messageId = .ok () := by
        rw [hread, hsome]
        simp [hget]
      rw [hsafe, hsome, bind_eq_ok, if_pos (hsettles.mpr (by simp [hsome]))]
      constructor
      · rintro ⟨⟨⟩, hok, ht⟩
        cases ht
        exact ⟨hok, rfl⟩
      · rintro ⟨hok, rfl⟩
        exact ⟨(), hok, rfl⟩
  · have hsettles : Settles m ↔ m.messageId ≠ 0 := by
      unfold Settles
      rw [if_neg hget]
    rw [if_neg hget]
    by_cases hzero : m.messageId = 0
    · simp [hsettles, hget, hzero, eq_comm]
    · by_cases hnone : c.m m.messageId = none
      · simp [hsettles, hget, hnone, remove_of_none hnone, eq_comm]
      · simp [hsettles, hget, hzero, hnone, eq_comm]

end Client

end IotClient.Coap
