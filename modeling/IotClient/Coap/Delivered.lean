import IotClient.Coap.Acknowledge

/-!
# What a CoAP publication is delivered with

`process_coap_rx` looks for the topic and the QoS of a publication in one pass, which ends at the
topic. The options of a decoded message are in the order of their numbers (`decoded_inOrder`), so
the ACCEPT is behind the URI_PATH and is never reached: what is delivered has QoS 0
(`findTopic_inOrder`, `delivers_iff`).
-/

namespace IotClient.Coap

open Mem Machine

variable {buf data value : List UInt8} {length : Int} {m : CoapMessage} {o u a : CoapOption}
  {os options : List CoapOption}

/-! ### The order of decoded options -/

/-- Each number is no less than those before it. -/
def InOrder (options : List CoapOption) : Prop := options.Pairwise (·.number ≤ ·.number)

theorem inOrder_snoc : InOrder (os ++ [o]) ↔
    InOrder os ∧ ∀ o' ∈ os, o'.number ≤ o.number := by
  unfold InOrder
  simp [List.pairwise_append]

theorem decodeDelta_le {bits : UInt8} {j delta k : Nat}
    (h : decodeDelta buf bits j = .ok (some (delta, k))) : delta < 2 ^ 17 := by
  unfold decodeDelta at h
  split at h
  · obtain ⟨x, -, h⟩ := bind_eq_ok.1 h
    cases h
    have hx := x.toNat_lt
    omega
  · split at h
    · obtain ⟨s, -, h⟩ := bind_eq_ok.1 h
      cases h
      have hs := s.toNat_lt
      omega
    · split at h
      · cases h
      · cases h
        have hbits := bits.toNat_lt
        omega

theorem decodeValue_number {number : Int} {n j k : Nat}
    (h : decodeValue buf number n j = .ok (o, k)) : o.number = number := by
  unfold decodeValue at h
  split at h
  · obtain ⟨bytes, -, h⟩ := bind_eq_ok.1 h
    cases h
    rfl
  · cases h
    rfl

/-- A number that wraps around is negative, and is not kept. -/
theorem decodeOption_number {nextByte : UInt8} {number : Int} {j k : Nat}
    (h : decodeOption buf nextByte number j = .ok (some (o, k)))
    (hnumber : 0 ≤ number ∧ number < 2 ^ 31) : number ≤ o.number ∧ o.number < 2 ^ 31 := by
  obtain ⟨delta, hdelta, h⟩ := bind_eq_ok.1 h
  cases delta with
  | none => cases h
  | some delta =>
    have hle := decodeDelta_le hdelta
    simp only at h
    split at h
    · cases h
    next hneg =>
    obtain ⟨len, -, h⟩ := bind_eq_ok.1 h
    cases len with
    | none => cases h
    | some len =>
      obtain ⟨r, hr, h⟩ := bind_eq_ok.1 h
      cases h
      rw [decodeValue_number hr]
      rw [Int.bmod_def] at hneg ⊢
      omega

theorem decodeOptions_inOrder {fuel : Nat} : ∀ {i j k : Nat} {number : Int},
    decodeOptions buf length fuel i j number os = .ok (some (options, k)) →
      0 ≤ number ∧ number < 2 ^ 31 → InOrder os → (∀ o ∈ os, o.number ≤ number) →
      InOrder options := by
  induction fuel generalizing os with
  | zero =>
    intro i j k number h
    cases h
  | succ fuel ih =>
    intro i j k number h hnumber hos hle
    unfold decodeOptions at h
    split at h
    · obtain ⟨nextByte, -, h⟩ := bind_eq_ok.1 h
      split at h
      · cases h
        exact hos
      · obtain ⟨r, hr, h⟩ := bind_eq_ok.1 h
        split at h
        · next co j' =>
          obtain ⟨hup, hlt⟩ := decodeOption_number hr hnumber
          have hbelow : ∀ o ∈ os, o.number ≤ co.number := fun o ho => (hle o ho).trans hup
          refine ih h ⟨hnumber.1.trans hup, hlt⟩ (inOrder_snoc.2 ⟨hos, hbelow⟩) fun o ho => ?_
          rcases mem_snoc.1 ho with ho | rfl
          · exact hbelow o ho
          · exact le_rfl
        · cases h
    · cases h
      exact hos

/-- The options of a decoded message are in the order that CoAP prescribes. -/
theorem decoded_inOrder (h : coapDecode data length = .ok (some m)) :
    InOrder (messageOptions m) := by
  unfold coapDecode at h
  obtain ⟨firstByte, -, h⟩ := bind_eq_ok.1 h
  simp only at h
  split at h
  · cases h
  split at h
  · cases h
  obtain ⟨codeByte, -, h⟩ := bind_eq_ok.1 h
  obtain ⟨messageId, -, h⟩ := bind_eq_ok.1 h
  obtain ⟨token, -, h⟩ := bind_eq_ok.1 h
  obtain ⟨r, hr, h⟩ := bind_eq_ok.1 h
  split at h
  case h_2 => cases h
  case h_1 options i =>
  obtain ⟨payload, -, h⟩ := bind_eq_ok.1 h
  cases h
  have hoptions : InOrder options := decodeOptions_inOrder hr (by omega) List.Pairwise.nil
    (List.forall_mem_nil _)
  unfold messageOptions
  by_cases hnil : options = []
  · simp [hnil, InOrder]
  · simpa [if_neg hnil] using hoptions

/-! ### The pass over the options -/

/-- The value of a decoded option. -/
def valueBytes (o : CoapOption) : List UInt8 :=
  match o.value with
  | .ref value => value
  | _ => []

theorem WellFormed.elems (h : WellFormed o) : o.value.elems o.length.toNat = .ok (valueBytes o) := by
  unfold valueBytes
  rcases h with ⟨hvalue, hlength⟩ | ⟨value, -, hvalue, hlength⟩
  · rw [hvalue, hlength]
    rfl
  · rw [hvalue, hlength, Int.toNat_natCast]
    exact Ptr.elems_ref value

/-- The first URI_PATH. -/
def topicOption (options : List CoapOption) : Option CoapOption :=
  options.find? fun o => o.number = CoapOptionType.uriPath.value

/-- No ACCEPT is in front of the topic. -/
theorem findTopic_inOrder (hwf : ∀ o ∈ options, WellFormed o) (horder : InOrder options)
    (hu : topicOption options = some u) (qos : UInt8) :
    findTopic options qos = .ok (some (CString.ofBytes (valueBytes u)), qos) := by
  induction options with
  | nil => cases hu
  | cons o os ih =>
    obtain ⟨hfirst, horder⟩ := List.pairwise_cons.1 horder
    obtain ⟨hwfo, hwf⟩ := List.forall_mem_cons.1 hwf
    unfold findTopic
    by_cases huri : o.number = CoapOptionType.uriPath.value
    · rw [topicOption, List.find?_cons_of_pos (by simpa using huri)] at hu
      cases hu
      rw [if_pos huri, hwfo.elems]
      rfl
    · rw [topicOption, List.find?_cons_of_neg (by simpa using huri)] at hu
      have hmem := List.mem_of_find?_eq_some hu
      have hnumber : u.number = CoapOptionType.uriPath.value := by
        simpa using List.find?_some hu
      have hle := hfirst u hmem
      have haccept : o.number ≠ CoapOptionType.accept.value := by
        rw [hnumber] at hle
        intro h
        rw [h] at hle
        exact absurd hle (by decide)
      rw [if_neg huri, if_neg haccept]
      exact ih hwf horder hu

/-- A POST or PUT that is sent as anything but an acknowledgement. -/
def Posts (data : List UInt8) (m : CoapMessage) : Prop :=
  (m.code = CoapCode.post.value ∨ m.code = CoapCode.put.value) ∧
    typeBits data ≠ CoapType.acknowledgement.value

/-- `u` is the topic of a message, and `a` an ACCEPT with a value. -/
structure Carries (options : List CoapOption) (u a : CoapOption) : Prop where
  topic : topicOption options = some u
  mem : a ∈ options
  number : a.number = CoapOptionType.accept.value
  filled : 0 < a.length

namespace Client

variable {c t : Client} {isOk : Bool}

/-- `get_pub_pt` is called once, with the topic, the content and the QoS of the message. -/
def Delivers (c : Client) (data : List UInt8) (length : Int) (m : CoapMessage) (u a : CoapOption) :
    Prop :=
  ∃ t qos, c.processCoapRx data length = .ok t ∧ lastValue a = some qos ∧
    t.published = c.published ++ [⟨m.payload, CString.ofBytes (valueBytes u), qos⟩]

/-- The datagram has a token, and its acknowledgement is no longer than the block of
`coap_encode`. -/
def Acknowledgeable (c : Client) (data : List UInt8) : Prop :=
  tokenLength data ≠ 0 ∧ ∃ clientId, c.account.clientId = some clientId ∧
    4 + (CString.ofBytes (tokenBytes data)).strlen + optionSize 2050 clientId.strlen + 1 ≤ 256

/-! ### Acknowledgements -/

/-- An acknowledgement changes the logs of what is sent. -/
theorem sendCoapAck_same (h : c.sendCoapAck m isOk = .ok t) :
    t.account = c.account ∧ t.published = c.published := by
  obtain ⟨nodeId, -, h⟩ := bind_eq_ok.1 h
  obtain ⟨cursor, -, h⟩ := bind_eq_ok.1 h
  cases h
  exact ⟨rfl, rfl⟩

theorem sendCoapAck_returns (hm : Decoded data m) :
    Returns (c.sendCoapAck m true) ↔ Acknowledgeable c data := by
  by_cases hzero : tokenLength data = 0
  · obtain ⟨f, hf⟩ := sendCoapAck_indet (c := c) hm hzero true
    rw [hf]
    exact iff_of_false (not_returns_error f) fun h => h.1 hzero
  cases hid : c.account.clientId with
  | none =>
    rw [sendCoapAck_none hid]
    refine iff_of_false (not_returns_error _) ?_
    rintro ⟨-, clientId, hsome, -⟩
    rw [hid] at hsome
    cases hsome
  | some clientId =>
    obtain ⟨out, hack⟩ := sendCoapAck_fired hm hid hzero true
    have hsize : messageSize (CString.ofBytes (tokenBytes data))
        (ackOptions true (stringOption .nodeId clientId)) ∅ =
          4 + (CString.ofBytes (tokenBytes data)).strlen + optionSize 2050 clientId.strlen + 1 := rfl
    rw [hack, hsize]
    constructor
    · intro h
      refine ⟨hzero, clientId, hid, ?_⟩
      by_contra hlong
      rw [if_neg hlong] at h
      exact not_returns_error _ h
    · rintro ⟨-, clientId', hsome, hfits⟩
      rw [hid] at hsome
      cases hsome
      rw [if_pos hfits]
      exact returns_ok _

/-! ### Publications -/

/-- What an acknowledgement does publishes nothing. -/
theorem processAck_published {options : List CoapOption} (h : c.processAck m options = .ok t) :
    t.published = c.published := by
  unfold processAck at h
  split at h
  · obtain ⟨observe, -, h⟩ := bind_eq_ok.1 h
    cases observe with
    | none =>
      cases h
      rfl
    | some observe =>
      obtain ⟨-, -, h⟩ := bind_eq_ok.1 h
      cases h
      rfl
  · split at h
    · cases h
      rfl
    · cases h
      rfl

/-- A publication is delivered between two acknowledgements, with QoS 0. -/
theorem processMessage_published (hm : Decoded data m) (horder : InOrder (messageOptions m))
    (hpub : Publishes m) (htype : m.type = CoapType.confirmable.value)
    (hu : topicOption (messageOptions m) = some u) {x : Published} :
    (∃ t, c.processMessage m = .ok t ∧ t.published = c.published ++ [x]) ↔
      Acknowledgeable c data ∧ x = ⟨m.payload, CString.ofBytes (valueBytes u), 0⟩ := by
  rw [processMessage_publish hm hpub htype, findTopic_inOrder hm.wellFormed horder hu]
  change (∃ t, (c.sendCoapAck m true >>= fun c =>
    (c.getPub m (CString.ofBytes (valueBytes u)) 0).sendCoapAck m true) = .ok t ∧ _) ↔ _
  constructor
  · rintro ⟨t, ht, hx⟩
    obtain ⟨c', hack, ht⟩ := bind_eq_ok.1 ht
    have hpublished : t.published = c'.published ++ [⟨m.payload, _, 0⟩] := (sendCoapAck_same ht).2
    rw [hpublished, (sendCoapAck_same hack).2, List.append_cancel_left_eq, List.cons.injEq] at hx
    exact ⟨(sendCoapAck_returns hm).1 ⟨c', hack⟩, hx.1.symm⟩
  · rintro ⟨hack, rfl⟩
    obtain ⟨c', hc'⟩ := (sendCoapAck_returns hm).2 hack
    have haccount : (c'.getPub m (CString.ofBytes (valueBytes u)) 0).account = c.account :=
      (sendCoapAck_same hc').1
    have hagain : Acknowledgeable (c'.getPub m (CString.ofBytes (valueBytes u)) 0) data := by
      unfold Acknowledgeable
      rw [haccount]
      exact hack
    obtain ⟨t, ht⟩ := (sendCoapAck_returns hm).2 hagain
    refine ⟨t, ?_, ?_⟩
    · rw [hc', ok_bind, ht]
    · rw [(sendCoapAck_same ht).2]
      exact congrArg (· ++ _) (sendCoapAck_same hc').2

/-- A decoded publication is delivered with its own QoS if and only if that is 0, it is not taken
for an acknowledgement, and it can be acknowledged. -/
theorem delivers_iff (hdec : coapDecode data length = .ok (some m)) (hposts : Posts data m)
    (hcarries : Carries (messageOptions m) u a) :
    Delivers c data length m u a ↔
      lastValue a = some 0 ∧ typeBits data ≠ CoapType.reset.value ∧ Acknowledgeable c data := by
  have hm := decoded hdec
  have hrun : c.processCoapRx data length = _ := step_receive hdec
  unfold Delivers
  rw [hrun]
  by_cases htype : m.type = CoapType.acknowledgement.value
  · -- only a reset is taken for an acknowledgement
    have hreset : typeBits data = CoapType.reset.value := by
      have hlt := typeBits_lt data
      have hne := hposts.2
      rw [hm.type] at htype
      obtain h | h | h | h : typeBits data = 0 ∨ typeBits data = 1 ∨ typeBits data = 2 ∨
          typeBits data = 3 := by omega
      all_goals rw [h] at htype hne ⊢
      · exact absurd htype (by decide)
      · exact absurd htype (by decide)
      · exact absurd rfl hne
      · rfl
    refine iff_of_false ?_ fun h => h.2.1 hreset
    rintro ⟨t, qos, ht, -, hpublished⟩
    rw [processMessage_ack hm htype] at ht
    rw [processAck_published ht] at hpublished
    have hlength := congrArg List.length hpublished
    rw [List.length_append] at hlength
    exact absurd hlength (Nat.ne_of_lt (Nat.lt_succ_self _))
  · have hcon := (type_cases hm).resolve_right htype
    have hreset : typeBits data ≠ CoapType.reset.value := by
      intro h
      rw [hm.type, h] at htype
      exact htype rfl
    have hpub (x : Published) := processMessage_published (c := c.read m) hm (decoded_inOrder hdec)
      ⟨hposts.1, htype⟩ hcon hcarries.topic (x := x)
    constructor
    · rintro ⟨t, qos, ht, hqos, hpublished⟩
      obtain ⟨hack, hx⟩ := (hpub _).1 ⟨t, ht, hpublished⟩
      cases hx
      exact ⟨hqos, hreset, hack⟩
    · rintro ⟨hqos, -, hack⟩
      obtain ⟨t, ht, hpublished⟩ := (hpub _).2 ⟨hack, rfl⟩
      exact ⟨t, 0, ht, hqos, hpublished⟩

/-- The PUT on the topic `t`, with the QoS in an ACCEPT behind it. -/
def qosPut (qos : UInt8) : List UInt8 := topicPut ++ [0x61, qos]

def qosPutMessage (qos : UInt8) : CoapMessage :=
  { plainPutMessage with
    options := .ref [⟨11, 1, .ref [0x74]⟩, ⟨17, 1, .ref [qos]⟩]
    optionsAmount := 2 }

theorem coapDecode_qosPut (qos : UInt8) :
    coapDecode (qosPut qos) 9 = .ok (some (qosPutMessage qos)) := by
  revert qos; decide +kernel

theorem posts_qosPut (qos : UInt8) : Posts (qosPut qos) (qosPutMessage qos) :=
  ⟨.inr rfl, show ((0x41 : UInt8) >>> 4 &&& 3).toNat ≠ 2 by decide⟩

theorem carries_qosPut (qos : UInt8) : Carries (messageOptions (qosPutMessage qos))
    ⟨11, 1, .ref [0x74]⟩ ⟨17, 1, .ref [qos]⟩ where
  topic := rfl
  mem := List.mem_cons_of_mem _ List.mem_cons_self
  number := rfl
  filled := Int.one_pos

theorem delivers_iff_qosPut :
    coapDecode (qosPut 0) 9 = .ok (some (qosPutMessage 0)) ∧
      Posts (qosPut 0) (qosPutMessage 0) ∧
      Carries (messageOptions (qosPutMessage 0)) ⟨11, 1, .ref [0x74]⟩ ⟨17, 1, .ref [0]⟩ ∧
      (Delivers (init identified) (qosPut 0) 9 (qosPutMessage 0) ⟨11, 1, .ref [0x74]⟩
          ⟨17, 1, .ref [0]⟩ ↔
        lastValue ⟨17, 1, .ref [0]⟩ = some 0 ∧ typeBits (qosPut 0) ≠ CoapType.reset.value ∧
          Acknowledgeable (init identified) (qosPut 0)) :=
  ⟨coapDecode_qosPut 0, posts_qosPut 0, carries_qosPut 0,
    delivers_iff (coapDecode_qosPut 0) (posts_qosPut 0) (carries_qosPut 0)⟩

/-- A PUT with QoS 1 is delivered with QoS 0. -/
theorem qosPut_not_delivered :
    coapDecode (qosPut 1) 9 = .ok (some (qosPutMessage 1)) ∧
      Posts (qosPut 1) (qosPutMessage 1) ∧
      Carries (messageOptions (qosPutMessage 1)) ⟨11, 1, .ref [0x74]⟩ ⟨17, 1, .ref [1]⟩ ∧
      ¬ Delivers (init identified) (qosPut 1) 9 (qosPutMessage 1) ⟨11, 1, .ref [0x74]⟩
          ⟨17, 1, .ref [1]⟩ := by
  refine ⟨coapDecode_qosPut 1, posts_qosPut 1, carries_qosPut 1, ?_⟩
  rintro ⟨t, qos, ht, hqos, hpublished⟩
  cases hqos
  have hrun : (init identified).processCoapRx (qosPut 1) 9 = _ :=
    step_receive (coapDecode_qosPut 1)
  rw [hrun] at ht
  have hpub (x : Published) := processMessage_published (c := (init identified).read (qosPutMessage 1))
    (decoded (coapDecode_qosPut 1)) (decoded_inOrder (coapDecode_qosPut 1)) ⟨.inr rfl, by decide⟩
    rfl (carries_qosPut 1).topic (x := x)
  have hx := ((hpub _).1 ⟨t, ht, hpublished⟩).2
  exact absurd (congrArg Published.qos hx) (by decide)

end Client

end IotClient.Coap
