import IotClient.Mqtt.Broker
import IotClient.Mqtt.FrameSize

/-!
# Decoding an encoded CONNECT

The encoder sets bit 6 of the flags for a user name and bit 7 for a password, the decoder takes
them the other way round, so the flags are right when a CONNECT has both or neither. No CONNECT
comes back: the decoder accepts its frame, and gives a pointer to its own variable
(`connectBack_never`).
-/

namespace IotClient.Mqtt

open Mem

/-- A will, which without a flag has no QoS and is not retained. -/
inductive ConnectWill where
  | absent (topicName content : Ptr CString)
  | present (flag retain : Int) (qos : Fin 3) (topicName content : CString) (flag_ne : flag ≠ 0)
    (topicName_ne : topicName.bytes ≠ []) (content_ne : content.bytes ≠ [])

namespace ConnectWill

def flag : ConnectWill → Int
  | absent .. => 0
  | present flag .. => flag

def will : ConnectWill → Will
  | absent topicName content => ⟨⟨topicName, .is 0⟩, content, 0⟩
  | present _ retain qos topicName content .. => ⟨⟨.ref topicName, .is qos⟩, .ref content, retain⟩

/-- The strings of the will, empty ones when there is none. -/
def topicName : ConnectWill → CString
  | absent .. => ∅
  | present _ _ _ topicName .. => topicName

def content : ConnectWill → CString
  | absent .. => ∅
  | present _ _ _ _ content .. => content

def qos : ConnectWill → Fin 3
  | absent .. => ⟨0, Nat.succ_pos 2⟩
  | present _ _ qos .. => qos

def retain : ConnectWill → Bool
  | absent .. => false
  | present _ retain .. => decide (retain ≠ 0)

variable {w : ConnectWill}

theorem strings_of_flag (h : w.flag ≠ 0) :
    w.will.topic = ⟨.ref w.topicName, .is w.qos⟩ ∧ w.will.content = .ref w.content ∧
      w.topicName.bytes ≠ [] ∧ w.content.bytes ≠ [] := by
  cases w with
  | absent => exact absurd rfl h
  | present _ _ _ _ _ _ htopic hcontent => exact ⟨rfl, rfl, htopic, hcontent⟩

theorem empty_of_flag (h : ¬ w.flag ≠ 0) : w.topicName = ∅ ∧ w.content = ∅ := by
  cases w with
  | absent => exact ⟨rfl, rfl⟩
  | present _ _ _ _ _ hflag => exact absurd hflag h

end ConnectWill

structure ConnectPacket where
  clientId : CString
  username : CString
  password : CString
  cleanSession : Int
  keepalive : UInt16
  protocolLevel : UInt16
  will : ConnectWill

namespace ConnectPacket

variable (p : ConnectPacket)

def connect : Connect where
  username := .ref p.username
  password := .ref p.password
  clientId := .ref p.clientId
  cleanSession := p.cleanSession
  willFlag := p.will.flag
  keepalive := p.keepalive
  protocolLevel := p.protocolLevel
  will := p.will.will

def message : Message := ⟨.is .connect, .ref (.connect p.connect)⟩

def strings : ConnectStrings p.connect where
  clientId := p.clientId
  username := p.username
  password := p.password
  topicName := p.will.topicName
  content := p.will.content
  clientId_eq := rfl
  username_eq := rfl
  password_eq := rfl
  topicName_eq h := congrArg Topic.topicName (ConnectWill.strings_of_flag h).1
  content_eq h := (ConnectWill.strings_of_flag h).2.1

end ConnectPacket

/-! ### What is to come back -/

def WillBack : ConnectWill → Connect → Prop
  | .absent .., c => c.willFlag = 0 ∧ c.will.topic.qos = .is 0 ∧ c.will.retain = 0
  | .present _ retain qos topicName content .., c =>
    c.willFlag ≠ 0 ∧ c.will.topic = ⟨.ref topicName, .is qos⟩ ∧ c.will.content = .ref content ∧
      (c.will.retain ≠ 0 ↔ retain ≠ 0)

/-- The flags say which strings follow, as the decoder reads them. -/
def FlagsRight (p : ConnectPacket) (frame : List UInt8) : Prop :=
  ∃ flags : UInt8, frame[9]? = some flags ∧
    (flags >>> 7 &&& 1 ≠ 0 ↔ p.username.bytes ≠ []) ∧
    (flags >>> 6 &&& 1 ≠ 0 ↔ p.password.bytes ≠ [])

/-- The frame, with right flags, and the strings and the will that are made of it. -/
def ConnectBack (p : ConnectPacket) : Prop :=
  ∃ (l : Nat) (frame : List UInt8), getLength p.message = .ok l ∧
    encode p.message l = .ok (frame.map some) ∧ FlagsRight p frame ∧
    ∃ c : Connect, decode frame = .ok ⟨.is .connect, .ref (.connect c)⟩ ∧
      c.clientId = .ref p.clientId ∧ WillBack p.will c ∧
      c.username = .ref p.username ∧ c.password = .ref p.password

/-! ### The flags -/

def flagsByte (clean will : Bool) (qos : Fin 3) (retain username password : Bool) : UInt8 :=
  let flags : UInt8 := if clean then 0x02 else 0
  let flags :=
    if will then
      let flags := flags + 0x04 + (UInt8.ofNat qos <<< (3 : UInt8))
      if retain then flags + 0x20 else flags
    else flags
  let flags := if username then flags + 0x40 else flags
  if password then flags + 0x80 else flags

/-- What the decoder reads off the flags. -/
theorem flagsByte_bits (clean will : Bool) (qos : Fin 3) (retain username password : Bool) :
    let flags := flagsByte clean will qos retain username password
    decide (flags >>> 7 &&& 1 ≠ 0) = password ∧ decide (flags >>> 6 &&& 1 ≠ 0) = username ∧
      (flags >>> 5 &&& 1).toNat = (will && retain).toNat ∧
      ((flags &&& 0x1f) >>> 3 &&& 3).toNat = (if will then qos else 0 : Nat) ∧
      (flags >>> 2 &&& 1).toNat = will.toNat ∧ flags &&& 1 ≠ 1 := by
  revert clean will qos retain username password
  decide +kernel

section Encode

variable (p : ConnectPacket)

/-- The flags of a packet. -/
def ConnectPacket.flags : UInt8 :=
  flagsByte (p.cleanSession ≠ 0) (p.will.flag ≠ 0) p.will.qos p.will.retain
    (p.username.bytes ≠ []) (p.password.bytes ≠ [])

theorem connectFlags_eq : connectFlags p.connect = .ok p.flags := by
  have hempty : ∀ s : CString, decide (s.bytes ≠ []) = decide (s.bytes.length ≠ 0) := by
    intro s
    simp [List.length_eq_zero_iff]
  have huser := strlen_ref p.username
  have hpass := strlen_ref p.password
  unfold ConnectPacket.flags
  rw [hempty, hempty, connectFlags]
  cases hw : p.will with
  | absent topicName content =>
    simp only [ConnectPacket.connect, hw, ConnectWill.flag, huser, hpass]
    simp [flagsByte]
  | present flag retain qos topicName content hflag =>
    simp only [ConnectPacket.connect, hw, ConnectWill.flag, ConnectWill.will, huser, hpass]
    simp [flagsByte, hflag, ConnectWill.qos, ConnectWill.retain]

/-- What follows the length byte. -/
def ConnectPacket.body : List UInt8 := connectBody p.connect p.strings p.flags

/-- The strings behind the client id, in the order of their fields. -/
def ConnectPacket.tail : List UInt8 :=
  stringField p.will.topicName ++ (stringField p.will.content ++
    (stringField p.username ++ stringField p.password))

theorem stringField_empty : stringField ∅ = [] := rfl

theorem body_eq (h : p.clientId.bytes.length < 65536) :
    p.body = 0 :: 4 :: (PROTOCOL_NAME ++ 4 :: p.flags :: (shortBytes p.keepalive ++
      (shortBytes (UInt16.ofNat p.clientId.strlen) ++ (p.clientId.bytes ++ p.tail)))) := by
  have hid : (UInt16.ofNat p.strings.clientId.strlen).toNat = p.clientId.bytes.length :=
    toNat_strlen h
  have htake : p.strings.clientId.bytes.take p.clientId.bytes.length = p.clientId.bytes :=
    List.take_length
  have hwill : (if p.connect.willFlag ≠ 0 then
      stringField p.strings.topicName ++ stringField p.strings.content else []) =
      stringField p.will.topicName ++ stringField p.will.content := by
    by_cases hflag : p.will.flag ≠ 0
    · exact if_pos hflag
    · obtain ⟨htopic, hcontent⟩ := ConnectWill.empty_of_flag hflag
      rw [htopic, hcontent]
      exact if_neg hflag
  unfold ConnectPacket.body connectBody
  rw [hwill]
  simp only [hid, htake]
  simp only [ConnectPacket.tail, List.append_assoc]
  rfl

/-- The strings of a packet of one length byte are short, and its body has the size that
`get_length` says. -/
theorem size_facts (h : bodySize p.message ≤ 127) :
    p.clientId.bytes.length < 128 ∧ p.username.bytes.length < 128 ∧
      p.password.bytes.length < 128 ∧ p.will.topicName.bytes.length < 128 ∧
      p.will.content.bytes.length < 128 ∧
      bodySize p.message = 12 + p.clientId.bytes.length + p.tail.length := by
  have hsize : bodySize p.message = 10 + (p.clientId.bytes.length + 2) +
      (if p.will.flag ≠ 0 then lengthOf p.will.will.content + lengthOf p.will.will.topic.topicName + 4
        else 0) + fieldSize p.username.bytes.length + fieldSize p.password.bytes.length := rfl
  have hu := le_fieldSize p.username.bytes.length
  have hp := le_fieldSize p.password.bytes.length
  rw [hsize] at h ⊢
  have huser := length_stringField (s := p.username) (by omega)
  have hpass := length_stringField (s := p.password) (by omega)
  simp only [ConnectPacket.tail, List.length_append, huser, hpass]
  by_cases hflag : p.will.flag ≠ 0
  · obtain ⟨htopic, hcontent, htopic_ne, hcontent_ne⟩ := ConnectWill.strings_of_flag hflag
    rw [if_pos hflag, htopic, hcontent] at h ⊢
    simp only [lengthOf_ref] at h ⊢
    rw [stringField_short (by omega) htopic_ne, stringField_short (by omega) hcontent_ne]
    simp only [List.length_append, length_shortBytes]
    omega
  · obtain ⟨htopic, hcontent⟩ := ConnectWill.empty_of_flag hflag
    have hempty : (∅ : CString).bytes.length = 0 := rfl
    rw [if_neg hflag] at h ⊢
    rw [htopic, hcontent, stringField_empty, List.length_nil]
    omega

theorem length_body (h : bodySize p.message ≤ 127) : p.body.length = bodySize p.message := by
  have hsize := size_facts p h
  rw [body_eq p (by omega), hsize.2.2.2.2.2]
  simp only [List.length_cons, List.length_append, length_shortBytes, PROTOCOL_NAME,
    List.length_nil]
  omega

theorem getLength_connectPacket : getLength p.message = .ok (bodySize p.message) :=
  getLength_connect p.strings

theorem encode_connectPacket (h : bodySize p.message ≤ 127) :
    encode p.message (bodySize p.message) =
      .ok ((0x10 :: UInt8.ofNat (bodySize p.message) :: p.body).map some) := by
  refine (encode_connect _ _).trans ?_
  rw [encodeConnect_block p.strings (connectFlags_eq p)]
  exact emittedBlock_frame (length_body p h).symm h

end Encode

section Decode

variable {buf r : List UInt8} {i : Nat}

/-- A field whose string is not empty. -/
theorem getField_eq (length : Int) {s : CString} {least : Nat} (hleast : least ≤ 1)
    (hs : s.bytes.length < 65536) (hne : s.bytes ≠ []) (hdrop : buf.drop i = stringField s ++ r)
    (hlen : length = i + (stringField s ++ r).length) :
    getField buf length least i = .ok (some (i + (stringField s).length)) := by
  have hpos := List.length_pos_of_ne_nil hne
  rw [stringField_short hs hne] at hdrop hlen ⊢
  rw [List.append_assoc] at hdrop
  simp only [List.length_append, length_shortBytes] at hlen ⊢
  have htext : buf.drop (i + 2) = s.bytes ++ r := drop_short hdrop
  have hfits : ¬ (length - ((i + 2 : Nat) : Int) < s.bytes.length ∨ s.bytes.length < least) := by
    omega
  rw [getField, if_neg (by omega), getShort_drop hdrop, ok_bind, toNat_strlen hs, if_neg hfits,
    copyOut_drop htext, ok_bind, pure_eq_ok, Nat.add_assoc]

/-- A field that is there exactly when its string is not empty. -/
theorem getFieldIf_eq (length : Int) {s : CString} {least : Nat} (hleast : least ≤ 1)
    (hs : s.bytes.length < 65536) (hdrop : buf.drop i = stringField s ++ r)
    (hlen : length = i + (stringField s ++ r).length) :
    getFieldIf (decide (s.bytes ≠ [])) buf length least i =
      .ok (some (i + (stringField s).length)) := by
  unfold getFieldIf
  by_cases hne : s.bytes = []
  · rw [decide_eq_false (not_not.2 hne), stringField_nil hne]
    rfl
  · rw [decide_eq_true hne, if_pos rfl]
    exact getField_eq length hleast hs hne hdrop hlen

/-- Two fields are read under each other's flag. -/
theorem swappedFields (length : Int) {u q : CString} (hu : u.bytes.length < 65536)
    (hq : q.bytes.length < 65536) (hdrop : buf.drop i = stringField u ++ stringField q)
    (hlen : length = i + (stringField u ++ stringField q).length) :
    ∃ k, getFieldIf (decide (q.bytes ≠ [])) buf length 0 i = .ok (some k) ∧
      getFieldIf (decide (u.bytes ≠ [])) buf length 0 k =
        .ok (some (i + (stringField u).length + (stringField q).length)) := by
  by_cases hune : u.bytes = []
  · rw [stringField_nil hune, List.nil_append] at hdrop hlen
    rw [stringField_nil hune, decide_eq_false (not_not.2 hune)]
    refine ⟨_, getFieldIf_eq (r := []) length (Nat.zero_le 1) hq ?_ ?_, rfl⟩
    · rw [List.append_nil]
      exact hdrop
    · rw [List.append_nil]
      exact hlen
  · by_cases hqne : q.bytes = []
    · rw [stringField_nil hqne] at hdrop hlen ⊢
      rw [decide_eq_false (not_not.2 hqne)]
      exact ⟨i, rfl, getFieldIf_eq length (Nat.zero_le 1) hu hdrop hlen⟩
    · rw [decide_eq_true hune, decide_eq_true hqne]
      refine ⟨_, getField_eq length (Nat.zero_le 1) hu hune hdrop hlen,
        getField_eq (r := []) length (Nat.zero_le 1) hq hqne ?_ ?_⟩
      · rw [List.append_nil]
        exact drop_add hdrop
      · rw [hlen, List.append_nil, List.length_append]
        omega

/-- Bit 7 stands for the password and bit 6 for the user name. -/
theorem flags_strings (p : ConnectPacket) :
    (p.flags >>> 7 &&& 1 ≠ 0 ↔ p.password.bytes ≠ []) ∧
      (p.flags >>> 6 &&& 1 ≠ 0 ↔ p.username.bytes ≠ []) := by
  obtain ⟨h7, h6, -⟩ := flagsByte_bits (p.cleanSession ≠ 0) (p.will.flag ≠ 0) p.will.qos
    p.will.retain (p.username.bytes ≠ []) (p.password.bytes ≠ [])
  exact ⟨decide_eq_decide.mp h7, decide_eq_decide.mp h6⟩

/-- A will's flag says whether its strings are there. -/
theorem flag_iff (p : ConnectPacket) :
    decide (p.flags >>> 2 &&& 1 ≠ 0) = decide (p.will.topicName.bytes ≠ []) ∧
      decide (p.will.topicName.bytes ≠ []) = decide (p.will.content.bytes ≠ []) := by
  have hbit := (flagsByte_bits (p.cleanSession ≠ 0) (p.will.flag ≠ 0) p.will.qos p.will.retain
    (p.username.bytes ≠ []) (p.password.bytes ≠ [])).2.2.2.2.1
  have hne : p.flags >>> 2 &&& 1 ≠ 0 ↔ (decide (p.will.flag ≠ 0)).toNat ≠ 0 := by
    rw [← hbit]
    exact not_congr UInt8.toNat_inj.symm
  by_cases hflag : p.will.flag ≠ 0
  · obtain ⟨-, -, htopic, hcontent⟩ := ConnectWill.strings_of_flag hflag
    rw [decide_eq_true hflag] at hne
    rw [decide_eq_true htopic, decide_eq_true hcontent, decide_eq_true (hne.2 (by decide))]
    exact ⟨rfl, rfl⟩
  · obtain ⟨htopic, hcontent⟩ := ConnectWill.empty_of_flag hflag
    rw [decide_eq_false hflag] at hne
    rw [htopic, hcontent, decide_eq_false fun h => hne.1 h rfl]
    exact ⟨rfl, rfl⟩

/-- The strings behind the client id are read. -/
theorem decodeConnectTail_eq (p : ConnectPacket) (h : bodySize p.message ≤ 127) {length : Int}
    (hdrop : buf.drop i = p.tail) (hlen : length = i + p.tail.length) :
    decodeConnectTail buf length p.flags i = .ok ⟨.is .connect, .indet⟩ := by
  obtain ⟨-, hu, hp, ht, hc, -⟩ := size_facts p h
  obtain ⟨hwill, hboth⟩ := flag_iff p
  obtain ⟨h7, h6⟩ := flags_strings p
  have h1 := drop_add hdrop
  have h2 := drop_add h1
  have hend : length = ((i + (stringField p.will.topicName).length +
      (stringField p.will.content).length + (stringField p.username).length +
      (stringField p.password).length : Nat) : Int) := by
    rw [hlen, ConnectPacket.tail]
    simp only [List.length_append]
    omega
  have ftopic := getFieldIf_eq length (Nat.le_refl 1) (by omega) hdrop hlen
  have fcontent := getFieldIf_eq length (Nat.zero_le 1) (by omega) h1
    (by rw [hend]; simp only [List.length_append]; omega)
  obtain ⟨k, fuser, fpass⟩ := swappedFields length (u := p.username) (q := p.password)
    (by omega) (by omega) h2 (by rw [hend, List.length_append]; omega)
  unfold decodeConnectTail
  simp only [hwill, decide_eq_decide.2 h7, decide_eq_decide.2 h6]
  rw [ftopic, ok_bind, hboth]
  simp only
  rw [fcontent, ok_bind]
  simp only
  rw [fuser, ok_bind]
  simp only
  rw [fpass, ok_bind]
  simp only
  rw [if_neg (by omega), pure_eq_ok]

/-- `decode` accepts the frame, and gives back nothing of it. -/
theorem decode_connectPacket (p : ConnectPacket) (h : bodySize p.message ≤ 127) :
    decode (0x10 :: UInt8.ofNat (bodySize p.message) :: p.body) = .ok ⟨.is .connect, .indet⟩ := by
  obtain ⟨hid, -, -, -, -, hsize⟩ := size_facts p h
  obtain ⟨-, -, hretain, hqos, hwill, hreserved⟩ := flagsByte_bits (p.cleanSession ≠ 0)
    (p.will.flag ≠ 0) p.will.qos p.will.retain (p.username.bytes ≠ []) (p.password.bytes ≠ [])
  have hq2 : ¬ ((p.flags &&& 0x1f) >>> 3 &&& 3).toNat > 2 := by
    unfold ConnectPacket.flags
    rw [hqos]
    split <;> omega
  have hq0 : ¬ (((p.flags &&& 0x1f) >>> 3 &&& 3).toNat ≠ 0 ∧ (p.flags >>> 2 &&& 1).toNat = 0) := by
    unfold ConnectPacket.flags
    rw [hqos, hwill]
    by_cases hflag : p.will.flag ≠ 0 <;> simp [hflag]
  have hr0 : ¬ ((p.flags >>> 5 &&& 1).toNat = 1 ∧ (p.flags >>> 2 &&& 1).toNat = 0) := by
    unfold ConnectPacket.flags
    rw [hretain, hwill]
    by_cases hflag : p.will.flag ≠ 0 <;> simp [hflag]
  have hres : ¬ p.flags &&& 1 = 1 := hreserved
  rw [body_eq p (by omega)]
  generalize hbuf : (0x10 : UInt8) :: UInt8.ofNat (bodySize p.message) :: _ = buf
  have h0 : buf.drop 0 = 0x10 :: UInt8.ofNat (bodySize p.message) :: (shortBytes 4 ++
      (PROTOCOL_NAME ++ 4 :: p.flags :: (shortBytes p.keepalive ++
        (shortBytes (UInt16.ofNat p.clientId.strlen) ++ (p.clientId.bytes ++ p.tail))))) := by
    rw [← hbuf]
    rfl
  have h1 := drop_succ h0
  have h2 := drop_succ h1
  have h4 := drop_short h2
  have h8 : buf.drop 8 = 4 :: p.flags :: (shortBytes p.keepalive ++
      (shortBytes (UInt16.ofNat p.clientId.strlen) ++ (p.clientId.bytes ++ p.tail))) := drop_add h4
  have h9 := drop_succ h8
  have h10 := drop_succ h9
  have h12 := drop_short h10
  have h14 := drop_short h12
  have htail := drop_add h14
  have hname : copyOut buf 4 ((4 : UInt16).toNat : Nat) = .ok PROTOCOL_NAME := copyOut_drop h4
  rw [decode_eq (t := .connect) h0 (by decide), decodeType, decodeConnect,
    decodeRemainingLength_drop (by omega) h1, ok_bind]
  simp only [Int.reduceAdd, Int.reduceToNat, Nat.reduceAdd]
  rw [getShort_drop h2, ok_bind, hname, ok_bind]
  have htext : ¬ (CString.ofBytes PROTOCOL_NAME).bytes ≠ PROTOCOL_NAME := by decide
  have hlevel : rd buf (4 + (4 : UInt16).toNat) = .ok 4 := rd_drop h8
  have hflags : rd buf (4 + (4 : UInt16).toNat + 1) = .ok p.flags := rd_drop h9
  have hkeep : getShort buf (4 + (4 : UInt16).toNat + 2) = .ok p.keepalive := getShort_drop h10
  have hidlen : getShort buf (4 + (4 : UInt16).toNat + 2 + 2) =
      .ok (UInt16.ofNat p.clientId.strlen) := getShort_drop h12
  have hidtext : copyOut buf (4 + (4 : UInt16).toNat + 2 + 2 + 2) p.clientId.bytes.length =
      .ok p.clientId.bytes := copyOut_drop h14
  rw [if_neg htext, hlevel, ok_bind, hflags, ok_bind, if_neg hq2, if_neg hq0, if_neg hr0, if_neg hres,
    hkeep, ok_bind, hidlen, ok_bind, toNat_strlen (by omega), hidtext, ok_bind]
  refine decodeConnectTail_eq p h htail ?_
  rw [hsize]
  push_cast
  omega

end Decode

theorem flags_at (p : ConnectPacket) (h : bodySize p.message ≤ 127) :
    (0x10 :: UInt8.ofNat (bodySize p.message) :: p.body)[9]? = some p.flags := by
  obtain ⟨hid, -⟩ := size_facts p h
  rw [body_eq p (by omega)]
  rfl

/-- The flags of the frame. -/
theorem flagsRight_iff (p : ConnectPacket) (h : bodySize p.message ≤ 127) :
    FlagsRight p (0x10 :: UInt8.ofNat (bodySize p.message) :: p.body) ↔
      (p.username.bytes = [] ↔ p.password.bytes = []) := by
  obtain ⟨h7, h6⟩ := flags_strings p
  constructor
  · rintro ⟨flags, hflags, hbit7, -⟩
    obtain rfl : p.flags = flags := Option.some.inj ((flags_at p h).symm.trans hflags)
    exact not_iff_not.mp (hbit7.symm.trans h7)
  · intro hboth
    exact ⟨p.flags, flags_at p h, h7.trans (not_congr hboth.symm), h6.trans (not_congr hboth)⟩

/-- No CONNECT comes back. Its frame is accepted, with right flags when it has a user name and a
password or neither. -/
theorem connectBack_never (p : ConnectPacket) (h : bodySize p.message ≤ 127) :
    ¬ ConnectBack p ∧ ∃ (l : Nat) (frame : List UInt8), getLength p.message = .ok l ∧
      encode p.message l = .ok (frame.map some) ∧
      (FlagsRight p frame ↔ (p.username.bytes = [] ↔ p.password.bytes = [])) ∧
      decode frame = .ok ⟨.is .connect, .indet⟩ := by
  have hlength := getLength_connectPacket p
  have hencode := encode_connectPacket p h
  have hdecode := decode_connectPacket p h
  refine ⟨?_, _, _, hlength, hencode, flagsRight_iff p h, hdecode⟩
  rintro ⟨l, frame, hl, hframe, -, c, hc, -⟩
  obtain rfl := Except.ok.inj (hlength.symm.trans hl)
  obtain rfl := List.map_injective_iff.mpr (Option.some_injective _)
    (Except.ok.inj (hencode.symm.trans hframe))
  cases hdecode.symm.trans hc

/-- A user name without a password. -/
def userOnly : ConnectPacket where
  clientId := .ofBytes [0x63]
  username := .ofBytes [0x75]
  password := .ofBytes []
  cleanSession := 1
  keepalive := 10
  protocolLevel := 4
  will := .absent .null .null

/-- The flags of its frame say that a password follows. -/
theorem userOnly_not_back : bodySize userOnly.message ≤ 127 ∧ ¬ ConnectBack userOnly ∧
    userOnly.flags >>> 7 &&& 1 = 0 ∧ userOnly.flags >>> 6 &&& 1 = 1 := by
  refine ⟨by decide, ?_, by decide, by decide⟩
  rintro ⟨l, frame, hl, hframe, -, c, hc, -⟩
  obtain rfl := Except.ok.inj ((getLength_connectPacket userOnly).symm.trans hl)
  obtain rfl := List.map_injective_iff.mpr (Option.some_injective _)
    (Except.ok.inj ((encode_connectPacket userOnly (by decide)).symm.trans hframe))
  cases (decode_connectPacket userOnly (by decide)).symm.trans hc

theorem connectBack_never_userOnly :
    ¬ ConnectBack userOnly ∧ ∃ (l : Nat) (frame : List UInt8), getLength userOnly.message = .ok l ∧
      encode userOnly.message l = .ok (frame.map some) ∧
      (FlagsRight userOnly frame ↔ (userOnly.username.bytes = [] ↔ userOnly.password.bytes = [])) ∧
      decode frame = .ok ⟨.is .connect, .indet⟩ :=
  connectBack_never userOnly (by decide)

end IotClient.Mqtt
