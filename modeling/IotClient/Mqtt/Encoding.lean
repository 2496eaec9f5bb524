import IotClient.Mqtt.Parser

/-!
# What `encode` writes

For each packet type, the bytes `encode` puts into the block, in order. The QoS byte of a
SUBSCRIBE topic does not advance the cursor, so only the last one survives
(`encodeFilters_eq`).
-/

namespace IotClient.Mqtt

open Mem

/-- The bytes of a string that `encode` writes when it is not empty. -/
def stringField (s : CString) : List UInt8 :=
  let stringLength := UInt16.ofNat s.strlen
  if stringLength ≠ 0 then shortBytes stringLength ++ s.bytes.take stringLength.toNat else []

theorem toNat_strlen {s : CString} (h : s.bytes.length < 65536) :
    (UInt16.ofNat s.strlen).toNat = s.bytes.length := short_toNat_of_lt h

/-- A string of less than `2^16` bytes is written whole. -/
theorem stringField_short {s : CString} (h : s.bytes.length < 65536) (hne : s.bytes ≠ []) :
    stringField s = shortBytes (UInt16.ofNat s.strlen) ++ s.bytes := by
  have h0 : UInt16.ofNat s.strlen ≠ 0 := by
    intro h0
    have := congrArg UInt16.toNat h0
    rw [toNat_strlen h] at this
    exact hne (List.eq_nil_of_length_eq_zero this)
  simp only [stringField]
  rw [if_pos h0, toNat_strlen h, List.take_length]

theorem stringField_nil {s : CString} (h : s.bytes = []) : stringField s = [] := by
  simp [stringField, CString.strlen, h]

/-- The bytes a string of `n` bytes takes with its length, none when it is empty. -/
def fieldSize (n : Nat) : Nat := if n ≠ 0 then n + 2 else 0

theorem le_fieldSize (n : Nat) : n ≤ fieldSize n := by
  rw [fieldSize]; split <;> omega

theorem fieldSize_of_ne {n : Nat} (h : n ≠ 0) : fieldSize n = n + 2 := if_pos h

/-- The length of a string has 16 bits. -/
theorem length_stringField_mod (s : CString) :
    (stringField s).length = fieldSize (s.bytes.length % 65536) := by
  have hmod : (UInt16.ofNat s.strlen).toNat = s.bytes.length % 65536 := UInt16.toNat_ofNat
  unfold stringField fieldSize
  by_cases h0 : UInt16.ofNat s.strlen = 0
  · have hzero : s.bytes.length % 65536 = 0 := by rw [← hmod, h0]; rfl
    rw [if_neg (not_not.2 h0), if_neg (not_not.2 hzero)]
    rfl
  · have hne : s.bytes.length % 65536 ≠ 0 := by
      rw [← hmod]
      exact fun hz => h0 (UInt16.toNat_inj.1 hz)
    have hle := Nat.mod_le s.bytes.length 65536
    rw [if_pos h0, if_pos hne, List.length_append, length_shortBytes, List.length_take, hmod]
    omega

theorem length_stringField {s : CString} (h : s.bytes.length < 65536) :
    (stringField s).length = fieldSize s.bytes.length := by
  rw [length_stringField_mod, Nat.mod_eq_of_lt h]

theorem putString_emits (s : CString) : Emits (putString (.ref s)) (stringField s) := by
  refine .of_eq (.lift_ok rfl (.when fun _ => (addShort_emits _).seq (.copy _))) ?_
  simp [stringField]

theorem putContent_emits (s : CString) : Emits (putContent (.ref s)) s.bytes :=
  .lift_ok rfl (.copy _)

/-! ### One header byte and the remaining length -/

theorem blockOf_header (x : UInt8) (l n : Nat) {c : Enc Unit} {out : List UInt8}
    (hc : Emits c out) :
    Enc.blockOf n (do Enc.put x; putPacketLength l; c) =
      emittedBlock n (x :: (lengthBytes l ++ out)) :=
  blockOf_of_runOn (runOn_header x l n hc)

theorem blockOf_poke_header (x : UInt8) (l n : Nat) {c : Enc Unit} {out : List UInt8}
    (hc : Emits c out) :
    Enc.blockOf n (do Enc.poke x; putPacketLength l; c) =
      emittedBlock n (x :: (lengthBytes l ++ out)) :=
  blockOf_of_runOn (runOn_poke_header x l n hc)

/-- A frame with one length byte fills the block of `encode`. -/
theorem emittedBlock_frame {x : UInt8} {body : List UInt8} {l : Nat} (hl : l = body.length)
    (h : l ≤ 127) :
    emittedBlock (l + 2) (x :: (lengthBytes l ++ body)) =
      .ok ((x :: UInt8.ofNat l :: body).map some) := by
  subst hl
  rw [lengthBytes_short (by omega)]
  exact emittedBlock_full (x :: UInt8.ofNat body.length :: body)

/-! ### The cases of `encode` -/

section Cases

variable (l : Nat)

theorem encode_connect (c : Connect) :
    encode ⟨.is .connect, .ref (.connect c)⟩ l = Enc.blockOf (l + 2) (encodeConnect c l) := rfl

theorem encode_publish (p : Publish) :
    encode ⟨.is .publish, .ref (.publish p)⟩ l = Enc.blockOf (l + 2) (encodePublish p l) := rfl

theorem encode_subscribe (s : Subscribe) :
    encode ⟨.is .subscribe, .ref (.subscribe s)⟩ l = Enc.blockOf (l + 2) (encodeSubscribe s l) := rfl

theorem encode_unsubscribe (us : Unsubscribe) :
    encode ⟨.is .unsubscribe, .ref (.unsubscribe us)⟩ l =
      Enc.blockOf (l + 2) (encodeUnsubscribe us l) := rfl

end Cases

/-! ### The packets -/

section Packets

variable {l n : Nat}

/-- The strings a CONNECT holds. -/
structure ConnectStrings (c : Connect) where
  clientId : CString
  username : CString
  password : CString
  topicName : CString
  content : CString
  clientId_eq : c.clientId = .ref clientId
  username_eq : c.username = .ref username
  password_eq : c.password = .ref password
  topicName_eq : c.willFlag ≠ 0 → c.will.topic.topicName = .ref topicName
  content_eq : c.willFlag ≠ 0 → c.will.content = .ref content

/-- What follows the length field of a CONNECT. -/
def connectBody (c : Connect) (s : ConnectStrings c) (contentFlags : UInt8) : List UInt8 :=
  let clientIdLength := UInt16.ofNat s.clientId.strlen
  0 :: UInt8.ofNat PROTOCOL_NAME.length :: (PROTOCOL_NAME ++ DEFAULT_PROTOCOL_LEVEL ::
    contentFlags :: (shortBytes c.keepalive ++ (shortBytes clientIdLength ++
      (s.clientId.bytes.take clientIdLength.toNat ++
        ((if c.willFlag ≠ 0 then stringField s.topicName ++ stringField s.content else []) ++
          (stringField s.username ++ stringField s.password))))))

theorem encodeConnect_block {c : Connect} (s : ConnectStrings c) {contentFlags : UInt8}
    (hflags : connectFlags c = .ok contentFlags) :
    Enc.blockOf n (encodeConnect c l) =
      emittedBlock n (0x10 :: (lengthBytes l ++ connectBody c s contentFlags)) := by
  refine blockOf_header _ _ _ (.seq (.put _) (.seq (.put _) (.seq (.copy _) (.seq (.put _) ?_))))
  refine .lift_ok hflags (.seq (.put _) (.seq (addShort_emits _) ?_))
  refine .lift_ok (by rw [s.clientId_eq]; rfl) (.seq (addShort_emits _) (.seq (.copy _) ?_))
  refine .seq (.when fun hw => ?_) ?_
  · rw [s.topicName_eq hw, s.content_eq hw]
    exact .seq (putString_emits _) (putString_emits _)
  · rw [s.username_eq, s.password_eq]
    exact .seq (putString_emits _) (putString_emits _)

theorem encodeConnack_block (ca : Connack) :
    Enc.blockOf n (encodeConnack ca) =
      emittedBlock n [0x20, 2, UInt8.ofInt ca.sessionPresent, UInt8.ofNat ca.returnCode] :=
  Emits.block (.seq (.put _) (.seq (.put _) (.seq (.put _) (.put _)))) n

/-- What follows the length field of a PUBLISH. -/
def publishBody (topicName content : CString) (packetId : UInt16) : List UInt8 :=
  stringField topicName ++ ((if packetId ≠ 0 then shortBytes packetId else []) ++ content.bytes)

theorem encodePublish_block {p : Publish} {topicName content : CString} {qos : Nat}
    {packetId : UInt16} (ht : p.topic = ⟨.ref topicName, .is qos⟩) (hc : p.content = .ref content)
    (hid : p.packetId = .is packetId) :
    Enc.blockOf n (encodePublish p l) =
      emittedBlock n (publishHeader p.dup p.retain qos ::
        (lengthBytes l ++ publishBody topicName content packetId)) := by
  have hbody : Emits (do
      putString p.topic.topicName
      let packetId ← Enc.lift p.packetId.get
      Enc.when (packetId ≠ 0) (addShort packetId)
      putContent p.content) (publishBody topicName content packetId) := by
    rw [ht, hc, hid]
    exact .seq (putString_emits _) (.lift_ok rfl (.seq (.when fun _ => addShort_emits _)
      (putContent_emits _)))
  unfold encodePublish
  rw [ht]
  rw [ht] at hbody
  exact blockOf_poke_header _ _ _ hbody

theorem encodeId_block (header : UInt8) (packetId : UInt16) :
    Enc.blockOf n (encodeId header packetId l) =
      emittedBlock n (header :: UInt8.ofNat l :: shortBytes packetId) :=
  Emits.block (.seq (.put _) (.seq (.put _) (addShort_emits _))) n

theorem encodeUnsuback_block (usa : Unsuback) :
    Enc.blockOf n (encodeUnsuback usa l) =
      emittedBlock n (0xb0 :: (lengthBytes l ++ shortBytes usa.packetId)) :=
  blockOf_header _ _ _ (addShort_emits _)

theorem encodeEmpty_block (type : MessageType) :
    Enc.blockOf n (encodeEmpty type) = emittedBlock n [type.toByte <<< 4 ||| 0x2, 0] := by
  unfold encodeEmpty
  rw [Enc.blockOf_poke]
  exact Emits.block (.seq (.put _) (.put _)) n

/-! ### Topic lists -/

/-- The topics array of a SUBSCRIBE or UNSUBSCRIBE. -/
def topicsOf (fs : List (CString × Cell Nat)) : List Topic := fs.map fun f => ⟨.ref f.1, f.2⟩

theorem encodeNames_emits (fs : List (CString × Cell Nat)) :
    Emits (encodeNames (topicsOf fs)) (fs.flatMap fun f => stringField f.1) := by
  induction fs with
  | nil => exact .nil
  | cons f fs ih => exact .seq (putString_emits f.1) ih

/-- A list of topics with a byte poked behind it begins with a write. -/
theorem encodeNames_overwrites (fs : List (CString × Cell Nat)) (x : UInt8) :
    Overwrites (do encodeNames (topicsOf fs); Enc.poke x) := by
  induction fs with
  | nil => exact .poke x
  | cons f fs ih =>
    show Overwrites (do (do putString (.ref f.1); encodeNames (topicsOf fs)); Enc.poke x)
    by_cases h : UInt16.ofNat f.1.strlen ≠ 0
    · have hput : putString (.ref f.1) = (do
          Enc.put (UInt16.ofNat f.1.strlen >>> 8).toUInt8
          Enc.put (UInt16.ofNat f.1.strlen).toUInt8
          Enc.copy (f.1.bytes.take (UInt16.ofNat f.1.strlen).toNat)) := by
        show Enc.when _ _ = _
        rw [Enc.when, if_pos h]
        simp only [addShort, bind_assoc]
      rw [hput]
      simp only [bind_assoc]
      exact .put _ _
    · have hput : putString (.ref f.1) = pure () := by
        show Enc.when _ _ = _
        rw [Enc.when, if_neg h]
      rw [hput]
      exact ih

/-- The topics of a SUBSCRIBE, each with its QoS. -/
def filtersOf (fs : List (CString × Nat)) : List Topic := topicsOf (fs.map fun f => (f.1, .is f.2))

/-- Of the QoS bytes of a SUBSCRIBE only the last is left. -/
theorem encodeFilters_eq (fs : List (CString × Nat)) (f : CString × Nat) :
    encodeFilters (filtersOf (fs ++ [f])) = (do
      encodeNames (filtersOf (fs ++ [f]))
      Enc.poke (UInt8.ofNat f.2)) := by
  induction fs with
  | nil =>
    show (do putString (.ref f.1); Enc.poke (UInt8.ofNat f.2); pure ()) =
      (do (do putString (.ref f.1); pure ()); Enc.poke (UInt8.ofNat f.2))
    simp
  | cons g fs ih =>
    show (do
      putString (.ref g.1)
      Enc.poke (UInt8.ofNat g.2)
      encodeFilters (filtersOf (fs ++ [f]))) = (do
      (do putString (.ref g.1); encodeNames (filtersOf (fs ++ [f])))
      Enc.poke (UInt8.ofNat f.2))
    rw [ih, bind_assoc]
    congr 1
    funext _ s
    exact encodeNames_overwrites _ _ _ s

/-- What follows the length field of a SUBSCRIBE. -/
def subscribeBody (packetId : UInt16) (fs : List (CString × Nat)) : List UInt8 :=
  shortBytes packetId ++ (fs.flatMap (fun f => stringField f.1) ++
    (fs.getLast?.map fun f => UInt8.ofNat f.2).toList)

theorem encodeSubscribe_block {s : Subscribe} {fs : List (CString × Nat)}
    (hts : s.topics = .ref (filtersOf fs)) (hn : s.topicsNumber = fs.length) :
    Enc.blockOf n (encodeSubscribe s l) =
      emittedBlock n (0x82 :: (lengthBytes l ++ subscribeBody s.packetId fs)) := by
  have helems : s.topics.elems s.topicsNumber = .ok (filtersOf fs) := by
    rw [hts, hn, show fs.length = (filtersOf fs).length by simp [filtersOf, topicsOf]]
    exact Ptr.elems_ref _
  have hnames : Emits (encodeNames (filtersOf fs)) (fs.flatMap fun f => stringField f.1) := by
    refine .of_eq (encodeNames_emits _) ?_
    rw [List.flatMap_map]
  show Enc.blockOf n (do
    Enc.put 0x82
    putPacketLength l
    addShort s.packetId
    let ts ← Enc.lift (s.topics.elems s.topicsNumber)
    encodeFilters ts) = _
  rw [helems]
  rcases List.eq_nil_or_concat fs with rfl | ⟨fs', f, rfl⟩
  · exact blockOf_header _ _ _ (.seq (addShort_emits _) .nil)
  · rw [List.concat_eq_append] at hnames ⊢
    show Enc.blockOf n (do
      Enc.put 0x82
      putPacketLength l
      addShort s.packetId
      encodeFilters (filtersOf (fs' ++ [f]))) = _
    have hlast : (do
        Enc.put 0x82
        putPacketLength l
        addShort s.packetId
        encodeFilters (filtersOf (fs' ++ [f]))) = (do
        (do
          Enc.put 0x82
          putPacketLength l
          addShort s.packetId
          encodeNames (filtersOf (fs' ++ [f])))
        Enc.poke (UInt8.ofNat f.2)) := by
      rw [encodeFilters_eq]
      simp only [bind_assoc]
    rw [hlast, Enc.blockOf_poke]
    simp only [bind_assoc]
    refine (blockOf_header _ _ _ (.seq (addShort_emits _) (.seq hnames (.put _)))).trans ?_
    simp [subscribeBody]

theorem encodeUnsubscribe_block {us : Unsubscribe} {fs : List (CString × Cell Nat)}
    (hts : us.topics = .ref (topicsOf fs)) (hn : us.topicsNumber = .is fs.length) :
    Enc.blockOf n (encodeUnsubscribe us l) = emittedBlock n (0xa2 :: (lengthBytes l ++
      (shortBytes us.packetId ++ fs.flatMap fun f => stringField f.1))) := by
  have helems : (do us.topics.elems (← us.topicsNumber.get)) = .ok (topicsOf fs) := by
    rw [hts, hn, show fs.length = (topicsOf fs).length by simp [topicsOf]]
    exact Ptr.elems_ref _
  unfold encodeUnsubscribe
  rw [helems]
  exact blockOf_header _ _ _ (.seq (addShort_emits _) (encodeNames_emits fs))

end Packets

end IotClient.Mqtt
