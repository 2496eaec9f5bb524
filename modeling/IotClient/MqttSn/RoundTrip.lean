import IotClient.MqttSn.Parser

/-!
# MQTT-SN messages there and back

`Datagram` is a message of a type whose fields are numbers, a text or a payload; `message` is
its struct and `body` what follows its type byte. `snGetLength` switches to the long header
at the same size as `snEncode` (`snGetLength_message`), so the bytes are the length header,
the type and the body, and `snDecode` reads every field back, but for the topic type of a
PUBLISH, which it never sets.
-/

namespace IotClient.MqttSn

open Mem

inductive Datagram where
  | advertise (gwId : UInt8) (duration : UInt16)
  | searchgw (radius : UInt8)
  | connack (code : UInt8)
  | willTopicReq
  | willMsgReq
  | willMsg (text : CString)
  | register (topicId msgId : UInt16) (topicName : CString)
  | regack (topicId messageId : UInt16) (code : UInt8)
  | publish (dup retain : Bool) (qos : Fin 4) (topicId messageId : UInt16) (data : CString)
      (data_ne : data.bytes ≠ [])
  | puback (topicId messageId : UInt16) (code : UInt8)
  | pubrec (messageId : UInt16)
  | pubrel (messageId : UInt16)
  | pubcomp (messageId : UInt16)
  | suback (qos : Fin 4) (topicId messageId : UInt16) (code : UInt8)
  | unsuback (messageId : UInt16)
  | pingresp
  | disconnect (duration : UInt16)
  | willMsgUpd (text : CString)

namespace Datagram

def type : Datagram → SnMessageType
  | advertise .. => .advertise
  | searchgw _ => .searchgw
  | connack _ => .connack
  | willTopicReq => .willTopicReq
  | willMsgReq => .willMsgReq
  | willMsg _ => .willMsg
  | register .. => .register
  | regack .. => .regack
  | publish .. => .publish
  | puback .. => .puback
  | pubrec _ => .pubrec
  | pubrel _ => .pubrel
  | pubcomp _ => .pubcomp
  | suback .. => .suback
  | unsuback _ => .unsuback
  | pingresp => .pingresp
  | disconnect _ => .disconnect
  | willMsgUpd _ => .willMsgUpd

/-- The struct of a PUBLISH on a topic id. -/
def publishStruct (dup retain : Bool) (qos : Fin 4) (topicId messageId : UInt16) (data : CString)
    (topicType : Cell SnTopicType) : SnPublish where
  messageId := messageId
  topic := ⟨.is topicId, .indet, .is qos, topicType⟩
  data := .ref data
  dup := dup.toNat
  retain := retain.toNat

/-- The struct a message points at; the types without fields have none. -/
def packet : Datagram → Ptr SnPacket
  | advertise gwId duration => .ref (.advertise ⟨gwId, duration⟩)
  | searchgw radius => .ref (.searchgw ⟨radius.toNat⟩)
  | connack code => .ref (.connack ⟨code.toNat⟩)
  | willTopicReq | willMsgReq | pingresp => .null
  | willMsg text => .ref (.willMsg ⟨.ref text⟩)
  | register topicId msgId topicName => .ref (.register ⟨topicId, msgId, .ref topicName⟩)
  | regack topicId messageId code => .ref (.regack ⟨topicId, messageId, code.toNat⟩)
  | publish dup retain qos topicId messageId data _ =>
    .ref (.publish (publishStruct dup retain qos topicId messageId data (.is .id)))
  | puback topicId messageId code => .ref (.puback ⟨topicId, messageId, code.toNat⟩)
  | pubrec messageId => .ref (.pubrec ⟨messageId⟩)
  | pubrel messageId => .ref (.pubrel ⟨messageId⟩)
  | pubcomp messageId => .ref (.pubcomp ⟨messageId⟩)
  | suback qos topicId messageId code => .ref (.suback ⟨topicId, messageId, code.toNat, qos⟩)
  | unsuback messageId => .ref (.unsuback ⟨messageId⟩)
  | disconnect duration => .ref (.disconnect ⟨duration⟩)
  | willMsgUpd text => .ref (.willMsgUpd ⟨.ref text⟩)

def message (d : Datagram) : SnMessage := ⟨d.type, d.packet⟩

/-- The flags byte of a PUBLISH on a topic id. -/
def publishFlags (dup retain : Bool) (qos : Fin 4) : UInt8 :=
  encodeFlags dup.toNat (some qos) retain.toNat 0 0 (some .id)

/-- What follows the type byte. -/
def body : Datagram → List UInt8
  | advertise gwId duration => gwId :: shortBytes duration
  | searchgw radius => [radius]
  | connack code => [code]
  | willTopicReq | willMsgReq | pingresp => []
  | willMsg text => text.bytes
  | register topicId msgId topicName => shortBytes topicId ++ (shortBytes msgId ++ topicName.bytes)
  | regack topicId messageId code => shortBytes topicId ++ (shortBytes messageId ++ [code])
  | publish dup retain qos topicId messageId data _ =>
    publishFlags dup retain qos ::
      (shortBytes topicId ++ (shortBytes messageId ++ data.bytes))
  | puback topicId messageId code => shortBytes topicId ++ (shortBytes messageId ++ [code])
  | pubrec messageId | pubrel messageId | pubcomp messageId | unsuback messageId =>
    shortBytes messageId
  | suback qos topicId messageId code =>
    encodeFlags 0 (some qos) 0 0 0 none :: (shortBytes topicId ++ (shortBytes messageId ++ [code]))
  | disconnect duration => if duration > 0 then shortBytes duration else []
  | willMsgUpd text => text.bytes

/-- The whole message: with a short header up to 255 bytes, else with the long one. -/
def size (d : Datagram) : Nat :=
  if d.body.length ≤ 253 then d.body.length + 2 else d.body.length + 4

end Datagram

theorem Datagram.size_short {d : Datagram} (h : d.size ≤ 255) : d.size = d.body.length + 2 := by
  by_cases hb : d.body.length ≤ 253
  · exact if_pos hb
  · unfold size at h
    rw [if_neg hb] at h
    omega

theorem Datagram.size_long {d : Datagram} (h : ¬ d.size ≤ 255) : d.size = d.body.length + 4 := by
  by_cases hb : d.body.length ≤ 253
  · unfold size at h
    rw [if_pos hb] at h
    omega
  · exact if_neg hb

/-- The length header: one byte, or a mark and two bytes. -/
def lengthHeader (n : Nat) : List UInt8 :=
  if n ≤ 255 then [UInt8.ofNat n] else THREE_OCTET_LENGTH_SUFFIX :: shortBytes (UInt16.ofNat n)

/-- A short length is no mark of a long one. -/
theorem Datagram.size_ne_suffix {d : Datagram} (h : d.size ≤ 255) :
    UInt8.ofNat d.size ≠ THREE_OCTET_LENGTH_SUFFIX := by
  intro h0
  have hbody := size_short h
  have hn : (UInt8.ofNat d.size).toNat = d.size := toNat_ofNat_of_lt (by omega)
  have h1 : d.size = 1 := by rw [← hn, h0]; rfl
  omega

/-- The bytes of a message. -/
def Datagram.wire (d : Datagram) : List UInt8 := lengthHeader d.size ++ d.type.toByte :: d.body

theorem Datagram.length_wire (d : Datagram) : d.wire.length = d.size := by
  unfold wire
  rw [List.length_append, List.length_cons, lengthHeader]
  split
  · next h => rw [size_short h]; exact Nat.add_comm _ _
  · next h =>
    rw [size_long h]
    simp only [List.length_cons, length_shortBytes]
    omega

/-! ### Lengths -/

/-- `textLength` switches to the long header above a body of 253 bytes. -/
theorem textLength_of_body (base most n : Nat) {body : Nat} (hbody : body + 2 = base + n)
    (h : base + most = 255) :
    textLength base most n = if body ≤ 253 then body + 2 else body + 4 := by
  unfold textLength
  split <;> split <;> omega

theorem textLength_eq {d : Datagram} (base most n : Nat) (hbody : d.body.length + 2 = base + n)
    (h : base + most = 255) : textLength base most n = d.size := textLength_of_body base most n hbody h

theorem snGetLength_message (d : Datagram) : snGetLength d.message = .ok (d.size : Int) := by
  cases d with
  | willMsg text =>
    rw [← textLength_eq 2 253 text.bytes.length (Nat.add_comm _ _) rfl]
    rfl
  | register topicId msgId topicName =>
    rw [← textLength_eq 6 249 topicName.bytes.length _ rfl]
    · rfl
    · simp only [Datagram.body, List.length_append, length_shortBytes]
      omega
  | publish dup retain qos topicId messageId data data_ne =>
    rw [← textLength_eq 7 248 data.bytes.length _ rfl]
    · rfl
    · simp only [Datagram.body, List.length_cons, List.length_append, length_shortBytes]
      omega
  | disconnect duration =>
    by_cases h : duration > 0
    · simp [snGetLength, Datagram.message, Datagram.packet, Datagram.type, cast, Datagram.size,
        Datagram.body, h]
    · simp [snGetLength, Datagram.message, Datagram.packet, Datagram.type, cast, Datagram.size,
        Datagram.body, h]
  | willMsgUpd text =>
    rw [← textLength_eq 2 253 text.bytes.length (Nat.add_comm _ _) rfl]
    rfl
  | _ => rfl

/-! ### Encoding -/

theorem putText_emits {s : CString} (h : s.bytes.length < 65536) :
    Emits (putText (.ref s)) s.bytes := by
  have hlen : (UInt16.ofNat s.strlen).toNat = s.bytes.length := short_toNat_of_lt h
  refine .of_eq (.lift_ok rfl (.when fun _ => .copy _)) ?_
  rw [hlen, List.take_length]
  split
  · rfl
  · next h0 =>
    have h0' : s.bytes.length = 0 := by rw [← hlen, not_not.mp h0]; rfl
    exact (List.eq_nil_of_length_eq_zero h0').symm

theorem putLength_emits (n : Nat) : Emits (putLength n) (lengthHeader n) := by
  unfold putLength lengthHeader
  rw [byte_ofInt_natCast, short_ofInt_natCast]
  by_cases h : n ≤ 255
  · rw [if_pos (by omega), if_pos h]
    exact .put _
  · rw [if_neg (by omega), if_neg h]
    exact .seq (.put _) (addShort_emits _)

theorem snEncodeBody_emits (d : Datagram) (h : d.size ≤ 65535) :
    Emits (snEncodeBody d.message d.size) d.body := by
  have hbody : d.body.length < 65536 := by
    unfold Datagram.size at h
    split at h <;> omega
  cases d with
  | advertise gwId duration => exact .seq (.put _) (addShort_emits _)
  | searchgw radius => exact .of_eq (.put _) (by simp [Datagram.body])
  | connack code => exact .of_eq (.put _) (by simp [Datagram.body])
  | willTopicReq => exact .nil
  | willMsgReq => exact .nil
  | pingresp => exact .nil
  | willMsg text => exact putText_emits hbody
  | willMsgUpd text => exact putText_emits hbody
  | register topicId msgId topicName =>
    refine .seq (addShort_emits _) (.seq (addShort_emits _) (putText_emits ?_))
    simp only [Datagram.body, List.length_append] at hbody
    omega
  | regack topicId messageId code =>
    exact .seq (addShort_emits _) (.seq (addShort_emits _) (.of_eq (.put _) (by simp)))
  | puback topicId messageId code =>
    exact .seq (addShort_emits _) (.seq (addShort_emits _) (.of_eq (.put _) (by simp)))
  | publish dup retain qos topicId messageId data data_ne =>
    refine .seq (.put _) (.seq (addShort_emits _) (.seq (addShort_emits _) (putText_emits ?_)))
    simp only [Datagram.body, List.length_append, List.length_cons] at hbody
    omega
  | pubrec messageId => exact addShort_emits _
  | pubrel messageId => exact addShort_emits _
  | pubcomp messageId => exact addShort_emits _
  | unsuback messageId => exact addShort_emits _
  | suback qos topicId messageId code =>
    exact .seq (.put _) (.seq (addShort_emits _) (.seq (addShort_emits _)
      (.of_eq (.put _) (by simp))))
  | disconnect duration =>
    by_cases hd : duration > 0
    · have hsize : (Datagram.disconnect duration).size = 4 := by
        simp [Datagram.size, Datagram.body, hd]
      rw [hsize]
      exact .of_eq (addShort_emits _) (by simp [Datagram.body, hd])
    · have hsize : (Datagram.disconnect duration).size = 2 := by
        simp [Datagram.size, Datagram.body, hd]
      rw [hsize]
      exact .of_eq .nil (by simp [Datagram.body, hd])

theorem snEncode_message (d : Datagram) (h : d.size ≤ 65535) :
    snEncode d.message d.size = .ok (d.wire.map some) := by
  have hwire : Emits (do
      putLength d.size
      Enc.put d.type.toByte
      snEncodeBody d.message d.size) d.wire :=
    .seq (putLength_emits _) (.seq (.put _) (snEncodeBody_emits d h))
  unfold snEncode
  rw [if_neg (by omega), Int.toNat_natCast]
  refine (hwire.block _).trans ?_
  rw [← emittedBlock_full, d.length_wire]

/-! ### Decoding -/

theorem decodeFlag_publish (dup retain : Bool) (qos : Fin 4) :
    decodeFlag (Datagram.publishFlags dup retain qos) =
      ⟨dup.toNat, qos, retain.toNat, 0, 0, .id⟩ := by
  revert dup retain qos; decide

theorem decodeFlag_suback (qos : Fin 4) :
    (decodeFlag (encodeFlags 0 (some qos) 0 0 0 none)).qos = qos := by
  revert qos; decide

section Decode

variable {buf r : List UInt8} {i : Nat}

theorem decodeCode_eq (packet : Nat → SnPacket) {code : UInt8} (h : buf.drop i = code :: r) :
    decodeCode packet buf i = .ok (.ref (packet code.toNat)) := by
  unfold decodeCode
  rw [rd_drop h]
  rfl

theorem decodeMessageId_eq (packet : UInt16 → SnPacket) {messageId : UInt16}
    (h : buf.drop i = shortBytes messageId ++ r) :
    decodeMessageId packet buf i = .ok (.ref (packet messageId)) := by
  unfold decodeMessageId
  rw [getShort_drop h]
  rfl

theorem decodeAck_eq (packet : UInt16 → UInt16 → Nat → SnPacket) {topicId messageId : UInt16}
    {code : UInt8} (h : buf.drop i = shortBytes topicId ++ (shortBytes messageId ++ code :: r)) :
    decodeAck packet buf i = .ok (.ref (packet topicId messageId code.toNat)) := by
  have h2 := drop_short h
  have h4 := drop_short h2
  unfold decodeAck
  rw [getShort_drop h, ok_bind, getShort_drop h2, ok_bind, rd_drop h4]
  rfl

theorem getString_eq {s : CString} {n : Int} (h : buf.drop i = s.bytes ++ r)
    (hn : n = s.bytes.length) : getString buf i n = .ok (.ref s) := by
  unfold getString
  rw [copyOut_drop_of_eq h hn, ok_bind, CString.ofBytes_bytes]
  rfl

/-- What `sn_decode` gives back: the packet itself, a PUBLISH without its topic type. -/
def Datagram.decoded : Datagram → Ptr SnPacket
  | publish dup retain qos topicId messageId data _ =>
    .ref (.publish (publishStruct dup retain qos topicId messageId data .indet))
  | d => d.packet

/-- A PUBLISH of any flags; one without data is printed with its data unassigned. -/
theorem decodePublish_read {flags : UInt8} {topicId messageId : UInt16} {data : List UInt8} {n : Int}
    (hn : n = data.length + 5)
    (h : buf.drop i = flags :: (shortBytes topicId ++ (shortBytes messageId ++ (data ++ r)))) :
    decodePublish buf i n =
      if data = [] then .error .indet
      else .ok (.ref (.publish {
        messageId := messageId
        topic := {
          id := if (decodeFlag flags).topicType = .short then .indet else .is topicId
          value := .indet
          qos := .is (decodeFlag flags).qos
          topicType := .indet }
        data := .ref (CString.ofBytes data)
        dup := (decodeFlag flags).dup
        retain := (decodeFlag flags).retain })) := by
  have h1 := drop_succ h
  have h3 := drop_short h1
  have h5 := drop_short h3
  have hleft : n - 1 - 2 - 2 = data.length := by omega
  unfold decodePublish
  rw [rd_drop h, ok_bind]
  simp only [getShort_drop h1, getShort_drop h3, ok_bind, hleft, beq_iff_eq]
  by_cases hnil : data = []
  · rw [if_neg (by simp [hnil]), if_pos hnil]
    rfl
  · have hpos := List.length_pos_iff.mpr hnil
    rw [if_pos (by omega), if_neg hnil, getString, copyOut_drop h5]
    rfl

theorem decodePublish_eq {dup retain : Bool} {qos : Fin 4} {topicId messageId : UInt16}
    {data : CString} (hne : data.bytes ≠ []) {n : Int} (hn : n = 5 + data.bytes.length)
    (h : buf.drop i = Datagram.publishFlags dup retain qos ::
      (shortBytes topicId ++ (shortBytes messageId ++ (data.bytes ++ r)))) :
    decodePublish buf i n = .ok (.ref (.publish
      (Datagram.publishStruct dup retain qos topicId messageId data .indet))) := by
  rw [decodePublish_read (by omega) h, if_neg hne, decodeFlag_publish, CString.ofBytes_bytes]
  rfl

theorem snDecodeBody_eq (d : Datagram) (h : buf.drop i = d.body ++ r) :
    snDecodeBody buf i d.body.length d.type = .ok d.decoded := by
  cases d with
  | advertise gwId duration =>
    have h1 := drop_succ h
    simp only [Datagram.type, snDecodeBody]
    rw [rd_drop h, ok_bind, getShort_drop h1]
    rfl
  | searchgw radius => exact decodeCode_eq (fun radius => .searchgw ⟨radius⟩) h
  | connack code => exact decodeCode_eq (fun code => .connack ⟨code⟩) h
  | willTopicReq => rfl
  | willMsgReq => rfl
  | pingresp => rfl
  | willMsg text =>
    have hs : getString buf i (Datagram.willMsg text).body.length = .ok (.ref text) :=
      getString_eq h rfl
    simp only [Datagram.type, snDecodeBody, hs]
    rfl
  | willMsgUpd text =>
    have hs : getString buf i (Datagram.willMsgUpd text).body.length = .ok (.ref text) :=
      getString_eq h rfl
    simp only [Datagram.type, snDecodeBody, hs]
    rfl
  | register topicId msgId topicName =>
    simp only [Datagram.body, List.append_assoc] at h
    have h2 := drop_short h
    have h4 := drop_short h2
    simp only [Datagram.type, snDecodeBody]
    rw [getShort_drop h, ok_bind, getShort_drop h2, ok_bind, getString_eq h4]
    · rfl
    · simp only [Datagram.body, List.length_append, length_shortBytes]
      omega
  | regack topicId messageId code =>
    simp only [Datagram.body, List.append_assoc] at h
    exact decodeAck_eq (fun t m c => .regack ⟨t, m, c⟩) h
  | puback topicId messageId code =>
    simp only [Datagram.body, List.append_assoc] at h
    exact decodeAck_eq (fun t m c => .puback ⟨t, m, c⟩) h
  | publish dup retain qos topicId messageId data data_ne =>
    refine decodePublish_eq data_ne ?_ (by simpa [Datagram.body] using h)
    simp only [Datagram.body, List.length_cons, List.length_append, length_shortBytes]
    omega
  | pubrec messageId => exact decodeMessageId_eq (fun m => .pubrec ⟨m⟩) h
  | pubrel messageId => exact decodeMessageId_eq (fun m => .pubrel ⟨m⟩) h
  | pubcomp messageId => exact decodeMessageId_eq (fun m => .pubcomp ⟨m⟩) h
  | unsuback messageId => exact decodeMessageId_eq (fun m => .unsuback ⟨m⟩) h
  | suback qos topicId messageId code =>
    simp only [Datagram.body, List.cons_append, List.append_assoc] at h
    have h1 := drop_succ h
    simp only [Datagram.type, snDecodeBody]
    rw [rd_drop h, ok_bind, decodeFlag_suback]
    exact decodeAck_eq (fun t m c => .suback ⟨t, m, c, qos⟩) h1
  | disconnect duration =>
    simp only [Datagram.type, snDecodeBody]
    by_cases hd : duration > 0
    · have hbody : (Datagram.disconnect duration).body = shortBytes duration := if_pos hd
      rw [hbody] at h ⊢
      rw [if_pos (by simp), getShort_drop h]
      rfl
    · have hbody : (Datagram.disconnect duration).body = [] := if_neg hd
      have hzero : duration = 0 := by
        apply UInt16.toNat_inj.mp
        have hle : ¬ (0 : UInt16).toNat < duration.toNat := hd
        have h0 : (0 : UInt16).toNat = 0 := rfl
        omega
      rw [hbody, if_neg (by simp), hzero]
      rfl

end Decode

theorem Datagram.type_mem (d : Datagram) : d.type ∈ SnMessageType.all := by
  cases d <;> simp only [type] <;> decide

/-- Behind the length header and the type, the body is decoded, whatever follows it. -/
theorem snDecode_framed {type : SnMessageType} (htype : type ∈ SnMessageType.all)
    {body : List UInt8} (r : List UInt8) {n : Nat} (hn : n ≤ 65535)
    (hsize : n = if n ≤ 255 then body.length + 2 else body.length + 4) :
    ∃ i, (lengthHeader n ++ type.toByte :: (body ++ r)).drop i = body ++ r ∧
      snDecode (lengthHeader n ++ type.toByte :: (body ++ r)) = (do
        let packet ← snDecodeBody (lengthHeader n ++ type.toByte :: (body ++ r)) i body.length type
        pure ⟨type, packet⟩) := by
  obtain ⟨buf, hsame⟩ : ∃ buf, buf = lengthHeader n ++ type.toByte :: (body ++ r) := ⟨_, rfl⟩
  have hbuf : buf.drop 0 = lengthHeader n ++ type.toByte :: (body ++ r) := by
    rw [List.drop_zero, hsame]
  rw [← hsame]
  by_cases hs : n ≤ 255
  · have hbyte : (UInt8.ofNat n).toNat = n := toNat_ofNat_of_lt (by omega)
    have hne : UInt8.ofNat n ≠ THREE_OCTET_LENGTH_SUFFIX := by
      intro h0
      rw [h0] at hbyte
      rw [if_pos hs, ← hbyte] at hsize
      have h1 : (THREE_OCTET_LENGTH_SUFFIX).toNat = 1 := rfl
      omega
    unfold lengthHeader at hbuf
    rw [if_pos hs] at hbuf
    rw [if_pos hs] at hsize
    have htype' := drop_succ hbuf
    refine ⟨2, drop_succ htype', ?_⟩
    have hlen : ((n : Int) - (1 : Nat) - 1) = body.length := by omega
    unfold snDecode
    rw [rd_drop hbuf, ok_bind, if_neg hne]
    simp only [pure_eq_ok, ok_bind, hbyte]
    rw [rd_drop htype', ok_bind, hlen, SnMessageType.ofByte_toByte htype]
  · have hshort : (UInt16.ofNat n).toNat = n := short_toNat_of_lt (by omega)
    unfold lengthHeader at hbuf
    rw [if_neg hs, List.cons_append] at hbuf
    rw [if_neg hs] at hsize
    have h1 := drop_succ hbuf
    have htype' := drop_short h1
    refine ⟨4, drop_succ htype', ?_⟩
    have hlen : ((n : Int) - (3 : Nat) - 1) = body.length := by omega
    unfold snDecode
    rw [rd_drop hbuf, ok_bind, if_pos rfl, getShort_drop h1]
    simp only [pure_eq_ok, ok_bind, hshort]
    rw [rd_drop htype', ok_bind, hlen, SnMessageType.ofByte_toByte htype]

/-- `sn_decode` of a message's bytes, whatever follows them. -/
theorem snDecode_wire (d : Datagram) (h : d.size ≤ 65535) (r : List UInt8) :
    snDecode (d.wire ++ r) = .ok ⟨d.type, d.decoded⟩ := by
  have hsize : d.size = if d.size ≤ 255 then d.body.length + 2 else d.body.length + 4 := by
    split
    · next hs => exact Datagram.size_short hs
    · next hs => exact Datagram.size_long hs
  obtain ⟨i, hdrop, hdecode⟩ := snDecode_framed d.type_mem r h hsize
  unfold Datagram.wire
  rw [List.append_assoc, List.cons_append, hdecode, snDecodeBody_eq d hdrop]
  rfl

/-! ### There and back -/

/-- The length a message's header carries. -/
def headerLength : List UInt8 → Option Nat
  | [] => none
  | x :: r =>
    if x = THREE_OCTET_LENGTH_SUFFIX then do pure (256 * (← r[0]?).toNat + (← r[1]?).toNat)
    else some x.toNat

/-- `sn_encode` fills the `sn_get_length` bytes of its block, its header carries their number,
and `sn_decode` gives the message back. -/
def RoundTrips (m : SnMessage) : Prop :=
  ∃ (l : Nat) (bs : List UInt8), snGetLength m = .ok l ∧ bs.length = l ∧
    snEncode m l = .ok (bs.map some) ∧ headerLength bs = some l ∧ snDecode bs = .ok m

theorem headerLength_wire (d : Datagram) (h : d.size ≤ 65535) :
    headerLength d.wire = some d.size := by
  unfold Datagram.wire lengthHeader
  by_cases hs : d.size ≤ 255
  · have hbody := Datagram.size_short hs
    have hn : (UInt8.ofNat d.size).toNat = d.size := toNat_ofNat_of_lt (by omega)
    have hne := Datagram.size_ne_suffix hs
    rw [if_pos hs, List.cons_append, headerLength, if_neg hne, hn]
  · rw [if_neg hs, List.cons_append, headerLength, if_pos rfl]
    have hn : (UInt16.ofNat d.size).toNat = d.size := short_toNat_of_lt (by omega)
    have hbytes : 256 * ((UInt16.ofNat d.size) >>> 8).toUInt8.toNat +
        (UInt16.ofNat d.size).toUInt8.toNat = d.size := by
      rw [UInt16.toNat_toUInt8, UInt16.toNat_toUInt8, UInt16.toNat_shiftRight, hn,
        Nat.shiftRight_eq_div_pow]
      simp only [UInt16.reduceToNat, Nat.reduceMod]
      omega
    exact congrArg some hbytes

/-- Everything but the topic type of a PUBLISH comes back. -/
theorem wire_decoded (d : Datagram) (h : d.size ≤ 65535) :
    snGetLength d.message = .ok d.size ∧ d.wire.length = d.size ∧
      snEncode d.message d.size = .ok (d.wire.map some) ∧ headerLength d.wire = some d.size ∧
      snDecode d.wire = .ok ⟨d.type, d.decoded⟩ := by
  refine ⟨snGetLength_message d, d.length_wire, snEncode_message d h, headerLength_wire d h, ?_⟩
  simpa using snDecode_wire d h []

theorem roundTrips_wire {d : Datagram} (h : d.size ≤ 65535) (hr : RoundTrips d.message) :
    snDecode d.wire = .ok d.message := by
  obtain ⟨l, bs, hl, -, hbs, -, hback⟩ := hr
  obtain rfl : d.size = l := by
    rw [snGetLength_message] at hl
    exact_mod_cast Except.ok.inj hl
  have hsame : d.wire = bs := by
    rw [snEncode_message d h] at hbs
    exact List.map_injective_iff.mpr (Option.some_injective _) (Except.ok.inj hbs)
  rw [hsame, hback]

/-- The messages of the supported types that come back as they were: all but PUBLISH, whose
topic type is left as `malloc` gave it. -/
theorem roundTrips_iff (d : Datagram) (h : d.size ≤ 65535) :
    RoundTrips d.message ↔ d.type ≠ .publish := by
  obtain ⟨hlen, hwire, henc, hheader, hdec⟩ := wire_decoded d h
  constructor
  · intro hr hpub
    have hback := roundTrips_wire h hr
    rw [hdec] at hback
    cases d <;> cases hpub
    cases hback
  · intro hne
    refine ⟨d.size, d.wire, hlen, hwire, henc, hheader, ?_⟩
    rw [hdec]
    cases d <;> first | rfl | exact absurd rfl hne

/-- A REGISTER of a topic of `n` bytes. -/
def registerOf (n : Nat) : Datagram :=
  .register 5 9 ⟨List.replicate n 0x61, by simp [List.mem_replicate]⟩

/-- From 250 bytes on the long header is needed. -/
theorem size_registerOf {n : Nat} (h : 250 ≤ n) : (registerOf n).size = n + 8 := by
  have hbody : (registerOf n).body.length = n + 4 := by
    simp only [registerOf, Datagram.body, List.length_append, length_shortBytes,
      List.length_replicate]
    omega
  unfold Datagram.size
  rw [hbody, if_neg (by omega)]

theorem roundTrips_iff_registerOf :
    (registerOf 250).size ≤ 65535 ∧
      (RoundTrips (registerOf 250).message ↔ (registerOf 250).type ≠ .publish) :=
  ⟨by rw [size_registerOf (by decide)]; decide,
    roundTrips_iff _ (by rw [size_registerOf (by decide)]; decide)⟩

/-- A QoS 1 PUBLISH of `Hi` to topic id 5. -/
def publishHi : Datagram := .publish false false 1 5 9 (.ofBytes [0x48, 0x69]) (by decide)

theorem publishHi_not_roundTrips : publishHi.size ≤ 65535 ∧ ¬ RoundTrips publishHi.message := by
  have hsize : publishHi.size ≤ 65535 := by decide
  refine ⟨hsize, fun hr => ?_⟩
  have hback := roundTrips_wire hsize hr
  rw [(wire_decoded publishHi hsize).2.2.2.2] at hback
  cases hback

end IotClient.MqttSn
