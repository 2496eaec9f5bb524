import IotClient.App.StoredStrings
import IotClient.Mqtt.FrameSize
import IotClient.Mqtt.Readable
import IotClient.Mqtt.Requests

/-!
# Publications with the settings of the file

`load_config` takes any number for `messageQos`. `encode` adds twice its lowest byte to the first
byte of a PUBLISH, and writes a packet id for every number but 0. `decode` accepts the frame and
reads the publication back for few of them (`publishAccepted_iff`).
-/

namespace IotClient.App

open Mem Mqtt

/-! ### Settings -/

namespace Config

variable {heap : Heap} {behind line file : List UInt8} {c c' : Config}

/-- The settings of a publication that are flags. -/
def FlagsSet (c : Config) : Prop :=
  (c.messageRetain = 0 ∨ c.messageRetain = 1) ∧ (c.messageDup = 0 ∨ c.messageDup = 1)

theorem flagsSet_setString (s : CString) (k : StringKey) :
    (c.setString s k).FlagsSet ↔ c.FlagsSet := by
  cases k <;> rfl

theorem flagsSet_setNumber (n : Int) (k : NumberKey) :
    (c.setNumber n k).FlagsSet ↔ c.FlagsSet := by
  cases k <;> rfl

theorem flagsSet_setFlag {n : Int} (hn : n = 0 ∨ n = 1) (h : c.FlagsSet) (k : FlagKey) :
    (c.setFlag n k).FlagsSet := by
  cases k with
  | messageRetain => exact ⟨hn, h.2⟩
  | messageDup => exact ⟨h.1, hn⟩
  | cleanSession | isRetain | isSecure => exact h

theorem loadLine_flagsSet (hc : c.FlagsSet) (h : c.loadLine heap behind line = .ok c') :
    c'.FlagsSet := by
  obtain ⟨property, -, h⟩ := bind_eq_ok.1 h
  cases property with
  | none =>
    cases h
    exact hc
  | some property =>
    obtain ⟨key, value⟩ := property
    cases key with
    | string k =>
      obtain ⟨s, -, h⟩ := bind_eq_ok.1 h
      cases h
      exact (flagsSet_setString s k).2 hc
    | number k =>
      cases h
      exact (flagsSet_setNumber _ k).2 hc
    | flag k =>
      obtain ⟨s, -, h⟩ := bind_eq_ok.1 h
      cases h
      refine flagsSet_setFlag ?_ hc k
      split
      · exact .inr rfl
      · exact .inl rfl

theorem loadLines_flagsSet {lines : List (List UInt8)} {i : Nat} (hc : c.FlagsSet)
    (h : loadLines heap i c lines = .ok c') : c'.FlagsSet := by
  induction lines generalizing i c with
  | nil =>
    cases h
    exact hc
  | cons line lines ih =>
    obtain ⟨c₁, hline, h⟩ := bind_eq_ok.1 h
    exact ih (loadLine_flagsSet hc hline) h

theorem flagsSet_of_loadConfig (h : loadConfig heap (some file) = .ok (some c)) : c.FlagsSet := by
  obtain ⟨c₁, hread, h⟩ := bind_eq_ok.1 h
  obtain ⟨valid, -, h⟩ := bind_eq_ok.1 h
  cases valid with
  | false => cases h
  | true =>
    cases h
    exact loadLines_flagsSet ⟨.inl rfl, .inl rfl⟩ hread

/-- `message_qos` as an `enum QoS`. -/
def publishQos (c : Config) : Nat := (c.messageQos % 2 ^ 32).toNat

end Config

/-! ### The first byte -/

/-- The first byte of a PUBLISH whose QoS ends in the byte `k`. -/
def headerByte (dup retain : Bool) (k : UInt8) : UInt8 :=
  (0x30 : UInt8) + (if dup then 8 else 0) + k <<< (1 : UInt8) + (if retain then 1 else 0)

theorem publishHeader_eq {dup retain : Int} (q : Nat) :
    publishHeader dup retain q =
      headerByte (decide (dup ≠ 0)) (decide (retain ≠ 0)) (UInt8.ofNat q) := by
  have htype : MessageType.publish.toByte <<< 4 = 0x30 := by decide
  unfold publishHeader headerByte
  rw [htype]
  by_cases hdup : dup = 0 <;> by_cases hretain : retain = 0 <;> simp [hdup, hretain]

/-- The flags that come back are those of a QoS up to 2, and of none with DUP and QoS 0. -/
theorem headerByte_right : ∀ (k : UInt8) (dup retain : Bool),
    k.toNat % 128 ≤ 2 → (dup = true → k.toNat % 128 ≠ 0) →
    MessageType.ofByte (headerByte dup retain k >>> 4 &&& 0xf) = some .publish ∧
      ((headerByte dup retain k &&& 0xf) >>> 3 &&& 1).toNat = dup.toNat ∧
      ((headerByte dup retain k &&& 0xf &&& 0x07) >>> 1).toNat = k.toNat % 128 ∧
      (headerByte dup retain k &&& 0xf &&& 1).toNat = retain.toNat := by
  decide +kernel

theorem headerByte_wrong : ∀ (k : UInt8) (dup retain : Bool),
    MessageType.ofByte (headerByte dup retain k >>> 4 &&& 0xf) = some .publish →
    ((headerByte dup retain k &&& 0xf &&& 0x07) >>> 1).toNat ≤ 2 →
    (((headerByte dup retain k &&& 0xf) >>> 3 &&& 1).toNat ≠ 0 →
      ((headerByte dup retain k &&& 0xf &&& 0x07) >>> 1).toNat ≠ 0) →
    ((headerByte dup retain k &&& 0xf) >>> 3 &&& 1).toNat = dup.toNat →
    k.toNat % 128 ≤ 2 ∧ (dup = true → k.toNat % 128 ≠ 0) := by
  decide +kernel

/-! ### The frame -/

section Frame

variable {topic content : CString} {client : Client} {c : Config} {dup retain : Int} {q : Nat}
  {packetId : UInt16}

/-- The packet id of the next publication. -/
def packetIdOf (client : Client) (q : Nat) : UInt16 := if q ≠ 0 then client.nextId else 0

/-- What `get_length` counts. -/
def remaining (content topic : CString) (packetId : UInt16) : Nat :=
  (if packetId ≠ 0 then 2 else 0) + topic.bytes.length + 2 + content.bytes.length

theorem getLength_publishMessage :
    getLength (publishMessage content topic q retain dup packetId) =
      .ok (remaining content topic packetId) := rfl

/-- The frame of a publication of at most 127 bytes. -/
def frameOf (content topic : CString) (q : Nat) (retain dup : Int) (packetId : UInt16) :
    List UInt8 :=
  publishHeader dup retain q :: UInt8.ofNat (remaining content topic packetId) ::
    publishBody topic content packetId

theorem publishBody_eq (htopic : topic.bytes ≠ []) (hlen : topic.bytes.length < 65536) :
    publishBody topic content packetId = shortBytes (UInt16.ofNat topic.bytes.length) ++
      (topic.bytes ++ ((if packetId ≠ 0 then shortBytes packetId else []) ++ content.bytes)) := by
  unfold publishBody
  rw [stringField_short hlen htopic, List.append_assoc]
  rfl

theorem encode_publishMessage (q : Nat) (retain dup : Int) (htopic : topic.bytes ≠ [])
    (hle : remaining content topic packetId ≤ 127) :
    encode (publishMessage content topic q retain dup packetId) (remaining content topic packetId) =
      .ok ((frameOf content topic q retain dup packetId).map some) := by
  have hlen : topic.bytes.length < 65536 := by
    unfold remaining at hle
    omega
  refine (encode_publish _ _).trans ((encodePublish_block rfl rfl rfl).trans ?_)
  refine emittedBlock_frame ?_ hle
  rw [publishBody_eq htopic hlen]
  unfold remaining
  simp only [List.length_append, length_shortBytes]
  split
  · rw [length_shortBytes]
    omega
  · rw [List.length_nil]
    omega

/-- The payload that `decode` finds: for QoS 0 there should be no packet id in front of it. -/
def payloadOf (content : CString) (q : Nat) (packetId : UInt16) : List UInt8 :=
  (if q % 128 = 0 ∧ packetId ≠ 0 then shortBytes packetId else []) ++ content.bytes

/-- The bytes behind the topic, as `decode` divides them. -/
theorem payload_split (content : CString) (hid : q % 128 ≠ 0 → packetId ≠ 0) :
    (if packetId ≠ 0 then shortBytes packetId else []) ++ content.bytes =
      (if q % 128 = 0 then [] else shortBytes packetId) ++ payloadOf content q packetId := by
  unfold payloadOf
  by_cases hq : q % 128 = 0
  · simp [hq]
  · simp [hq, hid hq]

theorem decode_frame (retain : Int) (htopic : topic.bytes ≠ []) (hcontent : content.bytes ≠ [])
    (hle : remaining content topic packetId ≤ 127) (hq : q % 128 ≤ 2)
    (hdup : dup ≠ 0 → q % 128 ≠ 0) (hid : q % 128 ≠ 0 → packetId ≠ 0) :
    decode (frameOf content topic q retain dup packetId) = .ok ⟨.is .publish, .ref (.publish {
      topic := ⟨.ref topic, .is (q % 128)⟩
      content := .ref (CString.ofBytes (payloadOf content q packetId))
      retain := (decide (retain ≠ 0)).toNat
      dup := (decide (dup ≠ 0)).toNat
      packetId := if q % 128 = 0 then .indet else .is packetId })⟩ := by
  have hk : (UInt8.ofNat q).toNat % 128 = q % 128 := by
    rw [UInt8.toNat_ofNat']
    omega
  obtain ⟨htype, hdupBit, hqosBits, hretainBit⟩ := headerByte_right (UInt8.ofNat q)
    (decide (dup ≠ 0)) (decide (retain ≠ 0)) (by rw [hk]; exact hq)
    (fun h => by rw [hk]; exact hdup (of_decide_eq_true h))
  rw [← publishHeader_eq] at htype hdupBit hqosBits hretainBit
  rw [hk] at hqosBits
  have hlen : topic.bytes.length < 65536 := by
    unfold remaining at hle
    omega
  have hsplit := payload_split content hid
  have hbuf : (frameOf content topic q retain dup packetId).drop 0 =
      publishHeader dup retain q :: UInt8.ofNat (remaining content topic packetId) ::
        (shortBytes (UInt16.ofNat topic.bytes.length) ++ (topic.bytes ++
          ((if q % 128 = 0 then [] else shortBytes packetId) ++
            (payloadOf content q packetId ++ [])))) := by
    rw [List.append_nil, ← hsplit, ← publishBody_eq htopic hlen]
    rfl
  have hsize : remaining content topic packetId = 2 + topic.bytes.length +
      (if q % 128 = 0 then 0 else 2) + (payloadOf content q packetId).length := by
    have hlength := congrArg List.length hsplit
    simp only [List.length_append, apply_ite List.length, length_shortBytes, List.length_nil]
      at hlength
    unfold remaining
    omega
  have hne : payloadOf content q packetId ≠ [] := List.append_ne_nil_of_right_ne_nil _ hcontent
  have hdupNat : (((publishHeader dup retain q) &&& 0xf) >>> 3 &&& 1).toNat ≠ 0 → q % 128 ≠ 0 := by
    rw [hdupBit]
    intro h
    refine hdup fun h0 => ?_
    simp [h0] at h
  rw [decode_eq hbuf htype]
  refine (decodePublish_parts hle hsize hqosBits hq hdupNat hbuf).trans ?_
  rw [hdupBit, hretainBit, if_neg hne, CString.ofBytes_bytes]

theorem cstring_eq_iff {s t : CString} : s = t ↔ s.bytes = t.bytes := by
  obtain ⟨s, hs⟩ := s
  obtain ⟨t, ht⟩ := t
  exact CString.mk.injEq .. ▸ Iff.rfl

/-- Two bytes in front of a text, read as a text. -/
theorem ofBytes_front {hi lo : UInt8} (hcontent : content.bytes ≠ []) :
    CString.ofBytes (hi :: lo :: content.bytes) = content ↔ lo = 0 ∧ content.bytes = [hi] := by
  have htake : content.bytes.takeWhile (· ≠ 0) = content.bytes :=
    congrArg CString.bytes (CString.ofBytes_bytes content)
  rw [cstring_eq_iff]
  show (hi :: lo :: content.bytes).takeWhile (· ≠ 0) = content.bytes ↔ _
  by_cases hhi : hi = 0
  · rw [List.takeWhile_cons_of_neg (by simpa using hhi)]
    refine iff_of_false hcontent.symm ?_
    rintro ⟨-, hbytes⟩
    exact content.nulFree (by rw [hbytes, hhi]; exact List.mem_singleton_self 0)
  rw [List.takeWhile_cons_of_pos (by simpa using hhi)]
  by_cases hlo : lo = 0
  · rw [List.takeWhile_cons_of_neg (by simpa using hlo)]
    exact ⟨fun h => ⟨hlo, h.symm⟩, fun h => h.2.symm⟩
  · rw [List.takeWhile_cons_of_pos (by simpa using hlo), htake]
    refine iff_of_false ?_ fun h => hlo h.1
    intro h
    have hlength := congrArg List.length h
    rw [List.length_cons, List.length_cons] at hlength
    omega

/-- A packet id that is read as content is the content only by accident. -/
theorem ofBytes_payloadOf (hcontent : content.bytes ≠ []) :
    CString.ofBytes (payloadOf content q packetId) = content ↔
      (q % 128 = 0 → packetId = 0 ∨ ∃ x, shortBytes packetId = [x, 0] ∧ content.bytes = [x]) := by
  unfold payloadOf
  by_cases hid : q % 128 = 0 ∧ packetId ≠ 0
  · rw [if_pos hid]
    refine (ofBytes_front hcontent).trans ⟨?_, fun h => ?_⟩
    · rintro ⟨hlo, hbytes⟩ -
      exact .inr ⟨_, congrArg _ (congrArg (fun x => [x]) hlo), hbytes⟩
    · rcases h hid.1 with h0 | ⟨x, hx, hbytes⟩
      · exact absurd h0 hid.2
      · obtain ⟨hhi, hlo⟩ : (packetId >>> 8).toUInt8 = x ∧ packetId.toUInt8 = 0 := by
          simpa only [shortBytes, List.cons.injEq, and_true] using hx
        exact ⟨hlo, hbytes.trans (congrArg (fun x => [x]) hhi.symm)⟩
  · rw [if_neg hid, List.nil_append, CString.ofBytes_bytes]
    exact iff_of_true rfl fun hq => .inl (by_contra fun h0 => hid ⟨hq, h0⟩)

end Frame

/-! ### What `send_publish` emits -/

/-- The frame of the publication is a PUBLISH, and `decode` reads topic, content and flags back. -/
def PublishAccepted (c : Config) (client : Client) (content topic : CString) : Prop :=
  ∃ t message l frame r,
    client.sendPublish content topic c.publishQos c.messageRetain c.messageDup = .ok t ∧
      t.wire = client.wire ++ [.sent message] ∧ getLength message = .ok l ∧
      encode message l = .ok (frame.map some) ∧
      MessageType.ofByte ((frame.headD 0 : UInt8) >>> (4 : UInt8) &&& 0xf) = some .publish ∧
      decode frame = .ok ⟨.is .publish, .ref (.publish r)⟩ ∧ r.topic.topicName = .ref topic ∧
      r.content = .ref content ∧ r.retain = c.messageRetain ∧ r.dup = c.messageDup

/-- The setting gives QoS 0, 1 or 2, and DUP only with the last two. A number other than 0 that gives
QoS 0 puts a packet id before the content. -/
def Publishable (c : Config) (client : Client) (content : CString) : Prop :=
  c.publishQos % 128 ≤ 2 ∧ (c.messageDup ≠ 0 → c.publishQos % 128 ≠ 0) ∧
    (c.publishQos % 128 = 0 → c.publishQos = 0 ∨
      ∃ x, shortBytes client.nextId = [x, 0] ∧ content.bytes = [x])

section Accepted

variable {heap : Heap} {file : List UInt8} {c : Config} {client : Client} {content topic : CString}

/-- What the client sends. -/
theorem sendPublish_wire (client : Client) (content topic : CString) (q : Nat) (retain dup : Int) :
    ∃ t, client.sendPublish content topic q retain dup = .ok t ∧
    t.wire = client.wire ++
      [.sent (publishMessage content topic q retain dup (packetIdOf client q))] := by
  unfold Client.sendPublish packetIdOf
  by_cases hq : q = 0
  · rw [if_neg (not_not.2 hq), if_neg (not_not.2 hq)]
    exact ⟨_, rfl, rfl⟩
  · rw [if_pos hq, if_pos hq]
    exact ⟨_, rfl, rfl⟩

theorem packetIdOf_eq_zero
    (hcounter : 0 ≤ client.currentPacketNumber ∧ client.currentPacketNumber < 65535) :
    packetIdOf client q = 0 ↔ q = 0 := by
  unfold packetIdOf
  by_cases hq : q = 0
  · rw [if_neg (not_not.2 hq)]
    exact iff_of_true rfl hq
  · rw [if_pos hq]
    exact iff_of_false (Client.nextId_ne_zero hcounter.1 hcounter.2) hq

/-- A flag and the bit that is written for it. -/
theorem flag_toNat {n : Int} (h : n = 0 ∨ n = 1) : ((decide (n ≠ 0)).toNat : Int) = n := by
  rcases h with rfl | rfl <;> rfl

/-- With the settings of a file that is accepted, a publication is read back if and only if its QoS,
as the frame has it, is one of the three and suits the flags. -/
theorem publishAccepted_iff (hload : loadConfig heap (some file) = .ok (some c))
    (hcounter : 0 ≤ client.currentPacketNumber ∧ client.currentPacketNumber < 65535)
    (htopic : topic.bytes ≠ []) (hcontent : content.bytes ≠ [])
    (hle : remaining content topic (packetIdOf client c.publishQos) ≤ 127) :
    PublishAccepted c client content topic ↔ Publishable c client content := by
  obtain ⟨hretainFlag, hdupFlag⟩ := Config.flagsSet_of_loadConfig hload
  obtain ⟨t, hsend, hwire⟩ := sendPublish_wire client content topic c.publishQos c.messageRetain c.messageDup
  have hid : packetIdOf client c.publishQos = 0 ↔ c.publishQos = 0 := packetIdOf_eq_zero hcounter
  have hidNe : c.publishQos % 128 ≠ 0 → packetIdOf client c.publishQos ≠ 0 := by
    intro hq h0
    rw [hid.1 h0] at hq
    exact hq rfl
  have hbytes : (c.publishQos % 128 = 0 → packetIdOf client c.publishQos = 0 ∨
      ∃ x, shortBytes (packetIdOf client c.publishQos) = [x, 0] ∧ content.bytes = [x]) ↔
      (c.publishQos % 128 = 0 → c.publishQos = 0 ∨
        ∃ x, shortBytes client.nextId = [x, 0] ∧ content.bytes = [x]) := by
    rw [hid]
    by_cases hq : c.publishQos = 0
    · simp [hq]
    · rw [packetIdOf, if_pos hq]
  have hencode := encode_publishMessage c.publishQos c.messageRetain c.messageDup htopic hle
  have hk : (UInt8.ofNat c.publishQos).toNat % 128 = c.publishQos % 128 := by
    rw [UInt8.toNat_ofNat']
    omega
  unfold Publishable
  rw [← hbytes, ← ofBytes_payloadOf hcontent]
  constructor
  · rintro ⟨t', message, l, frame, r, ht, hwire', hl, hframe, htype, hdecode, -, hr, -, hdup⟩
    rw [hsend] at ht
    cases ht
    rw [hwire, List.append_cancel_left_eq, List.cons.injEq, Machine.Traffic.sent.injEq] at hwire'
    obtain ⟨rfl, -⟩ := hwire'
    rw [getLength_publishMessage] at hl
    cases hl
    rw [hencode, Except.ok.injEq, (Option.some_injective UInt8).list_map.eq_iff] at hframe
    subst hframe
    have htype' : MessageType.ofByte
        (publishHeader c.messageDup c.messageRetain c.publishQos >>> 4 &&& 0xf) = some .publish := htype
    obtain ⟨hqos, hdupQos, hdupBit⟩ :=
      decodePublish_flags ((decode_eq (t := .publish) rfl htype').symm.trans hdecode)
    rw [publishHeader_eq] at htype' hqos hdupQos hdupBit
    have hdupNat := flag_toNat hdupFlag
    obtain ⟨hle2, hne⟩ := headerByte_wrong _ _ _ htype' hqos hdupQos (by omega)
    rw [hk] at hle2 hne
    have hdupNe : c.messageDup ≠ 0 → c.publishQos % 128 ≠ 0 := fun h => hne (decide_eq_true h)
    rw [decode_frame _ htopic hcontent hle hle2 hdupNe hidNe] at hdecode
    cases hdecode
    exact ⟨hle2, hdupNe, Ptr.ref.inj hr⟩
  · rintro ⟨hle2, hdupNe, hpayload⟩
    have hdecode := decode_frame c.messageRetain htopic hcontent hle hle2 hdupNe hidNe
    have htype := (headerByte_right (UInt8.ofNat c.publishQos) (decide (c.messageDup ≠ 0))
      (decide (c.messageRetain ≠ 0)) (by rw [hk]; exact hle2)
      (fun h => by rw [hk]; exact hdupNe (of_decide_eq_true h))).1
    rw [← publishHeader_eq] at htype
    exact ⟨t, _, _, _, _, hsend, hwire, getLength_publishMessage, hencode, htype, hdecode, rfl,
      congrArg Ptr.ref hpayload, flag_toNat hretainFlag, flag_toNat hdupFlag⟩

/-- A file with the client id `a`, the port 1 and a QoS of one digit. -/
def settingsFile (digit : UInt8) : List UInt8 :=
  (CString.literal "clientId:a\nport:1\nmessageQos:").bytes ++ [digit, 10]

def settings (qos : Int) : Config :=
  { Config.initial (Config.heapOf 0) with
    clientId := some (.ofBytes [0x61])
    serverPort := 1
    messageQos := qos }

theorem loadConfig_one : loadConfig (Config.heapOf 0) (some (settingsFile 0x31)) =
    .ok (some (settings 1)) := by
  decide +kernel

theorem loadConfig_three : loadConfig (Config.heapOf 0) (some (settingsFile 0x33)) =
    .ok (some (settings 3)) := by
  decide +kernel

theorem publishAccepted_iff_one :
    loadConfig (Config.heapOf 0) (some (settingsFile 0x31)) = .ok (some (settings 1)) ∧
      (PublishAccepted (settings 1) .init (.ofBytes [0x68]) (.ofBytes [0x74]) ↔
        Publishable (settings 1) .init (.ofBytes [0x68])) :=
  ⟨loadConfig_one, publishAccepted_iff loadConfig_one (by decide) (by decide) (by decide) (by decide)⟩

/-- With `messageQos:3` the publication is not read back. -/
theorem publish_not_accepted :
    loadConfig (Config.heapOf 0) (some (settingsFile 0x33)) = .ok (some (settings 3)) ∧
      ¬ PublishAccepted (settings 3) .init (.ofBytes [0x68]) (.ofBytes [0x74]) := by
  refine ⟨loadConfig_three, ?_⟩
  rintro ⟨t, message, l, frame, r, ht, hwire, hl, hframe, -, hdecode, -⟩
  cases ht
  cases hwire
  cases hl
  have hencode := (encode_publishMessage _ _ _ (by decide) (by decide)).symm.trans hframe
  rw [Except.ok.injEq, (Option.some_injective UInt8).list_map.eq_iff] at hencode
  subst hencode
  have hrejected : decode (frameOf (.ofBytes [0x68]) (.ofBytes [0x74]) 3 0 0 1) =
      .ok (rejected .publish) := by decide +kernel
  cases hrejected.symm.trans hdecode

end Accepted

end IotClient.App
