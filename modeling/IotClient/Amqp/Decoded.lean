import IotClient.Amqp.Handled

/-!
# What `amqp_decode` makes of any bytes

Eight bytes or more are a length, the three fields of a header and a body (`exists_rawFrame`).
`getAmqp_iff` is what `get_amqp` returns for a body: it starts with a node whose descriptor is a
code, from which `init_header` takes the packet.
-/

namespace IotClient.Amqp

open Mem

/-- A length, the three fields behind it and a body. -/
def rawFrame (length : UInt32) (doff type : UInt8) (channel : UInt16) (body : List UInt8) :
    List UInt8 :=
  intBytes length ++ (doff :: type :: (shortBytes channel ++ body))

section Raw

variable {n : UInt32} {doff type : UInt8} {channel : UInt16} {body : List UInt8}

theorem length_rawFrame : (rawFrame n doff type channel body).length = 8 + body.length := by
  simp only [rawFrame, List.length_append, List.length_cons, length_intBytes, length_shortBytes]
  omega

theorem rawFrame_drop : (rawFrame n doff type channel body).drop 8 = body := rfl

theorem exists_rawFrame {data : List UInt8} (h : 8 ≤ data.length) :
    ∃ n doff type channel body, data = rawFrame n doff type channel body := by
  rcases data with _ | ⟨b0, _ | ⟨b1, _ | ⟨b2, _ | ⟨b3, _ | ⟨doff, _ | ⟨type, _ | ⟨hi, _ | ⟨lo, body⟩⟩⟩⟩⟩⟩⟩⟩
  case cons.cons.cons.cons.cons.cons.cons.cons =>
    refine ⟨(b0.toUInt32 <<< 24) ||| (b1.toUInt32 <<< 16) ||| (b2.toUInt32 <<< 8) ||| b3.toUInt32,
      doff, type, (hi.toUInt16 <<< 8) ||| lo.toUInt16, body, ?_⟩
    rw [rawFrame, intBytes_join, short_split]
    rfl
  all_goals
    simp only [List.length_cons, List.length_nil] at h
    omega

/-- The header of an `AMQP` announcement. -/
def announcement (doff : UInt8) : AmqpHeader where
  code := .is HeaderCode.proto.toByte
  doff := .is 0
  type := .is 0
  channel := .is 0
  packet := .ref (.proto {
    protocol := .indet
    protocolId := .is doff.toNat
    versionMajor := .indet
    versionMinor := .indet
    versionRevision := .indet })

/-- The eight bytes of a ping, and of an announcement, are looked for first. -/
theorem amqpDecode_rawFrame : amqpDecode (rawFrame n doff type channel body)
    (rawFrame n doff type channel body).length =
      if n.toInt32.toInt = 8 ∧ doff = 2 ∧ (type = 0 ∨ type = 1) ∧ channel.toInt16.toInt = 0 then
        if body = [] then .ok (.ref .fresh) else .ok .null
      else if n.toInt32.toInt = 1095586128 ∧ (doff = 3 ∨ doff = 0) ∧ type = 1 ∧
          channel.toInt16.toInt = 0 then
        if body = [] then .ok (.ref (announcement doff)) else .ok .null
      else if n.toInt32.toInt ≠ body.length + 8 then .ok .null
      else if type = 0 ∨ type = 1 then
        .ref <$> decodeFrame (rawFrame n doff type channel body) body.length doff type
          channel.toInt16.toInt
      else .ok .null := by
  have hd : (rawFrame n doff type channel body).drop 0 =
    intBytes n ++ (doff :: type :: (shortBytes channel ++ body)) := rfl
  have hheader : (rawFrame n doff type channel body).drop 4 =
    doff :: type :: (shortBytes channel ++ body) := rfl
  have hnil : ((body.length : Int) = 0) = (body = []) := by
    rw [Int.natCast_eq_zero, List.length_eq_zero_iff]
  have hreadable : ((rawFrame n doff type channel body).length : Int) - 8 = body.length := by
    rw [length_rawFrame]; omega
  unfold amqpDecode
  rw [getInt_drop hd, ok_bind, rd_drop hheader, ok_bind, rd_drop (drop_succ hheader), ok_bind,
    getShort_drop (drop_succ (drop_succ hheader)), ok_bind, hreadable]
  simp only [hnil]
  rfl

/-- A frame of the length it says. -/
theorem amqpDecode_sized (hn : n.toInt32.toInt = body.length + 8) (hpos : body ≠ [])
    (htype : type = 0 ∨ type = 1) (hproto : ¬ (n.toInt32.toInt = 1095586128 ∧
      (doff = 3 ∨ doff = 0) ∧ type = 1 ∧ channel.toInt16.toInt = 0)) :
    amqpDecode (rawFrame n doff type channel body) (rawFrame n doff type channel body).length =
      .ref <$> decodeFrame (rawFrame n doff type channel body) body.length doff type
        channel.toInt16.toInt := by
  have hlen := List.length_pos_of_ne_nil hpos
  rw [amqpDecode_rawFrame, if_neg (by omega), if_neg hproto, if_neg (by omega), if_pos htype]

end Raw

/-! ### The list of a frame -/

section Frame

variable {data out s : List UInt8} {list : TlvAmqp} {code doff type : UInt8} {i : Nat}
  {readableBytes channel : Int}

/-- A header whose list was read. -/
theorem initHeader_eq : initHeader (getHeaderEmpty code) list = (do
    let r ← initPacket code list
    pure { AmqpHeader.fresh with code := .is code, packet := .ofRead r }) := by
  unfold initHeader getHeaderEmpty
  rw [Cell.get_is, ok_bind]
  cases initPacket code list with
  | error e => rfl
  | ok r => cases r <;> rfl

theorem getAmqp_node (hd : data.drop i = out ++ s) (hnode : Node out list)
    (hcode : list.Described code) : getAmqp data i = (do
      let r ← initPacket code list
      pure ({ AmqpHeader.fresh with code := .is code, packet := .ofRead r }, i + out.length)) := by
  obtain ⟨constructor, hconstructor, hdescriptor⟩ := bind_eq_ok.1 (descriptorCode_eq_ok.2 hcode)
  unfold getAmqp
  rw [getTlv_iff.2 ⟨out, s, hd, rfl, hnode⟩, ok_bind]
  simp only [hconstructor, ok_bind, hdescriptor, initHeader_eq]
  cases initPacket code list <;> rfl

/-- Only a node with a descriptor is read. -/
theorem exists_node_of_getAmqp {r : AmqpHeader × Nat} (h : getAmqp data i = .ok r) :
    ∃ out s list code, data.drop i = out ++ s ∧ Node out list ∧ list.Described code := by
  obtain ⟨⟨list, j⟩, hlist, h⟩ := bind_eq_ok.1 h
  obtain ⟨out, s, hd, -, hnode⟩ := getTlv_iff.1 hlist
  obtain ⟨constructor, hconstructor, h⟩ := bind_eq_ok.1 h
  obtain ⟨code, hcode, -⟩ := bind_eq_ok.1 h
  refine ⟨out, s, list, code, hd, hnode, descriptorCode_eq_ok.1 ?_⟩
  exact bind_eq_ok.2 ⟨constructor, hconstructor, hcode⟩

/-- A frame of another code than `TRANSFER`. -/
theorem decodeFrame_node (hd : data.drop 8 = out ++ s) (hnode : Node out list)
    (hcode : list.Described code) (hne : code ≠ HeaderCode.transfer.toByte) :
    decodeFrame data readableBytes doff type channel = (do
      let r ← initPacket code list
      pure (.decoded code doff type channel (.ofRead r))) := by
  unfold decodeFrame
  rw [getAmqp_node hd hnode hcode]
  cases initPacket code list with
  | error e => rfl
  | ok r =>
    simp only [ok_bind, pure_eq_ok, Cell.get_is, if_neg hne]
    rfl

/-- Of a transfer the sections are read, too. -/
theorem decodeFrame_transfer_node (hd : data.drop 8 = out ++ s) (hnode : Node out list)
    (hcode : list.Described HeaderCode.transfer.toByte) :
    decodeFrame data readableBytes doff type channel = (do
      let r ← initPacket HeaderCode.transfer.toByte list
      let transfer ← castPacket { AmqpHeader.fresh with packet := .ofRead r } fun
        | .transfer p => some p
        | _ => none
      let (number, sections) ←
        readSections data (readableBytes + 8) data.length (8 + out.length) .indet []
      pure (.decoded HeaderCode.transfer.toByte doff type channel (.ref (.transfer { transfer with
        sectionNumber := .ref number, sections := .ref sections })))) := by
  unfold decodeFrame
  rw [getAmqp_node hd hnode hcode]
  cases initPacket HeaderCode.transfer.toByte list with
  | error e => rfl
  | ok r =>
    simp only [ok_bind, pure_eq_ok, Cell.get_is, if_pos]
    rfl

end Frame

end IotClient.Amqp
