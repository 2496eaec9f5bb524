import IotClient.Amqp.Sent

/-!
# Frames of a performative

`encodeFrame_eq`: once `add_arguments` has made the list, the frame is its length, the header and
the list. `amqpDecode_reads`: from the frame of a list of arguments, whoever wrote it,
`amqp_decode` makes the header of what `init_header` reads from the list.
-/

namespace IotClient.Amqp

open Mem

/-- The bytes of a header behind the length. -/
def headerBytes (doff type channel : Int) : List UInt8 :=
  UInt8.ofInt doff :: UInt8.ofInt type :: shortBytes (UInt16.ofInt channel)

/-- The bytes of a frame. -/
def frame (doff type channel : Int) (arguments : List UInt8) : List UInt8 :=
  intBytes (UInt32.ofNat (8 + arguments.length)) ++ (headerBytes doff type channel ++ arguments)

@[simp] theorem length_headerBytes (doff type channel : Int) :
    (headerBytes doff type channel).length = 4 := rfl

@[simp] theorem length_frame (doff type channel : Int) (arguments : List UInt8) :
    (frame doff type channel arguments).length = 8 + arguments.length := by
  simp only [frame, List.length_append, length_intBytes, length_headerBytes]
  omega

/-! ### Encoding -/

/-- Copying over the first cells of a block. -/
theorem copyIn_over (src front rest : Block) {n : Int} (hn : n = src.length)
    (hlen : front.length = src.length) :
    Block.copyIn (front ++ rest) 0 src n = .ok (src ++ rest) := by
  have hroom : ¬ (((front ++ rest).length : Int) < (0 : Nat) + n) := by
    rw [List.length_append, hn]; omega
  unfold Block.copyIn
  rw [if_neg (by omega), if_neg (by omega), if_neg hroom, hn, Int.toNat_natCast,
    List.take_zero, List.take_length, List.nil_append, Nat.zero_add, List.drop_left' hlen]

theorem putHeader_block {header : AmqpHeader} {doff type channel : Int}
    (hdoff : header.doff = .is doff) (htype : header.type = .is type)
    (hchannel : header.channel = .is channel) :
    Enc.blockOf 4 (putHeader header) = .ok ((headerBytes doff type channel).map some) := by
  have hemits : Emits (putHeader header) (headerBytes doff type channel) := by
    unfold putHeader
    rw [hdoff, htype, hchannel]
    refine Emits.lift_ok (Cell.get_is doff) (Emits.seq (Emits.put _) ?_)
    refine Emits.lift_ok (Cell.get_is type) (Emits.seq (Emits.put _) ?_)
    exact Emits.lift_ok (Cell.get_is channel) (addShort_emits _)
  exact (hemits.block 4).trans (emittedBlock_full _)

theorem toByte_ne_transfer {code : HeaderCode} (h : code ≠ .transfer) :
    code.toByte ≠ HeaderCode.transfer.toByte := by
  intro hbyte
  have hof := HeaderCode.ofByte_toByte code
  rw [hbyte, HeaderCode.ofByte_toByte] at hof
  exact h (Option.some.inj hof).symm

/-- The buffer before the length is filled in, without the sections. -/
def frameBody (doff type channel : Int) (out : List UInt8) : Block :=
  Block.malloc 4 ++ ((headerBytes doff type channel).map some ++ out.map some)

theorem encodeFrame_body {code : UInt8} {header : AmqpHeader} {l : TlvList} {out : List UInt8}
    {doff type channel : Int} (hargs : addArguments header = .ok (.ref l))
    (hl : Holds l.node out) (hdoff : header.doff = .is doff) (htype : header.type = .is type)
    (hchannel : header.channel = .is channel) :
    encodeFrame code header = (do
      let (buf, length) ← if code = HeaderCode.transfer.toByte then
          transferSections header (frameBody doff type channel out) (8 + (out.length : Int))
        else pure (frameBody doff type channel out, 8 + (out.length : Int))
      let buf ← buf.copyIn 0 ((intBytes (UInt32.ofInt length)).map some) 4
      pure (buf, length)) := by
  obtain ⟨tail, htail⟩ := hl.bytes
  have hlength : l.length = .is out.length := hl.length
  have hbytes : l.bytes = .ref (out.map some ++ tail) := htail
  have halloc : Block.alloc (8 + (out.length : Int)) =
      .ok (Block.malloc 4 ++ Block.malloc (4 + out.length)) := by
    rw [← Block.malloc_add, ← Nat.add_assoc]
    exact_mod_cast Block.alloc_natCast (8 + out.length)
  have hheader := Block.copyIn_all (Block.malloc 4) ((headerBytes doff type channel).map some)
    (4 + out.length) (i := 4) (n := 4) rfl rfl (by simp)
  have hargument := Block.copyIn_room
    (Block.malloc 4 ++ (headerBytes doff type channel).map some)
    (out.map some) tail out.length (i := 8) (n := out.length) rfl (by simp) (by simp)
  rw [List.length_map, Nat.sub_self, show Block.malloc 0 = [] from rfl, List.append_nil] at hargument
  rw [List.length_map, length_headerBytes, Nat.add_sub_cancel_left] at hheader
  rw [List.append_assoc] at hargument
  unfold encodeFrame
  rw [hargs, ok_bind, Ptr.deref_ref, ok_bind, hlength, Cell.get_is, ok_bind]
  simp only [halloc, ok_bind, putHeader_block hdoff htype hchannel, hheader, hbytes, Ptr.deref_ref,
    List.append_assoc, hargument, frameBody]

/-- The length is filled in. -/
theorem frameBody_copyIn (doff type channel : Int) (out : List UInt8) :
    (frameBody doff type channel out).copyIn 0
        ((intBytes (UInt32.ofInt (8 + (out.length : Int)))).map some) 4 =
      .ok ((frame doff type channel out).map some) := by
  have hsize : UInt32.ofInt (8 + (out.length : Int)) = UInt32.ofNat (8 + out.length) :=
    int_ofInt_natCast (8 + out.length)
  have hover := copyIn_over ((intBytes (UInt32.ofNat (8 + out.length))).map some) (Block.malloc 4)
    ((headerBytes doff type channel).map some ++ out.map some) (n := 4) rfl rfl
  rw [frameBody, hsize, hover, frame, List.map_append, List.map_append]

theorem encodeFrame_eq {code : HeaderCode} {header : AmqpHeader} {l : TlvList} {out : List UInt8}
    {doff type channel : Int} (hcode : code ≠ .transfer) (hargs : addArguments header = .ok (.ref l))
    (hl : Holds l.node out) (hdoff : header.doff = .is doff) (htype : header.type = .is type)
    (hchannel : header.channel = .is channel) :
    encodeFrame code.toByte header =
      .ok ((frame doff type channel out).map some, (frame doff type channel out).length) := by
  rw [encodeFrame_body hargs hl hdoff htype hchannel, if_neg (toByte_ne_transfer hcode)]
  simp only [pure_eq_ok, ok_bind, frameBody_copyIn, length_frame]
  rfl

/-! ### Decoding -/

section Decoding

variable (doff type channel : Int) (out : List UInt8)

theorem frame_drop_header :
    (frame doff type channel out).drop 4 = headerBytes doff type channel ++ out := rfl

theorem frame_drop_arguments : (frame doff type channel out).drop 8 = out := rfl

variable {out}

theorem amqpDecode_frame (hpos : 0 < out.length) (hlt : out.length < 1000) :
    amqpDecode (frame doff type channel out) (frame doff type channel out).length =
      if UInt8.ofInt type = 0 ∨ UInt8.ofInt type = 1 then
        .ref <$> decodeFrame (frame doff type channel out) out.length (UInt8.ofInt doff)
          (UInt8.ofInt type) (UInt16.ofInt channel).toInt16.toInt
      else .ok .null := by
  have hlength : getInt (frame doff type channel out) 0 = .ok ((8 + out.length : Nat) : Int) :=
    getInt_size (r := headerBytes doff type channel ++ out) (by omega) rfl
  have hheader := frame_drop_header doff type channel out
  have hdoff := rd_drop hheader
  have htype := rd_drop (drop_succ hheader)
  have hchannel := getShort_drop (drop_succ (drop_succ hheader))
  have hreadable : ((frame doff type channel out).length : Int) - 8 = out.length := by
    rw [length_frame]; omega
  unfold amqpDecode
  rw [hlength, ok_bind, hdoff, ok_bind, htype, ok_bind, hchannel, ok_bind, hreadable,
    if_neg (by omega), if_neg (by omega), if_neg (by omega)]
  rfl

end Decoding

section Reads

variable {code : HeaderCode} {tlv : TlvAmqp} {out : List UInt8} {r : Option Packet}
  (doff type channel : Int)

theorem getTlv_frame (h : Reads out tlv) :
    getTlv (frame doff type channel out) 8 = .ok (tlv, 8 + out.length) := by
  refine h _ _ 8 [] ?_ ?_
  · rw [length_frame]; omega
  · rw [frame_drop_arguments, List.append_nil]

theorem getAmqp_frame (h : Reads out tlv) (hdescriptor : tlv.descriptorCode = .ok code.toByte)
    (hinit : initPacket code.toByte tlv = .ok r) :
    getAmqp (frame doff type channel out) 8 =
      .ok ({ AmqpHeader.fresh with code := .is code.toByte, packet := .ofRead r },
        8 + out.length) := by
  obtain ⟨constructor, hconstructor, hcode⟩ := bind_eq_ok.mp hdescriptor
  unfold getAmqp
  rw [getTlv_frame doff type channel h, ok_bind]
  simp only [hconstructor, ok_bind, hcode]
  unfold initHeader getHeaderEmpty
  rw [Cell.get_is, ok_bind, hinit, ok_bind]
  cases r <;> rfl

/-- What `amqp_decode` makes of the frame of an argument list. -/
theorem amqpDecode_reads (hcode : code ≠ .transfer) (h : Reads out tlv) (hpos : 0 < out.length)
    (hlt : out.length < 1000) (hdescriptor : tlv.descriptorCode = .ok code.toByte)
    (hinit : initPacket code.toByte tlv = .ok r)
    (htype : UInt8.ofInt type = 0 ∨ UInt8.ofInt type = 1) :
    amqpDecode (frame doff type channel out) (frame doff type channel out).length =
      .ok (.ref {
        code := .is code.toByte
        doff := .is (UInt8.ofInt doff).toNat
        type := .is (UInt8.ofInt type).toNat
        channel := .is (UInt16.ofInt channel).toInt16.toInt
        packet := .ofRead r }) := by
  rw [amqpDecode_frame doff type channel hpos hlt, if_pos htype, decodeFrame,
    getAmqp_frame doff type channel h hdescriptor hinit, ok_bind]
  simp only [Cell.get_is, ok_bind, if_neg (toByte_ne_transfer hcode), pure_eq_ok, ok_map]

end Reads

section List

variable {code : HeaderCode} {ts : List (Option Sent)} {h : (argumentBytes ts).length ≤ 255}
  {r : Option Packet} (doff type channel : Int)

theorem length_list_out (code : HeaderCode) (h : (argumentBytes ts).length ≤ 255) :
    (Sent.list code.toByte ts h).out.length = 6 + (argumentBytes ts).length := by
  simp only [Sent.list, listBytes, List.length_append, Width.length_field, Width.bytes,
    List.length_cons, List.length_nil]
  omega

/-- What `amqp_decode` makes of the frame of a list of arguments. -/
theorem amqpDecode_list (hcode : code ≠ .transfer)
    (hinit : initPacket code.toByte (Sent.list code.toByte ts h).node = .ok r)
    (htype : UInt8.ofInt type = 0 ∨ UInt8.ofInt type = 1) :
    amqpDecode (frame doff type channel (Sent.list code.toByte ts h).out)
        (frame doff type channel (Sent.list code.toByte ts h).out).length =
      .ok (.ref {
        code := .is code.toByte
        doff := .is (UInt8.ofInt doff).toNat
        type := .is (UInt8.ofInt type).toNat
        channel := .is (UInt16.ofInt channel).toInt16.toInt
        packet := .ofRead r }) := by
  have hlen := length_list_out code h
  exact amqpDecode_reads doff type channel hcode (Sent.list code.toByte ts h).reads (by omega)
    (by omega) rfl hinit htype

end List

end IotClient.Amqp
