import IotClient.Amqp.Frame
import IotClient.Amqp.Sendable

/-!
# Frames as long as they say

`framedPacket_right`: the frame of a packet is as long as the length in front of it says, and
consists of the header, the argument list and the `DATA` sections in order. What `realloc` adds for
a section is what the section then fills (`appendSections_data`).
-/

namespace IotClient.Amqp

open Mem

/-! ### Sections -/

/-- A `DATA` section in a packet. -/
def dataEntry (data : List UInt8) : SectionEntry :=
  ⟨SectionCode.data.toByte, .ref ⟨.ref data, .is data.length⟩⟩

/-- The descriptor, code and length of a `DATA` section of at most 255 bytes. -/
def sectionHeader (data : List UInt8) : List UInt8 :=
  [0, AmqpType.smallUlong.toByte, SectionCode.data.toByte, AmqpType.binary8.toByte,
    UInt8.ofNat data.length]

/-- A `DATA` section of at most 255 bytes in a frame. -/
def sectionBytes (data : List UInt8) : List UInt8 := sectionHeader data ++ data

/-- The transfer has the sections. -/
def AmqpTransfer.Carries (p : AmqpTransfer) (bodies : List (List UInt8)) : Prop :=
  p.sections = .null ∧ bodies = [] ∨
    p.sections = .ref (bodies.map dataEntry) ∧ p.sectionNumber = .ref (.is bodies.length)

/-- The node of a binary keeps its data. -/
theorem wrapBinary_short {data : List UInt8} (h : data.length ≤ 255) :
    ∃ tlv, wrapBinary data data.length = .ok tlv ∧ tlv.code = .is AmqpType.binary8.toByte ∧
      tlv.valueArray = .ref data ∧ tlv.length = .is ((2 + data.length : Nat) : Int) := by
  have htype : (if (data.length : Int) > 255 then AmqpType.binary32 else .binary8) = .binary8 :=
    if_neg (by omega)
  have hwidth : variableWidth data.length = 1 := if_neg (by omega)
  have hvalue : valueBytes data data.length = .ok data := by
    have hdata := valueBytes_eq data []
    rwa [List.append_nil] at hdata
  unfold wrapBinary initTlvVariable
  rw [htype, hvalue, ok_bind, hwidth, if_pos rfl, allocBytes_eq (by simp; omega), ok_bind]
  refine ⟨_, rfl, rfl, rfl, ?_⟩
  show Cell.is ((data.length : Int) + 1 + 1) = _
  rw [Cell.is.injEq]
  omega

theorem length_sectionBytes (data : List UInt8) : (sectionBytes data).length = 5 + data.length := by
  rw [sectionBytes, List.length_append]
  rfl

/-- The section is as long as what is allocated for it. -/
theorem addSection_data {data : List UInt8} (h : data.length ≤ 255) :
    addSection (dataEntry data) = .ok { TlvList.fresh with
      length := .is ((sectionBytes data).length : Int)
      bytes := .ref ((sectionBytes data).map some) } := by
  obtain ⟨tlv, htlv, hcode, hvalue, hlength⟩ := wrapBinary_short h
  have hkind : SectionCode.ofByte SectionCode.data.toByte = some .data := rfl
  have htotal : 3 + ((2 + data.length : Nat) : Int) = ((5 + data.length : Nat) : Int) := by omega
  have hrest : ((2 + data.length : Nat) : Int) - 2 = data.length := by omega
  have hcopy : copyOut data 0 data.length = .ok data :=
    copyOut_drop (s := []) (List.append_nil data).symm
  have hheader : (Block.malloc (5 + data.length)).copyIn 0 ((sectionHeader data).map some) 5 =
      .ok ((sectionHeader data).map some ++ Block.malloc data.length) := by
    rw [Block.malloc_add]
    exact copyIn_over _ (Block.malloc 5) _ rfl rfl
  have hdata : Block.copyIn ((sectionHeader data).map some ++ Block.malloc data.length) 5
      (data.map some) data.length = .ok ((sectionBytes data).map some) := by
    have hall := Block.copyIn_all ((sectionHeader data).map some) (data.map some) data.length
      (i := 5) (n := data.length) rfl (by rw [List.length_map]) (by rw [List.length_map])
    rw [List.length_map, Nat.sub_self] at hall
    rw [hall, sectionBytes, List.map_append]
    exact congrArg Except.ok (List.append_nil _)
  unfold addSection dataEntry
  simp only [hkind, Ptr.deref_ref, ok_bind, Cell.get_is, htlv, hcode, hvalue, hlength, htotal,
    hrest, hcopy, byte_ofInt_natCast, Block.alloc_natCast, length_sectionBytes, pure_eq_ok]
  refine bind_eq_ok.2 ⟨_, hheader, ?_⟩
  rw [hdata, ok_bind]

/-- The buffer grows by each section and is filled with it. -/
theorem appendSections_data (bodies : List (List UInt8)) (hshort : ∀ b ∈ bodies, b.length ≤ 255)
    (buf : Block) :
    appendSections (bodies.map dataEntry) buf buf.length =
      .ok (buf ++ (bodies.map sectionBytes).flatten.map some,
        ((buf.length + (bodies.map sectionBytes).flatten.length : Nat) : Int)) := by
  induction bodies generalizing buf with
  | nil =>
    show Except.ok (buf, (buf.length : Int)) = .ok (buf ++ [], _)
    rw [List.append_nil]
    rfl
  | cons body bodies ih =>
    rw [List.forall_mem_cons] at hshort
    have hgrown := Block.copyIn_all buf ((sectionBytes body).map some) (sectionBytes body).length
      (i := buf.length) (n := (sectionBytes body).length) rfl (by rw [List.length_map])
      (by rw [List.length_map])
    rw [List.length_map, Nat.sub_self, show Block.malloc 0 = [] from rfl, List.append_nil]
      at hgrown
    have hlength : (buf.length : Int) + (sectionBytes body).length =
        (buf ++ (sectionBytes body).map some).length := by
      rw [List.length_append, List.length_map, Int.natCast_add]
    have hrest := ih hshort.2 (buf ++ (sectionBytes body).map some)
    rw [List.map_cons, appendSections, addSection_data hshort.1]
    simp only [ok_bind, Cell.get_is, Block.alloc_natCast, Int.toNat_natCast, Ptr.deref_ref, hgrown]
    rw [hlength, hrest]
    simp only [List.map_cons, List.flatten_cons, List.map_append, List.append_assoc,
      List.length_append, List.length_map, Nat.add_assoc]

theorem transferSections_data {header : AmqpHeader} {p : AmqpTransfer}
    {bodies : List (List UInt8)} (hpacket : header.packet = .ref (.transfer p))
    (hsections : p.Carries bodies) (hshort : ∀ b ∈ bodies, b.length ≤ 255) (buf : Block) :
    transferSections header buf buf.length =
      .ok (buf ++ (bodies.map sectionBytes).flatten.map some,
        ((buf.length + (bodies.map sectionBytes).flatten.length : Nat) : Int)) := by
  refine bind_eq_ok.2 ⟨p, ?_, ?_⟩
  · rw [castPacket, hpacket]
    rfl
  rcases hsections with ⟨hnull, rfl⟩ | ⟨hsections, hnumber⟩
  · rw [hnull, Ptr.nonNull_null, ok_bind]
    exact appendSections_data [] hshort buf
  · rw [hsections, hnumber, Ptr.nonNull_ref, ok_bind, if_pos rfl, Ptr.deref_ref, ok_bind,
      Cell.get_is, ok_bind, Int.toNat_natCast]
    have helems := Ptr.elems_ref (bodies.map dataEntry)
    rw [List.length_map] at helems
    rw [helems, ok_bind]
    exact appendSections_data bodies hshort buf

/-! ### The frame -/

/-- The frame of a packet with its sections: the length, the header, the argument list and the
sections. -/
def FrameRight (header : AmqpHeader) (doff type channel : Int) (sections : List UInt8) : Prop :=
  ∃ l arguments data, addArguments header = .ok (.ref l) ∧ Holds l.node arguments ∧
    amqpEncode header = .ok (data.map some, (data.length : Int)) ∧
    data = intBytes (UInt32.ofNat data.length) ++
      (headerBytes doff type channel ++ (arguments ++ sections))

section Frame

variable {header : AmqpHeader} {l : TlvList} {out : List UInt8} {doff type channel : Int}

theorem frameRight_of_encode {sections : List UInt8} (hargs : addArguments header = .ok (.ref l))
    (hl : Holds l.node out)
    (hencode : amqpEncode header = .ok ((frame doff type channel (out ++ sections)).map some,
      (frame doff type channel (out ++ sections)).length)) :
    FrameRight header doff type channel sections := by
  refine ⟨l, out, _, hargs, hl, hencode, ?_⟩
  rw [length_frame]
  rfl

theorem frameRight_of_holds {code : HeaderCode} (hcode : header.code = .is code.toByte)
    (hframed : code ≠ .proto ∧ code ≠ .ping ∧ code ≠ .transfer)
    (hargs : addArguments header = .ok (.ref l)) (hl : Holds l.node out)
    (hdoff : header.doff = .is doff) (htype : header.type = .is type)
    (hchannel : header.channel = .is channel) : FrameRight header doff type channel [] := by
  refine frameRight_of_encode hargs hl ?_
  rw [List.append_nil, ← encodeFrame_eq hframed.2.2 hargs hl hdoff htype hchannel, amqpEncode,
    hcode, Cell.get_is, ok_bind, HeaderCode.ofByte_toByte]
  cases code <;> simp_all

/-- The length is filled in after the sections. -/
theorem frameBody_sections (out sections : List UInt8) :
    ((frameBody doff type channel out) ++ sections.map some).copyIn 0
        ((intBytes (UInt32.ofInt (8 + (out ++ sections).length : Nat))).map some) 4 =
      .ok ((frame doff type channel (out ++ sections)).map some) := by
  have hbody : frameBody doff type channel out ++ sections.map some =
      frameBody doff type channel (out ++ sections) := by
    simp only [frameBody, List.map_append, List.append_assoc]
  rw [hbody, ← frameBody_copyIn]
  rfl

theorem length_frameBody (out : List UInt8) :
    (frameBody doff type channel out).length = 8 + out.length := by
  simp only [frameBody, List.length_append, Block.length_malloc, List.length_map,
    length_headerBytes]
  omega

theorem frameRight_transfer {p : AmqpTransfer} {bodies : List (List UInt8)}
    (hcode : header.code = .is HeaderCode.transfer.toByte)
    (hpacket : header.packet = .ref (.transfer p)) (hsections : p.Carries bodies)
    (hshort : ∀ b ∈ bodies, b.length ≤ 255) (hargs : addArguments header = .ok (.ref l))
    (hl : Holds l.node out) (hdoff : header.doff = .is doff) (htype : header.type = .is type)
    (hchannel : header.channel = .is channel) :
    FrameRight header doff type channel (bodies.map sectionBytes).flatten := by
  have hbefore : (8 : Int) + out.length = (frameBody doff type channel out).length := by
    rw [length_frameBody, Int.natCast_add]
    rfl
  have hafter : (frameBody doff type channel out).length + (bodies.map sectionBytes).flatten.length =
      8 + (out ++ (bodies.map sectionBytes).flatten).length := by
    rw [length_frameBody, List.length_append, Nat.add_assoc]
  refine frameRight_of_encode hargs hl ?_
  rw [amqpEncode, hcode, Cell.get_is, ok_bind]
  show encodeFrame HeaderCode.transfer.toByte header = _
  rw [encodeFrame_body hargs hl hdoff htype hchannel, if_pos rfl, hbefore,
    transferSections_data hpacket hsections hshort, ok_bind, hafter]
  simp only [frameBody_sections, ok_bind, pure_eq_ok, length_frame]

end Frame

/-- A packet of the client, with its sections. -/
inductive FramedPacket where
  | init (p : SaslInit) (h : p.Sendable) (hresponse : p.initialResponse ≠ .null)
  | open (p : AmqpOpen) (h : p.Sendable (0 ≤ ·))
  | begin (p : AmqpBegin) (h : p.Sendable (0 ≤ ·))
  | attach (p : AmqpAttach) (h : p.Sendable (0 ≤ ·))
  | transfer (p : AmqpTransfer) (h : p.Sendable (0 ≤ ·)) (haborted : p.aborted = .null)
    (bodies : List (List UInt8)) (hsections : p.Carries bodies)
    (hshort : ∀ b ∈ bodies, b.length ≤ 255)
  | disposition (p : AmqpDisposition) (h : p.Sendable (0 ≤ ·))
  | detach (p : AmqpDetach) (h : p.Sendable (0 ≤ ·))
  | amqpEnd (packet : Ptr Packet)
  | close (packet : Ptr Packet)

namespace FramedPacket

def code : FramedPacket → HeaderCode
  | init .. => .init
  | .open .. => .open
  | .begin .. => .begin
  | attach .. => .attach
  | transfer .. => .transfer
  | disposition .. => .disposition
  | detach .. => .detach
  | amqpEnd .. => .amqpEnd
  | close .. => .close

def packet : FramedPacket → Ptr Packet
  | init p .. => .ref (.init p)
  | .open p _ => .ref (.open p)
  | .begin p _ => .ref (.begin p)
  | attach p _ => .ref (.attach p)
  | transfer p .. => .ref (.transfer p)
  | disposition p _ => .ref (.disposition p)
  | detach p _ => .ref (.detach p)
  | amqpEnd packet => packet
  | close packet => packet

/-- The header of the packet. -/
def header (x : FramedPacket) (doff type channel : Int) : AmqpHeader :=
  ⟨.is x.code.toByte, .is doff, .is type, .is channel, x.packet⟩

/-- The sections in the frame. -/
def sections : FramedPacket → List UInt8
  | transfer _ _ _ bodies _ _ => (bodies.map sectionBytes).flatten
  | _ => []

/-- What an encoder of non-negative numbers makes is written whole. -/
theorem holds_of_makes {arguments : Run (Ptr TlvList)} {code : UInt8} {ts : List Slot}
    (h : Makes arguments code ts (∀ n : Int, 0 ≤ n → 0 ≤ n)) :
    ∃ l out, arguments = .ok (.ref l) ∧ Holds l.node out := by
  obtain ⟨l, hl, -, hholds⟩ := h
  obtain ⟨out, hout⟩ := hholds fun _ => id
  exact ⟨l, out, hl, hout⟩

theorem arguments_holds (x : FramedPacket) (doff type channel : Int) :
    ∃ l out, addArguments (x.header doff type channel) = .ok (.ref l) ∧ Holds l.node out := by
  cases x with
  | init p h hresponse => exact holds_of_makes (initArguments_makes h (absurd · hresponse))
  | «open» p h => exact holds_of_makes (openArguments_makes h)
  | «begin» p h => exact holds_of_makes (beginArguments_makes h)
  | attach p h => exact holds_of_makes (attachArguments_makes h)
  | transfer p h haborted => exact holds_of_makes (transferArguments_makes h haborted)
  | disposition p h => exact holds_of_makes (dispositionArguments_makes h)
  | detach p h => exact holds_of_makes (detachArguments_makes h)
  | amqpEnd =>
    obtain ⟨l, hl, hholds⟩ := emptyArguments_holds .amqpEnd
    exact ⟨l, _, hl, hholds⟩
  | close =>
    obtain ⟨l, hl, hholds⟩ := emptyArguments_holds .close
    exact ⟨l, _, hl, hholds⟩

end FramedPacket

/-- Each packet is framed with the length that the frame has. -/
theorem framedPacket_right (x : FramedPacket) (doff type channel : Int) :
    FrameRight (x.header doff type channel) doff type channel x.sections := by
  obtain ⟨l, out, hargs, hl⟩ := x.arguments_holds doff type channel
  cases x with
  | transfer p h haborted bodies hsections hshort =>
    exact frameRight_transfer rfl rfl hsections hshort hargs hl rfl rfl rfl
  | _ => exact frameRight_of_holds rfl ⟨nofun, nofun, nofun⟩ hargs hl rfl rfl rfl

/-- A settled transfer of two sections. -/
def twoSections : FramedPacket :=
  .transfer {
    handle := .ref 1
    deliveryId := .ref 1
    deliveryTag := .null
    deliveryTagLength := .indet
    messageFormat := .ref ⟨.is 0⟩
    settled := .ref 1
    more := .null
    rcvSettleMode := .null
    state := .null
    resume := .null
    aborted := .null
    batchable := .null
    sections := .ref [dataEntry [0x68], dataEntry [0x69, 0x21]]
    sectionNumber := .ref (.is 2) }
    ⟨Int.one_nonneg, Int.one_nonneg, trivial, ⟨0, rfl, Int.le_refl 0⟩, trivial, trivial, trivial,
      trivial, trivial, trivial, trivial⟩ rfl [[0x68], [0x69, 0x21]] (.inr ⟨rfl, rfl⟩) (by decide)

example : amqpEncode (twoSections.header 2 0 0) = .ok (List.map some [0, 0, 0, 34, 2, 0, 0, 0, 0,
    0x53, 0x14, 0xc0, 7, 5, 0x52, 1, 0x52, 1, 0x40, 0x43, 0x41, 0, 0x53, 0x75, 0xa0, 1, 0x68, 0,
    0x53, 0x75, 0xa0, 2, 0x69, 0x21], 34) := rfl

end IotClient.Amqp
