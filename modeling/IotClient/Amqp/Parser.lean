import IotClient.Amqp.HeaderFactory
import IotClient.Amqp.Wrapper

/-!
# `amqp/amqp_parser.c`

`addArguments` makes the list of a performative, `amqpEncode` the frame, `amqpDecode` reads a
frame. `addArguments` returns `NULL` when a field it asks for is absent; `amqpEncode` does not
look at that. The lists of the codes that have no case are as `malloc` leaves them.
-/

namespace IotClient.Amqp

open Mem

/-! ### Arguments -/

/-- A field of a SASL-Init; the entry of an absent one is not assigned, and its null is not
counted. -/
def initField {α : Type} (count : Int) (p : Ptr α) (wrap : α → Run TlvAmqp) (list : TlvList) :
    Run TlvList := do
  if ← p.nonNull then
    let tlv ← wrap (← p.deref)
    let size ← list.size.get
    let length ← tlv.length.get
    pure { list with
      list := list.list ++ [tlv], count := .is count, size := .is (size + length) }
  else pure { list with list := list.list ++ [TlvAmqp.fresh] }

def initArguments (init : SaslInit) : Run (Ptr TlvList) := do
  if ← init.mechanism.nonNull then
    let list := { TlvList.fresh with width := .is 1, size := .is 0 }
    let list ← initField 1 init.mechanism wrapSymbol list
    let list ← initField 2 init.initialResponse
      (fun array => do wrapBinary array (← init.initialResponseLength.get)) list
    let list ← initField 3 init.hostName wrapString list
    let list ← calculateBytes list HeaderCode.init.toByte
    pure (.ref list)
  else pure .null

def openArguments (p : AmqpOpen) : Run (Ptr TlvList) := do
  if ← p.containerId.nonNull then
    let a ← field 1 p.containerId wrapString .empty
    let a ← field 2 p.hostname wrapString a
    let a ← field 3 p.maxFrameSize wrapLong a
    let a ← field 4 p.channelMax wrapInt a
    let a ← field 5 p.idleTimeout wrapLong a
    let list ← a.finish HeaderCode.open.toByte
    pure (.ref list)
  else pure .null

/-- The third check is of `incoming_window` again, not of `outgoing_window`. -/
def beginArguments (p : AmqpBegin) : Run (Ptr TlvList) := do
  let a ← field 1 p.remoteChannel wrapInt .empty
  if ← p.nextOutgoingId.nonNull then
    let a ← field 2 p.nextOutgoingId wrapLong a
    if ← p.incomingWindow.nonNull then
      let a ← field 3 p.incomingWindow wrapLong a
      let a ← field 4 p.outgoingWindow wrapLong a
      let a ← field 5 p.handleMax wrapLong a
      let a ← fieldPtr 6 p.offeredCapabilities wrapNothing a
      let a ← fieldPtr 7 p.desiredCapabilities wrapNothing a
      let a ← fieldPtr 8 p.properties wrapNothing a
      let list ← a.finish HeaderCode.begin.toByte
      pure (.ref list)
    else pure .null
  else pure .null

/-- An `int` stored in a `short`. -/
def toShort (n : Int) : Int := (Int16.ofInt n).toInt

/-- The pointer `attach.role` is compared with `SENDER`, which is 0. -/
def deliveryCount (p : AmqpAttach) (a : Args) : Run (Option Args) := do
  if ← p.initialDeliveryCount.nonNull then some <$> field 10 p.initialDeliveryCount wrapLong a
  else if ← p.role.nonNull then pure (some a.skip)
  else pure none

def attachArguments (p : AmqpAttach) : Run (Ptr TlvList) := do
  if ← p.name.nonNull then
    let a ← field 1 p.name wrapString .empty
    if ← p.handle.nonNull then
      let a ← field 2 p.handle wrapLong a
      if ← p.role.nonNull then
        let a ← field 3 p.role (fun role => wrapBool role.toInt) a
        let a ← field 4 p.sndSettleMode (fun mode => wrapShort (toShort mode)) a
        let a ← field 5 p.rcvSettleMode (fun mode => wrapShort (toShort mode)) a
        let a ← fieldPtr 6 p.source wrapAmqpSource a
        let a ← fieldPtr 7 p.target wrapAmqpTarget a
        let a ← fieldPtr 8 p.unsettled wrapNothing a
        let a ← field 9 p.incompleteUnsettled wrapInt a
        match ← deliveryCount p a with
        | none => pure .null
        | some a => do
          let a ← field 11 p.maxMessageSize wrapLong a
          let a ← fieldPtr 12 p.offeredCapabilities wrapNothing a
          let a ← fieldPtr 13 p.desiredCapabilities wrapNothing a
          let a ← fieldPtr 14 p.properties wrapNothing a
          let list ← a.finish HeaderCode.attach.toByte
          pure (.ref list)
      else pure .null
    else pure .null
  else pure .null

/-- The node of `aborted` is stored in `resume`, so the one whose length is read is `NULL`. -/
def wrapAborted (aborted : Int) : Run (Ptr TlvAmqp) := do
  let _ ← wrapBool aborted
  pure .null

def transferArguments (p : AmqpTransfer) : Run (Ptr TlvList) := do
  if ← p.handle.nonNull then
    let a ← field 1 p.handle wrapLong .empty
    let a ← field 2 p.deliveryId wrapLong a
    let a ← field 3 p.deliveryTag
      (fun tag => do wrapBinary tag (← p.deliveryTagLength.deref)) a
    let a ← field 4 p.messageFormat (fun m => do wrapLong (← m.messageFormat.get)) a
    let a ← field 5 p.settled wrapBool a
    let a ← field 6 p.more wrapBool a
    let a ← field 7 p.rcvSettleMode (fun mode => wrapShort (toShort mode)) a
    let a ← field 8 p.state wrapState a
    let a ← field 9 p.resume wrapBool a
    let a ← fieldPtr 10 p.aborted wrapAborted a
    let a ← field 11 p.batchable wrapBool a
    let list ← a.finish HeaderCode.transfer.toByte
    pure (.ref list)
  else pure .null

def dispositionArguments (p : AmqpDisposition) : Run (Ptr TlvList) := do
  if ← p.role.nonNull then
    if ← p.first.nonNull then
      let a ← field 1 p.role (fun role => wrapBool role.toInt) .empty
      let a ← field 2 p.first wrapLong a
      let a ← field 3 p.last wrapLong a
      let a ← field 4 p.settled wrapBool a
      let a ← field 5 p.state wrapState a
      let a ← field 6 p.batchable wrapBool a
      let list ← a.finish HeaderCode.disposition.toByte
      pure (.ref list)
    else pure .null
  else pure .null

def detachArguments (p : AmqpDetach) : Run (Ptr TlvList) := do
  if ← p.handle.nonNull then
    let a ← field 1 p.handle wrapLong .empty
    let a ← field 2 p.closed wrapBool a
    let a ← field 3 p.error wrapAmqpError a
    let list ← a.finish HeaderCode.detach.toByte
    pure (.ref list)
  else pure .null

/-- The only argument of an END or CLOSE is a null; here `size` counts the count, too. -/
def emptyArguments (code : HeaderCode) : Run (Ptr TlvList) := do
  let list ← calculateBytes { TlvList.fresh with
    list := [wrapNull], size := .is 2, width := .is 1, count := .is 1 } code.toByte
  pure (.ref list)

/-- The packet of a header, read as that of its code. -/
def castPacket {α : Type} (header : AmqpHeader) (cast : Packet → Option α) : Run α := do
  match cast (← header.packet.deref) with
  | some p => pure p
  | none => .error .badCast

def addArguments (header : AmqpHeader) : Run (Ptr TlvList) := do
  match HeaderCode.ofByte (← header.code.get) with
  | some .init => do
    initArguments (← castPacket header fun | .init p => some p | _ => none)
  | some .open => do
    openArguments (← castPacket header fun | .open p => some p | _ => none)
  | some .begin => do
    beginArguments (← castPacket header fun | .begin p => some p | _ => none)
  | some .attach => do
    attachArguments (← castPacket header fun | .attach p => some p | _ => none)
  | some .transfer => do
    transferArguments (← castPacket header fun | .transfer p => some p | _ => none)
  | some .disposition => do
    dispositionArguments (← castPacket header fun | .disposition p => some p | _ => none)
  | some .detach => do
    detachArguments (← castPacket header fun | .detach p => some p | _ => none)
  | some .close => emptyArguments .close
  | some .amqpEnd => emptyArguments .amqpEnd
  | some .flow | some .mechanisms | some .challenge | some .response | some .outcome
  | some .ping | some .proto | none => pure (.ref .fresh)

/-! ### Frames -/

/-- The length and bytes of a section; those of any other section than `DATA` are not assigned.
The data are copied from `value_array`, as many bytes as the node has after its first two. -/
def addSection (entry : SectionEntry) : Run TlvList :=
  match SectionCode.ofByte entry.code with
  | some .data => do
    let data ← entry.sectionData.deref
    let array ← data.data.deref
    let tlv ← wrapBinary array (← data.dataLength.get)
    let length ← tlv.length.get
    let totalSize := 3 + length
    let bytes ← Block.alloc totalSize
    let bytes ← bytes.copyIn 0
      ([0, AmqpType.smallUlong.toByte, entry.code, ← tlv.code.get, UInt8.ofInt (length - 2)].map some) 5
    let value ← copyOut (← tlv.valueArray.deref) 0 (length - 2)
    let bytes ← bytes.copyIn 5 (value.map some) (length - 2)
    pure { TlvList.fresh with length := .is totalSize, bytes := .ref bytes }
  | _ => pure .fresh

/-- The loop over the sections: each is appended to `buf`, which grows with `length`. -/
def appendSections : List SectionEntry → Block → Int → Run (Block × Int)
  | [], buf, length => pure (buf, length)
  | entry :: sections, buf, length => do
    let list ← addSection entry
    let n ← list.length.get
    let grown ← Block.alloc n
    let buf ← (buf ++ grown).copyIn length.toNat (← list.bytes.deref) n
    appendSections sections buf (length + n)

def transferSections (header : AmqpHeader) (buf : Block) (length : Int) : Run (Block × Int) := do
  let transfer ← castPacket header fun | .transfer p => some p | _ => none
  if ← transfer.sections.nonNull then
    let number ← (← transfer.sectionNumber.deref).get
    appendSections (← transfer.sections.elems number.toNat) buf length
  else pure (buf, length)

/-- The bytes from `doff` on. -/
def putHeader (header : AmqpHeader) : Enc Unit := do
  Enc.put (UInt8.ofInt (← Enc.lift header.doff.get))
  Enc.put (UInt8.ofInt (← Enc.lift header.type.get))
  addShort (UInt16.ofInt (← Enc.lift header.channel.get))

def encodeProto (header : AmqpHeader) : Run (Block × Int) := do
  let proto ← castPacket header fun | .proto p => some p | _ => none
  let buf ← Enc.blockOf 8 do
    Enc.copy (← Enc.lift proto.protocol.deref).bytes
    Enc.put (UInt8.ofInt (← Enc.lift proto.protocolId.get))
    Enc.put (UInt8.ofInt (← Enc.lift proto.versionMajor.get))
    Enc.put (UInt8.ofInt (← Enc.lift proto.versionMinor.get))
    Enc.put (UInt8.ofInt (← Enc.lift proto.versionRevision.get))
  pure (buf, 8)

def encodePing (header : AmqpHeader) : Run (Block × Int) := do
  let buf ← Enc.blockOf 8 do
    Enc.copy (intBytes 8)
    putHeader header
  pure (buf, 8)

def encodeFrame (code : UInt8) (header : AmqpHeader) : Run (Block × Int) := do
  let arguments ← (← addArguments header).deref
  let argumentsLength ← arguments.length.get
  let length := 8 + argumentsLength
  let buf ← Block.alloc length
  -- the length is filled in at the end
  let buf ← buf.copyIn 4 (← Enc.blockOf 4 (putHeader header)) 4
  let buf ← buf.copyIn 8 (← arguments.bytes.deref) argumentsLength
  let (buf, length) ← if code = HeaderCode.transfer.toByte then transferSections header buf length
    else pure (buf, length)
  let buf ← buf.copyIn 0 ((intBytes (UInt32.ofInt length)).map some) 4
  pure (buf, length)

/-- The frame and its length. -/
def amqpEncode (header : AmqpHeader) : Run (Block × Int) := do
  let code ← header.code.get
  match HeaderCode.ofByte code with
  | some .proto => encodeProto header
  | some .ping => encodePing header
  | _ => encodeFrame code header

/-- The loop over the sections of a received transfer. `section_number` gets the index of the
last one, and `sections` has room for one entry. -/
def readSections (data : List UInt8) (stop : Int) :
    Nat → Nat → Cell Int → List SectionEntry → Run (Cell Int × List SectionEntry)
  | 0, i, number, sections => if i < stop then .error .fuel else pure (number, sections)
  | fuel + 1, i, number, sections =>
    if i < stop then do
      let (entry, i) ← getSection data i
      let entry ← entry.deref
      if sections.length < 1 then
        readSections data stop fuel i (.is sections.length) (sections ++ [entry])
      else .error .writeOut
    else pure (number, sections)

/-- A frame whose length and header were checked. -/
def decodeFrame (data : List UInt8) (readableBytes : Int) (doff type : UInt8) (channel : Int) :
    Run AmqpHeader := do
  let (header, i) ← getAmqp data 8
  let header := { header with
    doff := .is doff.toNat, type := .is type.toNat, channel := .is channel }
  if (← header.code.get) = HeaderCode.transfer.toByte then
    let transfer ← castPacket header fun | .transfer p => some p | _ => none
    let (number, sections) ← readSections data (readableBytes + 8) data.length i .indet []
    pure { header with packet := .ref (.transfer { transfer with
      sectionNumber := .ref number, sections := .ref sections }) }
  else pure header

/-- A ping is returned as `malloc` left the header. -/
def amqpDecode (data : List UInt8) (readableBytes : Int) : Run (Ptr AmqpHeader) := do
  let length ← getInt data 0
  let doff ← rd data 4
  let type ← rd data 5
  let channel := (← getShort data 6).toInt16.toInt
  let readableBytes := readableBytes - 8
  if length = 8 ∧ doff = 2 ∧ (type = 0 ∨ type = 1) ∧ channel = 0 then
    if readableBytes = 0 then pure (.ref .fresh) else pure .null
  else if length = 1095586128 ∧ (doff = 3 ∨ doff = 0) ∧ type = 1 ∧ channel = 0 then
    if readableBytes = 0 then
      pure (.ref {
        code := .is HeaderCode.proto.toByte
        doff := .is 0
        type := .is 0
        channel := .is 0
        packet := .ref (.proto {
          protocol := .indet
          protocolId := .is doff.toNat
          versionMajor := .indet
          versionMinor := .indet
          versionRevision := .indet }) })
    else pure .null
  else if length ≠ readableBytes + 8 then pure .null
  else if type = 0 ∨ type = 1 then .ref <$> decodeFrame data readableBytes doff type channel
  else pure .null

end IotClient.Amqp
