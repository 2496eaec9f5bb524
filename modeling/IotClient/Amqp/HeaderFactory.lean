import IotClient.Amqp.TlvFactory
import IotClient.Amqp.Unwrapper

/-!
# `amqp/header_factory.c`

`init_header` makes a packet from the nodes of an argument list. A field is assigned only when
the list has a node for it; otherwise it stays as `malloc` left it. A return before the end
leaves the header's `packet` unassigned, which is `none` here.
-/

namespace IotClient.Amqp

open Mem

/-! ### Arguments -/

/-- `list->list[k]` -/
def TlvAmqp.element (list : TlvAmqp) (k : Nat) : Run TlvAmqp := do
  match (← list.list.deref)[k]? with
  | some element => pure element
  | none => .error .readOut

/-- The code of the null element, which the source writes as 64. -/
def nullCode : UInt8 := 64

/-- An argument whose node is unwrapped whatever its code. -/
def required {α : Type} (list : TlvAmqp) (k : Nat) (unwrap : TlvAmqp → Run (Ptr α)) :
    Run (Ptr α) := do
  if (← list.count.deref) > k then
    unwrap (← list.element k)
  else pure .indet

/-- An argument that is left alone when its node is a null. -/
def optional {α : Type} (list : TlvAmqp) (k : Nat) (unwrap : TlvAmqp → Run (Ptr α)) :
    Run (Ptr α) := do
  if (← list.count.deref) > k then
    let element ← list.element k
    if (← element.code.get) ≠ nullCode then unwrap element else pure .indet
  else pure .indet

/-- A pointer to a copy of what an unwrap function points at. -/
def copied {α β : Type} (f : α → β) (unwrap : TlvAmqp → Run (Ptr α)) (tlv : TlvAmqp) :
    Run (Ptr β) := do
  pure (.ref (f (← (← unwrap tlv).deref)))

/-- `unwrap_array(element)[0]` -/
def unwrapArrayHead (tlv : TlvAmqp) : Run (Ptr Unwrapped) := do
  match ← (← unwrapArray tlv).deref with
  | [] => .error .readOut
  | value :: _ => pure value

/-- `unwrap_symbol(element)->value`, stored as a pointer to an enumerator. -/
def unwrapSymbolChars {α : Type} (tlv : TlvAmqp) : Run (Ptr (EnumOrChars α)) := do
  let symbol ← (← unwrapSymbol tlv).deref
  pure (symbol.value.map .chars)

/-- `constructor->tlv->value_array[0]`, the code in a descriptor. -/
def TlvConstructor.descriptorCode (constructor : TlvConstructor TlvAmqp) : Run UInt8 := do
  (← constructor.tlv.deref).firstByte

def TlvAmqp.descriptorCode (tlv : TlvAmqp) : Run UInt8 := do
  (← tlv.constructor.deref).descriptorCode

def TlvAmqp.isList (tlv : TlvAmqp) : Run Bool := tlv.hasCode [.list0, .list8, .list32]

/-! ### Termini, states and errors -/

def getOutcome (tlv : TlvAmqp) : Run (Ptr AmqpOutcome) := do
  let code ← tlv.descriptorCode
  if code ∈ stateCodes then pure (.ref ⟨.is code⟩) else pure .null

def unwrapState (tlv : TlvAmqp) : Run (Ptr AmqpState) := do
  let code ← tlv.descriptorCode
  pure (.ref ⟨.is code⟩)

/-- The `dynamic_node_properties` of a source or target: `none` is the return for a `dynamic`
flag that is false or absent. -/
def readNodeProperties (list : TlvAmqp) (dynamic : Ptr Int) :
    Run (Option (Ptr AmqpSymbolVoidEntry)) := do
  if (← list.count.deref) > 5 then
    let element ← list.element 5
    if (← element.code.get) ≠ nullCode then
      if ← dynamic.nonNull then
        if (← dynamic.deref) ≠ 0 then some <$> unwrapNothing element else pure none
      else pure none
    else pure (some .indet)
  else pure (some .indet)

/-- The `default_outcome` of a source: `none` is the return for a node that is no list. -/
def readDefaultOutcome (list : TlvAmqp) : Run (Option (Ptr AmqpOutcome)) := do
  if (← list.count.deref) > 8 then
    let element ← list.element 8
    if (← element.code.get) ≠ nullCode then
      if ← element.isList then some <$> getOutcome element else pure none
    else pure (some .indet)
  else pure (some .indet)

def readSource (list : TlvAmqp) : Run (Option AmqpSource) := do
  let address ← optional list 0 unwrapString
  let durable ← optional list 1 (copied id unwrapUint)
  let expiryPeriod ← optional list 2 unwrapSymbolChars
  let timeout ← optional list 3 unwrapUint
  let dynamic ← optional list 4 unwrapBool
  match ← readNodeProperties list dynamic with
  | none => pure none
  | some dynamicNodeProperties => do
    let distributionMode ← optional list 6 unwrapSymbolChars
    let filter ← optional list 7 unwrapNothing
    match ← readDefaultOutcome list with
    | none => pure none
    | some defaultOutcome => do
      let outcomes ← optional list 9 unwrapArray
      let capabilities ← optional list 10 unwrapArray
      pure (some { address, durable, expiryPeriod, timeout, dynamic, dynamicNodeProperties,
                   distributionMode, filter, defaultOutcome, outcomes, capabilities })

def readTarget (list : TlvAmqp) : Run (Option AmqpTarget) := do
  let address ← optional list 0 unwrapString
  let durable ← optional list 1 (copied id unwrapUint)
  let expiryPeriod ← optional list 2 unwrapSymbolChars
  let timeout ← optional list 3 unwrapUint
  let dynamic ← optional list 4 unwrapBool
  match ← readNodeProperties list dynamic with
  | none => pure none
  | some dynamicNodeProperties => do
    let capabilities ← optional list 6 unwrapArray
    pure (some { address, durable, expiryPeriod, timeout, dynamic, dynamicNodeProperties,
                 capabilities })

def unwrapCondition (tlv : TlvAmqp) : Run (Ptr Int) := do
  let symbol ← (← unwrapSymbol tlv).deref
  pure (.ref (atoi (← symbol.value.deref)))

/-- Argument `k` of an error. The count is that of `list->list[2]`, the node is looked up in
`list->list[5]`. -/
def errorArgument {α : Type} (list : TlvAmqp) (k : Nat) (unwrap : TlvAmqp → Run (Ptr α)) :
    Run (Ptr α) := do
  if (← (← list.element 2).count.deref) > k then
    let element ← (← list.element 5).element k
    if (← element.code.get) ≠ nullCode then unwrap element else pure .indet
  else pure .indet

def readError (list : TlvAmqp) : Run AmqpError := do
  let condition ← errorArgument list 0 unwrapCondition
  let description ← errorArgument list 1 unwrapString
  let info ← errorArgument list 2 unwrapNothing
  pure { condition, description, info }

/-! ### Packets -/

/-- A nested list argument, where the code asks for one: `none` is the return for another node. -/
def optionalList {α : Type} (list : TlvAmqp) (k : Nat) (read : TlvAmqp → Run (Option (Ptr α))) :
    Run (Option (Ptr α)) := do
  if (← list.count.deref) > k then
    let element ← list.element k
    if (← element.code.get) ≠ nullCode then
      if ← element.isList then read element else pure none
    else pure (some .indet)
  else pure (some .indet)

def readChallenge (list : TlvAmqp) : Run (Option Packet) := do
  let count ← list.count.deref
  if count = 0 ∨ count > 1 then pure none
  else do
    let challenge ← required list 0 unwrapBinary
    pure (some (.challenge { challenge }))

def readInit (list : TlvAmqp) : Run (Option Packet) := do
  let count ← list.count.deref
  if count = 0 ∨ count > 3 then pure none
  else do
    let mechanism ← required list 0 unwrapSymbol
    let initialResponse ← optional list 1 unwrapBinary
    let hostName ← optional list 2 unwrapString
    pure (some (.init { mechanism, initialResponse, initialResponseLength := .indet, hostName }))

def readMechanisms (list : TlvAmqp) : Run (Option Packet) := do
  let mechanisms ← optional list 0 unwrapArrayHead
  pure (some (.mechanisms { mechanisms }))

/-- The additional data are looked up in the node of the code. -/
def readOutcome (list : TlvAmqp) : Run (Option Packet) := do
  let count ← list.count.deref
  if count = 0 ∨ count > 2 then pure none
  else do
    let outcomeCode ← (← required list 0 unwrapUbyte).deref
    let additionalData ← if count > 1 then optional list 0 unwrapBinary else pure .indet
    pure (some (.outcome { outcomeCode := .is outcomeCode, additionalData }))

def readOpen (list : TlvAmqp) : Run (Option Packet) := do
  if (← list.count.deref) = 0 then pure none
  else do
    let containerId ← unwrapString (← list.element 0)
    let hostname ← optional list 1 unwrapString
    let maxFrameSize ← optional list 2 unwrapUint
    let channelMax ← optional list 3 unwrapUshort
    let idleTimeout ← optional list 4 unwrapUint
    let outgoingLocales ← optional list 5 unwrapArrayHead
    let incomingLocales ← optional list 6 unwrapArrayHead
    let offeredCapabilities ← optional list 7 unwrapArrayHead
    let desiredCapabilities ← optional list 8 unwrapArrayHead
    let properties ← optional list 9 unwrapNothing
    pure (some (.open { containerId, hostname, maxFrameSize, channelMax, idleTimeout,
                        outgoingLocales, incomingLocales, offeredCapabilities,
                        desiredCapabilities, properties }))

def readBegin (list : TlvAmqp) : Run (Option Packet) := do
  let remoteChannel ← optional list 0 unwrapUshort
  let nextOutgoingId ← required list 1 unwrapUint
  let incomingWindow ← required list 2 unwrapUint
  let outgoingWindow ← required list 3 unwrapUint
  let handleMax ← optional list 4 unwrapUint
  let offeredCapabilities ← optional list 5 unwrapArrayHead
  let desiredCapabilities ← optional list 6 unwrapArrayHead
  let properties ← optional list 7 unwrapNothing
  pure (some (.begin { remoteChannel, nextOutgoingId, incomingWindow, outgoingWindow, handleMax,
                       offeredCapabilities, desiredCapabilities, properties }))

/-- A null delivery count makes a sender's attach return early. -/
def readDeliveryCount (list : TlvAmqp) (role : Ptr RoleCode) : Run (Option (Ptr Int)) := do
  if (← list.count.deref) > 9 then
    let element ← list.element 9
    if (← element.code.get) ≠ nullCode then some <$> unwrapUint element
    else if (← role.deref) = .sender then pure none
    else pure (some .indet)
  else pure (some .indet)

def readAttachSource (list : TlvAmqp) : Run (Option (Ptr AmqpSource)) :=
  optionalList list 5 fun element => do
    match ← readSource element with
    | none => pure none
    | some source => pure (some (.ref source))

/-- The target is read, but never assigned to the attach; its node need not be a list. -/
def readAttachTarget (list : TlvAmqp) : Run (Option (Ptr AmqpTarget)) := do
  if (← list.count.deref) > 6 then
    let element ← list.element 6
    if (← element.code.get) ≠ nullCode then
      match ← readTarget element with
      | none => pure none
      | some _ => pure (some .indet)
    else pure (some .indet)
  else pure (some .indet)

def readAttach (list : TlvAmqp) : Run (Option Packet) := do
  let count ← list.count.deref
  if count < 3 ∨ count > 14 then pure none
  else do
    let name ← required list 0 unwrapString
    let handle ← required list 1 unwrapUint
    let role ← required list 2 (copied RoleCode.ofInt unwrapBool)
    let sndSettleMode ← optional list 3 (copied id unwrapUbyte)
    let rcvSettleMode ← optional list 4 (copied id unwrapUbyte)
    match ← readAttachSource list with
    | none => pure none
    | some source => do
      match ← readAttachTarget list with
      | none => pure none
      | some target => do
        let unsettled ← optional list 7 unwrapNothing
        let incompleteUnsettled ← optional list 8 unwrapBool
        match ← readDeliveryCount list role with
        | none => pure none
        | some initialDeliveryCount => do
          let maxMessageSize ← optional list 10 unwrapUlong
          let offeredCapabilities ← optional list 11 unwrapArray
          let desiredCapabilities ← optional list 12 unwrapArray
          let properties ← optional list 13 unwrapNothing
          pure (some (.attach { name, handle, role, sndSettleMode, rcvSettleMode, source, target,
                                unsettled, incompleteUnsettled, initialDeliveryCount,
                                maxMessageSize, offeredCapabilities, desiredCapabilities,
                                properties }))

def readTransfer (list : TlvAmqp) : Run (Option Packet) := do
  let handle ← required list 0 unwrapUint
  let deliveryId ← optional list 1 unwrapUint
  let deliveryTag ← optional list 2 unwrapBinary
  let messageFormat ← optional list 3 (copied (fun m => ⟨.is m⟩) unwrapUint)
  let settled ← if (← list.count.deref) > 4 then do
      let element ← list.element 4
      -- the one field that is set to `NULL` first
      if (← element.code.get) ≠ nullCode then unwrapBool element else pure .null
    else pure .indet
  let more ← optional list 5 unwrapBool
  let rcvSettleMode ← optional list 6 (copied id unwrapUbyte)
  let state ← optional list 7 unwrapState
  let resume ← optional list 8 unwrapBool
  let aborted ← optional list 9 unwrapBool
  let batchable ← optional list 10 unwrapBool
  pure (some (.transfer { handle, deliveryId, deliveryTag, deliveryTagLength := .indet,
                          messageFormat, settled, more, rcvSettleMode, state, resume, aborted,
                          batchable, sections := .indet, sectionNumber := .indet }))

/-- A null in the place of the first argument, where that returns early. -/
def nullFirst (list : TlvAmqp) : Run Bool := do
  if (← list.count.deref) > 0 then
    pure ((← (← list.element 0).code.get) = nullCode)
  else pure false

def readDisposition (list : TlvAmqp) : Run (Option Packet) := do
  if ← nullFirst list then pure none
  else do
    let role ← required list 0 (copied RoleCode.ofInt unwrapBool)
    let first ← required list 1 unwrapUint
    let last ← optional list 2 unwrapUint
    let settled ← optional list 3 unwrapBool
    match ← optionalList list 4 fun element => some <$> unwrapState element with
    | none => pure none
    | some state => do
      let batchable ← optional list 5 unwrapBool
      pure (some (.disposition { role, first, last, settled, state, batchable }))

/-- An error is looked for in the node of `closed`. -/
def readDetachError (list : TlvAmqp) : Run (Option (Ptr AmqpError)) := do
  if (← list.count.deref) > 2 then
    let element ← list.element 1
    if (← element.code.get) ≠ nullCode then
      if ← element.isList then (fun error => some (.ref error)) <$> readError list
      else pure none
    else pure (some .indet)
  else pure (some .indet)

def readDetach (list : TlvAmqp) : Run (Option Packet) := do
  let count ← list.count.deref
  if count = 0 ∨ count > 3 then pure none
  else do
    if ← nullFirst list then pure none
    else do
      let handle ← required list 0 unwrapUint
      let closed ← optional list 1 unwrapBool
      match ← readDetachError list with
      | none => pure none
      | some error => pure (some (.detach { handle, closed, error }))

/-- The packet `init_header` assigns, by the header's code. -/
def initPacket (code : UInt8) (list : TlvAmqp) : Run (Option Packet) :=
  match HeaderCode.ofByte code with
  | some .challenge => readChallenge list
  | some .init => readInit list
  | some .mechanisms => readMechanisms list
  | some .outcome => readOutcome list
  | some .response => pure (some .response)
  | some .open => readOpen list
  | some .begin => readBegin list
  | some .attach => readAttach list
  | some .flow => pure (some .flow)
  | some .transfer => readTransfer list
  | some .disposition => readDisposition list
  | some .detach => readDetach list
  | some .amqpEnd => pure (some .amqpEnd)
  | some .close => pure (some .close)
  | some .ping | some .proto | none => pure none

/-! ### Headers and sections -/

/-- A header as `malloc` leaves it. -/
def AmqpHeader.fresh : AmqpHeader where
  code := .indet
  doff := .indet
  type := .indet
  channel := .indet
  packet := .indet

def getHeaderEmpty (code : UInt8) : AmqpHeader := { AmqpHeader.fresh with code := .is code }

/-- The header as `init_header` leaves it. -/
def initHeader (header : AmqpHeader) (list : TlvAmqp) : Run AmqpHeader := do
  match ← initPacket (← header.code.get) list with
  | none => pure header
  | some packet => pure { header with packet := .ref packet }

/-- `get_amqp` and `get_sasl`, which are the same; a list of another code is only reported. -/
def getAmqp (data : List UInt8) (i : Nat) : Run (AmqpHeader × Nat) := do
  let (list, i) ← getTlv data i
  let constructor ← list.constructor.deref
  let header ← initHeader (getHeaderEmpty (← constructor.descriptorCode)) list
  pure (header, i)

/-- A section, or `NULL` for any other code than `DATA`. -/
def getSection (data : List UInt8) (i : Nat) : Run (Ptr SectionEntry × Nat) := do
  let (list, i) ← getTlv data i
  let code ← list.descriptorCode
  match SectionCode.ofByte code with
  | some .data => do
    let data ← unwrapBinary list
    pure (.ref ⟨code, .ref ⟨data, list.length⟩⟩, i)
  | _ => pure (.null, i)

end IotClient.Amqp
