import IotClient.Amqp.Client
import IotClient.Amqp.Frame

/-!
# SASL PLAIN (`send_amqp_sasl_init`)

A MECHANISMS frame is answered with one INIT frame (`exchange_mechanisms`). It names the first
mechanism of the array and carries the account's name and password with NULs between them,
which stay data in each of the lengths on the way. What is received is given as AMQP 1.0
values.
-/

namespace IotClient.Amqp

open Mem Machine

/-- The headers that were sent. -/
def sentHeaders (wire : List (Traffic AmqpHeader)) : List AmqpHeader :=
  wire.filterMap fun | .sent header => some header | _ => none

/-- `process_amqp_rx`, with the buffers and lengths that are handed to `raw_fire`. -/
def Client.exchange (c : Client) (data : List UInt8) (readableBytes : Int) :
    Run (Client × List (Block × Int)) := do
  let header ← (← amqpDecode data readableBytes).deref
  let c' ← c.processAmqpRx header
  let fired ← (sentHeaders (c'.wire.drop c.wire.length)).mapM amqpEncode
  pure (c', fired)

/-! ### The received frame -/

def symbolValue (s : CString) : Val := .sized .narrow .symbol s.bytes

def symbolsValue (symbols : List CString) : Val :=
  .array .narrow none .symbol8 (symbols.map symbolValue)

/-- A described list with an array of symbols. -/
def mechanismsValue (descriptor : Val) (symbols : List CString) : Val :=
  .described descriptor (.list .narrow [symbolsValue symbols])

/-- A frame of type 1 whose descriptor, a value of a fixed size, starts with the code. -/
structure MechanismsFrame where
  doff : UInt8
  channel : UInt16
  descriptorType : AmqpType
  descriptorRest : List UInt8
  /-- the first symbol of the array -/
  first : CString
  others : List CString
  ok : (mechanismsValue (.fixed descriptorType (HeaderCode.mechanisms.toByte :: descriptorRest))
    (first :: others)).Ok

namespace MechanismsFrame

variable (m : MechanismsFrame)

def descriptor : Val := .fixed m.descriptorType (HeaderCode.mechanisms.toByte :: m.descriptorRest)

def value : Val := mechanismsValue m.descriptor (m.first :: m.others)

def bytes : List UInt8 := frame m.doff.toNat 1 m.channel.toNat m.value.enc

end MechanismsFrame

/-! ### The reply -/

/-- The name and the password behind an identity, which is the name. -/
def plainResponse (username password : CString) : List UInt8 :=
  username.bytes ++ 0 :: (username.bytes ++ 0 :: password.bytes)

/-- The node is that of a symbol or binary with the bytes `data`. -/
structure TlvAmqp.IsSized (tlv : TlvAmqp) (kind : VariableKind) (data : List UInt8) : Prop where
  code : tlv.code = .is (Width.narrow.variableType kind).toByte
  value : tlv.valueArray = .ref data
  length : tlv.length = .is data.length

/-- The argument list of a reply. -/
structure PlainArguments (mechanism username password : CString) (list : TlvAmqp) : Prop where
  descriptor : list.descriptorCode = .ok HeaderCode.init.toByte
  count : list.count = .ref 2
  elements : ∃ first second, list.list = .ref [first, second] ∧
    first.IsSized .symbol mechanism.bytes ∧
    second.IsSized .binary (plainResponse username password)

/-- `reply` is an INIT frame for the MECHANISMS frame `m`. -/
structure PlainReply (m : MechanismsFrame) (username password : CString) (reply : List UInt8) :
    Prop where
  length_lt : reply.length < 2 ^ 32
  size : reply.take 4 = intBytes (UInt32.ofNat reply.length)
  -- `doff`, `type` and `channel`
  header : (reply.drop 4).take 4 = (m.bytes.drop 4).take 4
  arguments : ∃ list, getTlv reply 8 = .ok (list, reply.length) ∧
    PlainArguments m.first username password list

/-! ### Reading the frame -/

def symbolTlv (s : CString) : TlvAmqp := sizedTlv .narrow .symbol s.bytes

theorem symbolValue_reads {s : CString} (h : (symbolValue s).Ok) :
    ReadsElement AmqpType.symbol8.toByte (symbolValue s).data (symbolTlv s) := by
  cases h with
  | sized h => exact (readsElement_sized h : ReadsElement _ _ (sizedTlv .narrow .symbol s.bytes))

theorem symbols_read {symbols : List CString} (h : ∀ s ∈ symbols, (symbolValue s).Ok) :
    List.Forall₂ (ReadsElement AmqpType.symbol8.toByte)
      ((symbols.map symbolValue).map Val.data) (symbols.map symbolTlv) := by
  induction symbols with
  | nil => exact .nil
  | cons s symbols ih =>
    exact .cons (symbolValue_reads (h s (List.mem_cons_self ..)))
      (ih fun t ht => h t (List.mem_cons_of_mem _ ht))

/-- The node of an array of symbols. -/
def symbolsTlv (size : Nat) (symbols : List CString) : TlvAmqp :=
  { arrayTlv .narrow size (symbols.map symbolTlv) with
    constructor := .ref ⟨AmqpType.array8.toByte, .indet⟩ }

theorem symbolsValue_reads {symbols : List CString} (h : (symbolsValue symbols).Ok) :
    ∃ size, Reads (symbolsValue symbols).enc (symbolsTlv size symbols) := by
  cases h with
  | array _ elems _ count size =>
    have hsymbols := symbols_read fun s hs => elems _ (List.mem_map_of_mem hs)
    have hconstructor : ReadsConstructor (Val.encDescriptor none ++ [AmqpType.symbol8.toByte]) _ :=
      readsConstructor_plain (AmqpType.toByte_ne_zero .symbol8)
    have hbody := Val.array_reads hconstructor hsymbols count size
    exact ⟨_, Val.reads_of_body trivial hbody⟩

/-- The first byte of a value of a fixed size that has data. -/
theorem firstByte_fixed {type : AmqpType} {x : UInt8} {rest : List UInt8}
    (h : type.fixedWidth = some (x :: rest).length) :
    (plainTlv type (x :: rest)).firstByte = .ok x := by
  cases type <;> first | rfl | cases h

/-- The node of the argument list. -/
theorem MechanismsFrame.value_reads (m : MechanismsFrame) : ∃ list size, Reads m.value.enc list ∧
    list.descriptorCode = .ok HeaderCode.mechanisms.toByte ∧ list.count = .ref 1 ∧
    list.list = .ref [symbolsTlv size (m.first :: m.others)] := by
  cases m.ok with
  | described desc value _ =>
    cases desc with
    | fixed hwidth =>
      cases value with
      | list elems count size =>
        obtain ⟨arraySize, harray⟩ := symbolsValue_reads (elems _ (List.mem_singleton_self _))
        have hdescriptor : Reads m.descriptor.enc _ := plainTlv_reads hwidth
        have helements : List.Forall₂ Reads ([symbolsValue (m.first :: m.others)].map Val.enc) _ :=
          .cons harray .nil
        have hbody := Val.list_reads helements count size
        exact ⟨_, arraySize, Val.described_reads (v := .list .narrow _) hdescriptor trivial hbody,
          firstByte_fixed hwidth, rfl, rfl⟩

theorem unwrap_symbol (s : CString) : unwrap (symbolTlv s) = .ok (.ref (.symbol ⟨.ref s⟩)) := by
  have hsymbol : unwrapSymbol (symbolTlv s) = .ok (.ref ⟨.ref s⟩) := by
    change Ptr.ref <$> (stringValue (symbolTlv s) >>= _) = _
    unfold symbolTlv
    rw [stringValue_sized, ok_bind]
    rfl
  unfold symbolTlv sizedTlv TlvAmqp.ofCode TlvAmqp.fresh unwrap
  change (·.map Unwrapped.symbol) <$> unwrapSymbol (symbolTlv s) = _
  rw [hsymbol]
  rfl

theorem unwrapEach_symbols (symbols : List CString) :
    unwrapEach (symbols.map symbolTlv) symbols.length =
      .ok (symbols.map fun s => .ref (.symbol ⟨.ref s⟩)) := by
  induction symbols with
  | nil =>
    rw [List.length_nil, unwrapEach]
    rfl
  | cons s symbols ih =>
    rw [List.map_cons, List.length_cons, unwrapEach, unwrap_symbol, ok_bind, ih]
    rfl

theorem unwrapArrayHead_symbols (size : Nat) (first : CString) (others : List CString) :
    unwrapArrayHead (symbolsTlv size (first :: others)) = .ok (.ref (.symbol ⟨.ref first⟩)) := by
  have hvalues := unwrapEach_symbols (first :: others)
  have harray : unwrapArray (symbolsTlv size (first :: others)) =
      .ok (.ref ((first :: others).map fun s => .ref (.symbol ⟨.ref s⟩))) := by
    change Ptr.ref <$> unwrapElements (.ref ((first :: others).map symbolTlv)) _ = _
    unfold unwrapElements
    rw [List.length_map, Int.toNat_natCast, hvalues]
    rfl
  unfold unwrapArrayHead
  rw [harray]
  rfl

theorem readMechanisms_symbols {list : TlvAmqp} {size : Nat} {first : CString}
    {others : List CString} (hcount : list.count = .ref 1)
    (hlist : list.list = .ref [symbolsTlv size (first :: others)]) :
    readMechanisms list = .ok (some (.mechanisms ⟨.ref (.symbol ⟨.ref first⟩)⟩)) := by
  have helement : list.element 0 = .ok (symbolsTlv size (first :: others)) := by
    unfold TlvAmqp.element
    rw [hlist]
    rfl
  have hcode : (symbolsTlv size (first :: others)).code = .is AmqpType.array8.toByte := rfl
  have hoptional : optional list 0 unwrapArrayHead = .ok (.ref (.symbol ⟨.ref first⟩)) := by
    unfold optional
    rw [hcount, Ptr.deref_ref, ok_bind, if_pos (by decide), helement, ok_bind, hcode,
      Cell.get_is, ok_bind, if_pos (by decide), unwrapArrayHead_symbols]
  unfold readMechanisms
  rw [hoptional]
  rfl

/-! ### Writing the reply -/

theorem initField_ref {α : Type} {x : α} {tlv : TlvAmqp} {out : List UInt8} {list : TlvList}
    {size : Int} (k : Int) (wrap : α → Run TlvAmqp) (htlv : wrap x = .ok tlv)
    (hholds : Holds tlv out) (hsize : list.size = .is size) :
    initField k (.ref x) wrap list = .ok { list with
      list := list.list ++ [tlv], count := .is k, size := .is (size + out.length) } := by
  unfold initField
  rw [Ptr.nonNull_ref, ok_bind, if_pos rfl, Ptr.deref_ref, ok_bind, htlv, ok_bind, hsize,
    Cell.get_is, ok_bind, hholds.length, Cell.get_is, ok_bind]
  rfl

/-- The arguments of an INIT without a host name. -/
theorem initArguments_holds (mechanism : CString) (response : List UInt8) :
    ∃ l, initArguments ⟨.ref ⟨.ref mechanism⟩, .ref response, .is response.length, .null⟩ =
        .ok (.ref l) ∧
      Holds l.node (calculatedBytes HeaderCode.init.toByte 2
        (sizedBytes .symbol mechanism.bytes ++ sizedBytes .binary response)) := by
  obtain ⟨symbol, hsymbol, hsymbolHolds⟩ := wrapSymbol_holds mechanism
  obtain ⟨binary, hbinary, hbinaryHolds⟩ := wrapBinary_holds response
  have hflat : [sizedBytes .symbol mechanism.bytes, sizedBytes .binary response].flatten =
      sizedBytes .symbol mechanism.bytes ++ sizedBytes .binary response := by
    rw [List.flatten_cons, List.flatten_singleton]
  have hsize : (0 : Int) + (sizedBytes .symbol mechanism.bytes).length +
      (sizedBytes .binary response).length =
        ([sizedBytes .symbol mechanism.bytes, sizedBytes .binary response].flatten.length : Nat) := by
    rw [hflat, List.length_append]
    omega
  have hpos : 0 < [sizedBytes .symbol mechanism.bytes, sizedBytes .binary response].flatten.length := by
    rw [hflat, List.length_append]
    exact Nat.add_pos_left hsymbolHolds.pos _
  have hwritten : List.Forall₂ Holds ([symbol, binary, TlvAmqp.fresh].take 2) _ :=
    .cons hsymbolHolds (.cons hbinaryHolds .nil)
  obtain ⟨l, hl, hholds⟩ : ∃ l, calculateBytes { TlvList.fresh with
      list := [symbol, binary, TlvAmqp.fresh]
      width := .is 1
      size := .is _
      count := .is (2 : Nat) } HeaderCode.init.toByte = .ok l ∧ Holds l.node _ :=
    calculateBytes_holds HeaderCode.init.toByte hwritten (Nat.le_succ 2) rfl rfl rfl hpos
  rw [hflat] at hholds
  refine ⟨l, ?_, hholds⟩
  change (initField 1 (.ref ⟨.ref mechanism⟩) wrapSymbol
    { TlvList.fresh with width := .is 1, size := .is 0 } >>= _) = _
  rw [initField_ref 1 wrapSymbol hsymbol hsymbolHolds rfl, ok_bind]
  change (initField 2 (.ref response) (fun array => wrapBinary array response.length) _ >>= _) = _
  rw [initField_ref 2 (wrapBinary · response.length) hbinary hbinaryHolds rfl, ok_bind, hsize]
  change (calculateBytes _ _ >>= _) = _
  exact bind_eq_ok.mpr ⟨l, hl, rfl⟩

/-- The arguments of an INIT without a host name, when they are short. -/
def initSlots (mechanism : CString) (response : List UInt8) (hm : mechanism.bytes.length ≤ 255)
    (hr : response.length ≤ 255) : List (Option Sent) :=
  [some (.sized .symbol mechanism.bytes hm), some (.sized .binary response hr)]

section Slots

variable {mechanism : CString} {response : List UInt8} (hm : mechanism.bytes.length ≤ 255)
  (hr : response.length ≤ 255)

theorem trim_initSlots :
    trim (initSlots mechanism response hm hr) = initSlots mechanism response hm hr := trim_some [_] _

theorem argumentBytes_initSlots : argumentBytes (initSlots mechanism response hm hr) =
    sizedBytes .symbol mechanism.bytes ++ sizedBytes .binary response := by
  unfold argumentBytes
  rw [trim_initSlots, sizedBytes, if_pos hm, sizedBytes, if_pos hr]
  simp [initSlots, slotsBytes, slotBytes, Sent.sized, Width.field]

theorem length_argumentBytes_initSlots : (argumentBytes (initSlots mechanism response hm hr)).length =
    (2 + mechanism.strlen) + (2 + response.length) := by
  rw [argumentBytes_initSlots, sizedBytes, if_pos hm, sizedBytes, if_pos hr, CString.strlen]
  simp only [List.length_append, List.length_cons]
  omega

theorem calculatedBytes_initSlots
    (h : (argumentBytes (initSlots mechanism response hm hr)).length ≤ 255) :
    calculatedBytes HeaderCode.init.toByte 2
        (sizedBytes .symbol mechanism.bytes ++ sizedBytes .binary response) =
      (Sent.list HeaderCode.init.toByte (initSlots mechanism response hm hr) h).out := by
  rw [← argumentBytes_initSlots hm hr, calculatedBytes, if_pos h]
  rfl

end Slots

/-! ### The exchange -/

namespace MechanismsFrame

variable (m : MechanismsFrame) (username password : CString)

/-- The header that `amqp_decode` makes of the frame. -/
def header : AmqpHeader where
  code := .is HeaderCode.mechanisms.toByte
  doff := .is m.doff.toNat
  type := .is 1
  channel := .is m.channel.toInt16.toInt
  packet := .ref (.mechanisms ⟨.ref (.symbol ⟨.ref m.first⟩)⟩)

/-- The header that is sent. -/
def initHeader : AmqpHeader where
  code := .is HeaderCode.init.toByte
  doff := .is m.doff.toNat
  type := .is 1
  channel := .is m.channel.toInt16.toInt
  packet := .ref (.init ⟨.ref ⟨.ref m.first⟩, .ref (plainResponse username password),
    .is (plainResponse username password).length, .null⟩)

theorem length_value : m.value.enc.length < 1000 := by
  cases m.ok with
  | described desc value _ =>
    cases desc with
    | fixed hwidth =>
      cases value with
      | list _ _ size =>
        have hdescriptor := AmqpType.fixedWidth_le hwidth
        have hlist : 1 + (Val.encList [symbolsValue (m.first :: m.others)]).length < 256 := size
        have henc : m.value.enc.length = m.descriptorRest.length + 4 +
            (2 + (Val.encList [symbolsValue (m.first :: m.others)]).length) := by
          simp [value, mechanismsValue, descriptor, Val.enc, Val.head, Val.data, Val.parts,
            Val.compound, Width.bytes]
          omega
        rw [List.length_cons] at hdescriptor
        omega

theorem amqpDecode_bytes : amqpDecode m.bytes m.bytes.length = .ok (.ref m.header) := by
  obtain ⟨list, size, hreads, hdescriptor, hcount, hlist⟩ := m.value_reads
  have hinit : initPacket HeaderCode.mechanisms.toByte list = .ok _ :=
    readMechanisms_symbols hcount hlist
  have hdecode := amqpDecode_reads m.doff.toNat 1 m.channel.toNat (by decide) hreads
    (Val.enc_pos _) m.length_value hdescriptor hinit (.inr rfl)
  rw [byte_ofInt_toNat, short_ofInt_toNat] at hdecode
  exact hdecode

/-- The client with the frame logged. -/
def received (c : Client) : Client := { c with wire := c.wire ++ [Traffic.received m.header] }

/-- The client behind the exchange. -/
def answered (c : Client) : Client :=
  (m.received c).amqpEncodeAndFire (m.initHeader username password)

theorem sendAmqpSaslInit_header {c : Client} (husername : c.account.username = some username)
    (hpassword : c.account.password = some password) :
    c.sendAmqpSaslInit m.header = .ok (c.amqpEncodeAndFire (m.initHeader username password)) := by
  unfold Client.sendAmqpSaslInit
  rw [husername, hpassword]
  rfl

theorem processAmqpRx_header {c : Client} (husername : c.account.username = some username)
    (hpassword : c.account.password = some password) :
    c.processAmqpRx m.header = .ok (m.answered username password c) := by
  change (m.received c).sendAmqpSaslInit m.header = _
  exact m.sendAmqpSaslInit_header username password husername hpassword

theorem sentHeaders_answered (c : Client) :
    sentHeaders ((m.answered username password c).wire.drop c.wire.length) =
      [m.initHeader username password] := by
  have hwire : (m.answered username password c).wire =
      c.wire ++ [Traffic.received m.header, .sent (m.initHeader username password)] :=
    List.append_assoc ..
  rw [hwire, List.drop_left]
  rfl

section Reply

variable (hm : m.first.bytes.length ≤ 255) (hr : (plainResponse username password).length ≤ 255)
  (h : (argumentBytes (initSlots m.first (plainResponse username password) hm hr)).length ≤ 255)

/-- The frame of the reply. -/
def reply : List UInt8 :=
  frame m.doff.toNat 1 m.channel.toInt16.toInt
    (Sent.list HeaderCode.init.toByte (initSlots m.first (plainResponse username password) hm hr) h).out

theorem amqpEncode_initHeader : amqpEncode (m.initHeader username password) =
    .ok ((m.reply username password hm hr h).map some, (m.reply username password hm hr h).length) := by
  obtain ⟨l, hl, hholds⟩ := initArguments_holds m.first (plainResponse username password)
  rw [calculatedBytes_initSlots hm hr h] at hholds
  have hargs : addArguments (m.initHeader username password) = .ok (.ref l) := hl
  exact encodeFrame_eq (by decide) hargs hholds rfl rfl rfl

theorem plainReply_reply : PlainReply m username password (m.reply username password hm hr h) := by
  have hlen := length_list_out .init h
  have hlength : (m.reply username password hm hr h).length = 8 + _ := length_frame _ _ _ _
  refine ⟨by omega, ?_, ?_, ?_⟩
  · rw [hlength]
    rfl
  · have hheader : headerBytes m.doff.toNat 1 m.channel.toInt16.toInt =
        headerBytes m.doff.toNat 1 m.channel.toNat := by
      rw [headerBytes, headerBytes, short_ofInt_toInt16, short_ofInt_toNat]
    exact hheader
  · have hlist := getTlv_frame m.doff.toNat 1 m.channel.toInt16.toInt
      (Sent.list HeaderCode.init.toByte _ h).reads
    rw [← hlength] at hlist
    exact ⟨_, hlist, rfl, rfl, _, _, rfl, ⟨rfl, rfl, rfl⟩, ⟨rfl, rfl, rfl⟩⟩

end Reply

end MechanismsFrame

/-- A MECHANISMS frame is answered with one frame, when the arguments of the answer fit. -/
theorem exchange_mechanisms (c : Client) (m : MechanismsFrame) {username password : CString}
    (husername : c.account.username = some username)
    (hpassword : c.account.password = some password)
    (hfits : (2 + m.first.strlen) + (2 + (plainResponse username password).length) ≤ 255) :
    ∃ c' reply, c.exchange m.bytes m.bytes.length =
        .ok (c', [(reply.map some, (reply.length : Int))]) ∧
      PlainReply m username password reply := by
  have hm : m.first.bytes.length ≤ 255 := by
    unfold CString.strlen at hfits
    omega
  have hr : (plainResponse username password).length ≤ 255 := by omega
  have h : (argumentBytes (initSlots m.first (plainResponse username password) hm hr)).length ≤
      255 := by
    rw [length_argumentBytes_initSlots]
    exact hfits
  refine ⟨m.answered username password c, m.reply username password hm hr h, ?_,
    m.plainReply_reply username password hm hr h⟩
  unfold Client.exchange
  rw [m.amqpDecode_bytes, ok_bind, Ptr.deref_ref, ok_bind,
    m.processAmqpRx_header username password husername hpassword, ok_bind, m.sentHeaders_answered,
    List.mapM_cons, m.amqpEncode_initHeader username password hm hr h]
  rfl

/-- The mechanisms `PLAIN` and `ANONYMOUS` on channel 513. -/
def plainMechanisms : MechanismsFrame where
  doff := 2
  channel := 513
  descriptorType := .smallUlong
  descriptorRest := []
  first := .literal "PLAIN"
  others := [.literal "ANONYMOUS"]
  ok := by
    refine .described (.fixed rfl) (.list ?_ (by decide) (by decide +kernel)) trivial
    simp only [List.forall_mem_singleton]
    refine .array (by simp) ?_ ?_ (by decide) (by decide +kernel)
    · simp only [List.map_cons, List.map_nil, List.forall_mem_cons, List.not_mem_nil,
        false_implies, implies_true, and_true]
      exact ⟨.sized (by decide +kernel), .sized (by decide +kernel)⟩
    · simp only [List.map_cons, List.map_nil, List.forall_mem_cons, List.not_mem_nil,
        false_implies, implies_true, and_true]
      exact ⟨⟨trivial, rfl⟩, trivial, rfl⟩

/-- The user `a` with the password `b`. -/
def userAccount : Account :=
  { Account.anonymous with username := some (.ofBytes [0x61]), password := some (.ofBytes [0x62]) }

theorem exchange_mechanisms_plain : ∃ c' reply,
    (Client.init userAccount).exchange plainMechanisms.bytes plainMechanisms.bytes.length =
        .ok (c', [(reply.map some, (reply.length : Int))]) ∧
      PlainReply plainMechanisms (.ofBytes [0x61]) (.ofBytes [0x62]) reply :=
  exchange_mechanisms (Client.init userAccount) plainMechanisms rfl rfl (by decide +kernel)

end IotClient.Amqp
