import IotClient.Coap.Message
import IotClient.Helpers

/-!
# `coap/coap_parser.c`

`coapEncode` and `coapDecode`; `none` is the `NULL` that `coap_decode` returns. The encoder's
length is the cursor it leaves.

The decoder skips the two extension bytes of a delta but not those of a length
(`decodeDelta`, `decodeLength`). Behind the options it takes as many payload bytes as there
are bytes from the marker on, starting behind the marker (`decodePayload`).
-/

namespace IotClient.Coap

open Mem

/-! ### Encoding -/

/-- The four bits that stand for a delta or a length. -/
def nibble (n : Int) : Int := if n < 13 then n else if n < 0xff then 13 else 14

/-- The bytes that extend them, if any. -/
def putExtension (n : Int) : Enc Unit :=
  if n < 13 then pure ()
  else if n < 0xff then Enc.put (UInt8.ofInt (n - 13))
  else addShort (UInt16.ofInt (n - 269))

/-- The loop over the options. -/
def encodeOptions : Int → List CoapOption → Enc Unit
  | _, [] => pure ()
  | previousNumber, o :: os => do
    let delta := o.number - previousNumber
    Enc.put (UInt8.ofInt (nibble delta * 16 + nibble o.length))
    putExtension delta
    putExtension o.length
    let value ← Enc.lift (o.value.elems (UInt16.ofInt o.length).toNat)
    Enc.copy value
    encodeOptions o.number os

/-- The first byte: version, type and token length. -/
def firstByte (version type : Nat) (stringLength : UInt16) : UInt8 :=
  (UInt8.ofNat (version <<< 6) + UInt8.ofNat (type <<< 4)) ||| stringLength.toUInt8

/-- The code byte: the hundreds in three bits, the rest in five. -/
def codeByte (code : Nat) : UInt8 := UInt8.ofNat (((code / 100) <<< 5) + code % 100)

def encodeMessage (message : CoapMessage) : Enc Unit := do
  let token ← Enc.lift message.token.deref
  let stringLength := UInt16.ofNat token.strlen
  Enc.put (firstByte message.version message.type stringLength)
  Enc.put (codeByte message.code)
  addShort message.messageId
  Enc.copy (token.bytes.take stringLength.toNat)
  let options ← Enc.lift (message.options.elems message.optionsAmount.toNat)
  encodeOptions 0 options
  Enc.put 0xff
  -- `strlen(message->payload)` comes before the test for `NULL`
  let payload ← Enc.lift message.payload.deref
  Enc.copy (payload.bytes.take (UInt16.ofNat payload.strlen).toNat)

/-- The size of the block `coap_encode` allocates. -/
def bufSize (message : CoapMessage) : Run Nat := do
  if ← message.payload.nonNull then pure (256 + (← strlen message.payload)) else pure 256

/-- `coap_encode` on a block of `room` bytes. -/
def encodeInto (room : Nat) (message : CoapMessage) : Run Cursor :=
  Enc.runOn room (encodeMessage message)

def coapEncode (message : CoapMessage) : Run Cursor := do
  encodeInto (← bufSize message) message

/-! ### Decoding -/

/-- The delta that a nibble at the front of an option stands for, and the position behind its
extension. -/
def decodeDelta (buf : List UInt8) (bits : UInt8) (j : Nat) : Run (Option (Nat × Nat)) := do
  if bits = 13 then pure (some ((← rd buf j).toNat + 13, j + 1))
  else if bits = 14 then pure (some ((← getShort buf j).toNat + 269, j + 2))
  else if bits > 14 then pure none
  else pure (some (bits.toNat, j))

/-- As `decodeDelta` for the length, but the position stays before a two-byte extension. -/
def decodeLength (buf : List UInt8) (bits : UInt8) (j : Nat) : Run (Option (Nat × Nat)) := do
  if bits = 13 then pure (some ((← rd buf j).toNat + 13, j + 1))
  else if bits = 14 then pure (some ((← getShort buf j).toNat + 269, j))
  else if bits > 14 then pure none
  else pure (some (bits.toNat, j))

/-- The option whose value starts at `j`, and the position behind it. -/
def decodeValue (buf : List UInt8) (number : Int) (length j : Nat) : Run (CoapOption × Nat) :=
  if length > 0 then do
    let value ← copyOut buf j length
    pure (⟨number, length, .ref value⟩, j + length)
  else pure (⟨number, length, .null⟩, j)

/-- The option whose first byte is `nextByte`, from `j` on, and the position behind it. -/
def decodeOption (buf : List UInt8) (nextByte : UInt8) (number : Int) (j : Nat) :
    Run (Option (CoapOption × Nat)) := do
  let some (delta, j) ← decodeDelta buf (nextByte >>> 4 &&& 15) j | pure none
  let number := (number + delta).bmod (2 ^ 32)
  if number < 0 then pure none
  else do
    let some (length, j) ← decodeLength buf (nextByte &&& 15) j | pure none
    pure (some (← decodeValue buf number length j))

/-- The loop over the options: those read so far, and `i`, the position behind the last one. -/
def decodeOptions (buf : List UInt8) (length : Int) :
    Nat → Nat → Nat → Int → List CoapOption → Run (Option (List CoapOption × Nat))
  | 0, _, _, _, _ => .error .fuel
  | fuel + 1, i, j, number, options =>
    if j < length then do
      let nextByte ← rd buf j
      if nextByte = 0xff then pure (some (options, i))
      else do
        let some (co, j) ← decodeOption buf nextByte number (j + 1) | pure none
        decodeOptions buf length fuel j j co.number (options ++ [co])
    else pure (some (options, i))

def decodePayload (buf : List UInt8) (length : Int) (i : Nat) : Run (Ptr CString) := do
  let readableBytes := length - i
  if readableBytes > 0 then do
    if (← rd buf (i + 1)) ≠ 0 then
      pure (.ref (CString.ofBytes (← copyOut buf (i + 1) readableBytes)))
    else pure .indet
  else pure .indet

def decodeToken (buf : List UInt8) (tokenLength i : Nat) : Run (Ptr CString) := do
  if tokenLength > 0 then pure (.ref (CString.ofBytes (← copyOut buf i tokenLength)))
  else pure .indet

def coapDecode (buf : List UInt8) (length : Int) : Run (Option CoapMessage) := do
  let firstByte ← rd buf 0
  let version := (firstByte >>> 6).toNat
  if version ≠ 1 then pure none
  else do
    let type := (firstByte >>> 4 &&& 2).toNat
    let tokenLength := (firstByte &&& 0xf).toNat
    if tokenLength > 8 then pure none
    else do
      let codeByte ← rd buf 1
      let code := (codeByte >>> 5).toNat * 100 + (codeByte &&& 0x1f).toNat
      let messageId ← getShort buf 2
      let token ← decodeToken buf tokenLength 4
      let i := 4 + tokenLength
      let some (options, i) ← decodeOptions buf length (buf.length + 1) i i 0 [] | pure none
      let payload ← decodePayload buf length i
      pure (some {
        version := version
        type := type
        code := code
        messageId := messageId
        token := token
        tokenLength := .is tokenLength
        options := if options = [] then .indet else .ref options
        optionsAmount := options.length
        payload := payload })

end IotClient.Coap
