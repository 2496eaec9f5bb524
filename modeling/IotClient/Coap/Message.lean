import IotClient.Mem.Read

/-!
# CoAP messages (`coap/packets/*.h`, `coap/coap_enum.h`)

A field of an enumeration type is a `Nat`: `coap_decode` fills `code` with numbers that are
no `CoapCode`.
-/

namespace IotClient.Coap

open Mem

inductive CoapType where
  | confirmable | nonConfirmable | acknowledgement | reset
  deriving DecidableEq, Repr

def CoapType.value : CoapType → Nat
  | confirmable => 0
  | nonConfirmable => 1
  | acknowledgement => 2
  | reset => 3

inductive CoapCode where
  | get | post | put | delete | created | deleted | valid | changed | content | badRequest
  | unauthorized | badOption | forbidden | notFound | methodNotAllowed | notAcceptable
  | preconditionFailed | requestEntityTooLarge | unsupportedContentFormat | internalServerError
  | notImplemented | badGateway | serviceUnawailable | gatewayTimeout | proxyingNotSupported
  deriving DecidableEq, Repr

def CoapCode.value : CoapCode → Nat
  | get => 1
  | post => 2
  | put => 3
  | delete => 4
  | created => 65
  | deleted => 66
  | valid => 67
  | changed => 68
  | content => 69
  | badRequest => 128
  | unauthorized => 129
  | badOption => 130
  | forbidden => 131
  | notFound => 132
  | methodNotAllowed => 133
  | notAcceptable => 134
  | preconditionFailed => 140
  | requestEntityTooLarge => 141
  | unsupportedContentFormat => 143
  | internalServerError => 160
  | notImplemented => 161
  | badGateway => 162
  | serviceUnawailable => 163
  | gatewayTimeout => 164
  | proxyingNotSupported => 165

inductive CoapOptionType where
  | ifMatch | uriHost | etag | ifNoneMatch | observe | uriPort | locationPath | uriPath
  | contentFormat | maxAge | uriQuery | accept | locationQuery | block2 | block1 | size2 | proxyUri
  | proxyScheme | size1 | nodeId
  deriving DecidableEq, Repr

def CoapOptionType.value : CoapOptionType → Int
  | ifMatch => 1
  | uriHost => 3
  | etag => 4
  | ifNoneMatch => 5
  | observe => 6
  | uriPort => 7
  | locationPath => 8
  | uriPath => 11
  | contentFormat => 12
  | maxAge => 14
  | uriQuery => 15
  | accept => 17
  | locationQuery => 20
  | block2 => 23
  | block1 => 27
  | size2 => 28
  | proxyUri => 35
  | proxyScheme => 39
  | size1 => 60
  | nodeId => 2050

structure CoapOption where
  number : Int
  length : Int
  value : Ptr (List UInt8)
  deriving DecidableEq

structure CoapMessage where
  version : Nat
  type : Nat
  code : Nat
  messageId : UInt16
  token : Ptr CString
  tokenLength : Cell Int
  options : Ptr (List CoapOption)
  optionsAmount : Int
  payload : Ptr CString
  deriving DecidableEq

end IotClient.Coap
