import IotClient.Mem.Read

/-!
# The account (`account.h`)

What the clients read of the account they connect with; the server, the certificate and the
other fields of the connection itself are left out. A string may be `NULL`.
-/

namespace IotClient

open Mem

inductive Protocol where
  | mqtt | mqttSn | coap | amqp | websockets
  deriving DecidableEq, Repr

structure Account where
  protocol : Protocol
  username : Option CString
  password : Option CString
  clientId : Option CString
  cleanSession : Int
  keepAlive : Int
  willTopic : Option CString
  isRetain : Int
  qos : Nat
  will : Option CString
  deriving DecidableEq

/-- An account without strings. -/
def Account.anonymous : Account where
  protocol := .amqp
  username := none
  password := none
  clientId := none
  cleanSession := 1
  keepAlive := 10
  willTopic := none
  isRetain := 0
  qos := 0
  will := none

/-- An account with a client id, a user name and a password. -/
def Account.named : Account := { Account.anonymous with
  username := some (.ofBytes [0x75])
  password := some (.ofBytes [0x70])
  clientId := some (.ofBytes [0x63]) }

end IotClient
