import Mathlib.Data.PNat.Notation
import IotClient.Mem.Run

/-!
# The net service of the datagram clients (`net/dyad.c`, `net/tcp_client.c`)

`init_net_service` makes one stream, which a worker thread polls with `dyad_update`, and other
threads append to its write buffer. A `NetService` is that stream with the client behind it, a
`Listener`: what the client does when it is called from outside, by the application or a timer,
and what it does with received data. A `NetEvent` is such a call, one of the two halves of
`dyad_update`, before and after `select`, or `stop_net_service`; the answers of the operating
system are in the event.

No stream of `tcp_client.c` has a timeout or a LINE listener, and none listens or is ended with
`dyad_end`, so the code for these is left out.
-/

namespace IotClient.Net

open Mem

inductive StreamState where
  | closed | connecting | connected
  deriving DecidableEq, Repr

structure Stream where
  state : StreamState
  /-- `DYAD_FLAG_READY` -/
  ready : Bool
  /-- `DYAD_FLAG_WRITTEN` -/
  written : Bool
  writeBuffer : List UInt8
  deriving DecidableEq

/-- What `send` says of a buffer that is not empty. A datagram socket never takes a part. -/
inductive SendResult where
  | all
  | part (size : ℕ+)
  | wouldBlock
  | failed

/-- What the stream is in of the three sets of `select`. -/
structure SelectSet where
  read : Bool
  write : Bool
  except : Bool
  deriving DecidableEq

def SelectSet.zero : SelectSet := ⟨false, false, false⟩

namespace Stream

/-- `dyad_newStream` -/
def new : Stream := ⟨.closed, false, false, []⟩

variable (s : Stream)

def close : Stream :=
  if s.state = .closed then s else { s with state := .closed, writeBuffer := [] }

/-- `dyad_connect`, when the host is resolved and when the socket is created. -/
def connect (resolved created : Bool) : Stream × Int :=
  if !resolved then (s.close, -1)
  else if !created then (s.close, -1)
  else ({ s with state := .connecting }, 0)

def write (data : List UInt8) : Stream :=
  { s with writeBuffer := s.writeBuffer ++ data, written := true }

def selectSet : SelectSet :=
  match s.state with
  | .connected => ⟨true, !s.ready || s.writeBuffer ≠ [], false⟩
  | .connecting => ⟨false, true, true⟩
  | .closed => .zero

/-- The end of `stream_flushWriteBuffer`. -/
def setReady : Stream := if s.writeBuffer = [] then { s with ready := true } else s

/-- The stream after `stream_flushWriteBuffer`, and what `send` took. -/
def flushWriteBuffer (result : SendResult) : Stream × List (List UInt8) :=
  let s := { s with written := false }
  if s.writeBuffer = [] then (s.setReady, [])
  else
    match result with
    | .all => ({ s with writeBuffer := [] }.setReady, [s.writeBuffer])
    | .part size =>
      ({ s with writeBuffer := s.writeBuffer.drop size }.setReady, [s.writeBuffer.take size])
    | .wouldBlock => (s, [])
    | .failed => (s.close, [])

end Stream

/-- A client: its new state, and the buffers it passes to `write_to_net`. -/
structure Listener (σ ε : Type) where
  call : σ → ε → Run (σ × List (List UInt8))
  /-- `prd_pt` -/
  prd : σ → List UInt8 → Run (σ × List (List UInt8))

/-- Where the worker is: before the test of its loop, in `select`, or behind the loop. -/
inductive Worker where
  | looping | selecting | stopped
  deriving DecidableEq, Repr

structure NetService (σ : Type) where
  app : σ
  s : Stream
  /-- `s` is in `dyad_streams`; a stream that is not was freed -/
  listed : Bool
  selectSet : SelectSet
  worker : Worker
  /-- the buffers passed to `write_to_net` -/
  written : List (List UInt8)
  /-- what each `send` took -/
  sent : List (List UInt8)
  /-- what was passed to `prd_pt` -/
  received : List (List UInt8)

/-- What the operating system answers in the second half of `dyad_update`. -/
structure Update where
  /-- what `select` leaves in the sets -/
  left : SelectSet
  /-- the socket that is connecting has no `SO_ERROR` -/
  noError : Bool
  /-- the datagrams that wait at the socket -/
  arrived : List (List UInt8)
  /-- behind them `recv` fails for another reason than `EWOULDBLOCK` -/
  recvFails : Bool
  send : SendResult

inductive NetEvent (ε : Type) where
  | call (e : ε)
  | select
  | handle (u : Update)
  | stop

/-- `init_net_service` and what it returns. -/
def initNetService {σ : Type} (app : σ) (resolved created : Bool) : NetService σ × Int :=
  let (s, result) := Stream.new.connect resolved created
  (⟨app, s, true, .zero, .looping, [], [], []⟩, result)

namespace NetService

variable {σ ε : Type} (l : Listener σ ε) (n : NetService σ)

def writeToNet (data : List UInt8) : Run (NetService σ) :=
  if n.listed then .ok { n with s := n.s.write data, written := n.written ++ [data] }
  else .error .indet

def writeAll (datas : List (List UInt8)) : Run (NetService σ) :=
  datas.foldlM (fun n data => n.writeToNet data) n

def close : NetService σ := { n with s := n.s.close }

def flush (result : SendResult) : NetService σ :=
  let (s, taken) := n.s.flushWriteBuffer result
  { n with s := s, sent := n.sent ++ taken }

def onData (data : List UInt8) : Run (NetService σ) := do
  let (app, datas) ← l.prd n.app data
  { n with app := app, received := n.received ++ [data] }.writeAll datas

/-- The buffer of `recv` holds 8191 bytes; the rest of a datagram is lost. No listener closes the
stream. -/
def handleReceivedData (fails : Bool) : List (List UInt8) → NetService σ → Run (NetService σ)
  | [], n => pure (if fails then n.close else n)
  | datagram :: arrived, n => do
    let data := datagram.take 8191
    if data = [] then pure n.close
    else do
      let n ← n.onData l data
      handleReceivedData fails arrived n

/-- The stream is connected and its socket can be read. -/
def receive (u : Update) : Run (NetService σ) :=
  if n.selectSet.read && u.left.read then n.handleReceivedData l u.recvFails u.arrived
  else pure n

/-- The socket of a stream that was not closed meanwhile can be written. -/
def flushSelected (u : Update) : NetService σ :=
  if n.s.state ≠ .closed ∧ (n.selectSet.write && u.left.write) = true then n.flush u.send else n

/-- The `switch` of `dyad_update`. -/
def handleStream (u : Update) : Run (NetService σ) :=
  match n.s.state with
  | .connected => do
    let n ← n.receive l u
    pure (n.flushSelected u)
  | .connecting =>
    if n.selectSet.write && u.left.write then
      pure (if u.noError then { n with s.state := .connected } else n.close)
    else pure (if n.selectSet.except && u.left.except then n.close else n)
  | .closed => pure n

/-- At most one of the two flushes of an update finds data to send, so `send` is one result. -/
def flushWritten (u : Update) : NetService σ :=
  if n.s.written = true ∧ n.s.state ≠ .closed then n.flush u.send else n

/-- The second half of `dyad_update`. -/
def handle (u : Update) : Run (NetService σ) :=
  if n.worker = .selecting then
    if n.listed then do
      let n ← n.handleStream l u
      pure { n.flushWritten u with worker := .looping }
    else pure { n with worker := .looping }
  else pure n

def destroyClosedStreams : NetService σ :=
  if n.s.state = .closed then { n with listed := false } else n

/-- The test of the worker's loop, and the first half of `dyad_update`. -/
def select : NetService σ :=
  if n.worker = .looping then
    if n.listed then
      { n.destroyClosedStreams with selectSet := n.s.selectSet, worker := .selecting }
    else { n with worker := .stopped }
  else n

/-- `dyad_shutdown` -/
def stopNetService : NetService σ := { n.close with listed := false, selectSet := .zero }

/-- A call of the client. -/
def call (e : ε) : Run (NetService σ) := do
  let (app, datas) ← l.call n.app e
  { n with app := app }.writeAll datas

def step : NetEvent ε → Run (NetService σ)
  | .call e => n.call l e
  | .select => pure n.select
  | .handle u => n.handle l u
  | .stop => pure n.stopNetService

end NetService

end IotClient.Net
