import IotClient.Coap.Client
import IotClient.Net.Logging

/-!
# A CoAP client on its net service

`logging` is the client without encryption, as in `MqttSn.OverUdp`. Its calls are those of the
application and the pings of the timer; nothing starts the thread that fires messages again. What
the client fires goes out in order, and every datagram that it reads and does not refuse is
handled in the order of arrival (`session_in_order_coap`).

dyad reads into an array of 8192 bytes and stores a NUL behind the datagram. `rest` is what else the
array holds, which may differ with every datagram.
-/

namespace IotClient.Coap

open Mem Machine Net

inductive UdpCall where
  | subscribe (topicName : CString) (qos : Int) (unset : UInt8)
  | unsubscribe (topicName : CString)
  | message (content topicName : CString) (qos : Int) (unset : UInt8)
  | ping

namespace Client

variable (c : Client)

/-- The id and the token of a ping are 0. -/
def coapSendPing : Run Client := do
  c.coapEncodeAndFire (requestMessage 0 (decimal 0) .put ∅ [← c.nodeId])

end Client

def UdpCall.run (c : Client) : UdpCall → Run Client
  | subscribe topicName qos unset => c.sendCoapSubscribe topicName qos unset
  | unsubscribe topicName => c.sendCoapUnsubscribe topicName
  | message content topicName qos unset => c.sendCoapMessage content topicName qos unset
  | ping => c.coapSendPing

/-- What `coap_encode_and_fire` passes to `write_to_net`. -/
def frame (message : CoapMessage) : Run (List UInt8) := do
  let cursor ← coapEncode message
  blockBytes (cursor.buf.take cursor.i)

/-- The array of dyad from the datagram on. -/
def received (rest : List UInt8) (data : List UInt8) : List UInt8 := data ++ 0 :: rest

/-- `process_coap_rx` with the size of the datagram. `rest` says what else the array holds at each
arrival. -/
def receive (rest : ℕ → List UInt8) (c : Client) (data : List UInt8) : Run Client :=
  { c with arrivals := c.arrivals + 1 }.processCoapRx (received (rest c.arrivals) data) data.length

/-- What a datagram is decoded to, with something behind it. -/
def Reads (data : List UInt8) (m : Option CoapMessage) : Prop :=
  ∃ rest, coapDecode (received rest data) data.length = .ok m

/-! ### The log of the client -/

section Fires

variable {rest : ℕ → List UInt8} {c d t : Client} {message : CoapMessage}
  {options : List CoapOption}

theorem fires_encodeAndFire (h : c.coapEncodeAndFire message = .ok t) : Fires Client.wire c t := by
  obtain ⟨cursor, -, h⟩ := bind_eq_ok.1 h
  cases h
  exact ⟨[.sent message], rfl, rfl⟩

theorem fires_request {code : CoapCode} {payload : CString}
    (h : c.sendRequest code payload options = .ok t) : Fires Client.wire c t := by
  obtain ⟨token, -, h⟩ := bind_eq_ok.1 h
  obtain ⟨nodeId, -, h⟩ := bind_eq_ok.1 h
  refine Fires.trans (.of_wire ?_) (fires_encodeAndFire h)
  rfl

theorem fires_ack {isOk : Bool} (h : c.sendCoapAck message isOk = .ok t) :
    Fires Client.wire c t := by
  obtain ⟨nodeId, -, h⟩ := bind_eq_ok.1 h
  exact fires_encodeAndFire h

theorem call_fires {call : UdpCall} (h : call.run c = .ok t) : Fires Client.wire c t := by
  cases call with
  | subscribe topicName qos unset => exact fires_request h
  | unsubscribe topicName => exact fires_request h
  | message content topicName qos unset => exact fires_request h
  | ping =>
    obtain ⟨nodeId, -, h⟩ := bind_eq_ok.1 h
    exact fires_encodeAndFire h

theorem fires_processAck (h : c.processAck message options = .ok t) : Fires Client.wire c t := by
  unfold Client.processAck at h
  split at h
  · obtain ⟨observe, -, h⟩ := bind_eq_ok.1 h
    split at h
    · cases h
      exact .refl c
    · obtain ⟨_, -, h⟩ := bind_eq_ok.1 h
      cases h
      exact .of_wire rfl
  · split at h <;> cases h <;> exact .of_wire rfl

theorem fires_processType (h : c.processType message options = .ok t) : Fires Client.wire c t := by
  unfold Client.processType at h
  split at h
  · exact fires_ack h
  · split at h
    · cases h
      exact .of_wire rfl
    · split at h
      · exact fires_processAck h
      · split at h <;> cases h <;> exact .of_wire rfl

theorem fires_processMessage (h : c.processMessage message = .ok t) : Fires Client.wire c t := by
  obtain ⟨options, -, h⟩ := bind_eq_ok.1 h
  split at h
  · obtain ⟨found, -, h⟩ := bind_eq_ok.1 h
    split at h
    · exact fires_ack h
    · obtain ⟨d, hd, h⟩ := bind_eq_ok.1 h
      have hpublished (content : CoapMessage) (topicName : CString) (qos : UInt8) :
          Fires Client.wire d (d.getPub content topicName qos) := .of_wire rfl
      exact (fires_ack hd).trans ((hpublished _ _ _).trans (fires_processType h))
  · exact fires_processType h

theorem receive_logs {data : List UInt8} (h : receive rest c data = .ok t) : ∃ xs m,
    t.wire = c.wire ++ xs ∧ Reads data m ∧ receivedOf xs = m.toList := by
  obtain ⟨m, hdecode, h⟩ := bind_eq_ok.1 h
  cases m with
  | none =>
    cases h
    exact ⟨[], none, (List.append_nil _).symm, ⟨_, hdecode⟩, rfl⟩
  | some message =>
    obtain ⟨xs, hwire, hxs⟩ := fires_processMessage h
    refine ⟨.received message :: xs, some message, ?_, ⟨_, hdecode⟩, ?_⟩
    · rw [hwire, List.append_assoc]
      rfl
    · exact congrArg (message :: ·) hxs

end Fires

/-! ### Runs -/

def logging (rest : ℕ → List UInt8) : Logging Client UdpCall CoapMessage where
  wire := Client.wire
  frame := frame
  reads := Reads
  call := UdpCall.run
  receive := receive rest
  call_logs := call_fires
  receive_logs := receive_logs

variable {rest : ℕ → List UInt8} {account : Account} {resolved created : Bool}
  {es : List (NetEvent UdpCall)} {t : NetService Client}

/-- The messages a client fires go out as the bytes of their frames, in order; those it reads are
the datagrams that arrived, in order, less what `coap_decode` refuses. -/
theorem session_in_order_coap
    (h : run (NetService.step (logging rest).listener)
      (initNetService (.init account) resolved created).1 es = .ok t) :
    (∃ frames, (sentOf t.app.wire).mapM frame = .ok frames ∧
      t.sent.flatten <+: frames.flatten ∧
      (t.s.state ≠ .closed → t.sent.flatten ++ t.s.writeBuffer = frames.flatten)) ∧
    ∃ (datagrams : List (List UInt8)) (ms : List (Option CoapMessage)),
      datagrams.Sublist ((es.flatMap NetEvent.arrived).map (·.take 8191)) ∧
      List.Forall₂ Reads datagrams ms ∧ ms.filterMap id = receivedOf t.app.wire :=
  Logging.session_in_order (L := logging rest) rfl h

/-- A connected client reads a message with a payload. -/
def resetEvents : List (NetEvent UdpCall) :=
  [.select, .handle ⟨⟨false, true, false⟩, true, [], false, .all⟩, .select,
    .handle ⟨⟨true, false, false⟩, true, [[0x70, 0, 0, 1, 0xff, 0x68, 0x69]], false, .all⟩]

theorem session_in_order_coap_resetEvents : ∃ t,
    run (NetService.step (logging fun _ => []).listener)
      (initNetService (.init .anonymous) true true).1 resetEvents = .ok t ∧
    (∃ frames, (sentOf t.app.wire).mapM frame = .ok frames ∧
      t.sent.flatten <+: frames.flatten ∧
      (t.s.state ≠ .closed → t.sent.flatten ++ t.s.writeBuffer = frames.flatten)) ∧
    ∃ (datagrams : List (List UInt8)) (ms : List (Option CoapMessage)),
      datagrams.Sublist ((resetEvents.flatMap NetEvent.arrived).map (·.take 8191)) ∧
      List.Forall₂ Reads datagrams ms ∧ ms.filterMap id = receivedOf t.app.wire :=
  ⟨_, rfl, @session_in_order_coap (fun _ => []) .anonymous true true resetEvents _ rfl⟩

end IotClient.Coap
