import IotClient.Account
import IotClient.Machine.Runs

/-!
# The network client (`net/lws_net_client.c`)

Output waits in one global slot: `raw_fire` and `fire` put a buffer there and ask
libwebsockets for a writable callback, and the callback sends what the slot holds then. A
`Sender` is the client together with what libwebsockets knows: the buffers fired since the
last callback, for which a request is outstanding, and everything fired and written so far.
-/

namespace IotClient.Net

open Mem Machine

/-- The static variables that output goes through. -/
structure LwsNetClient where
  currentProtocol : Protocol
  pendingData : Ptr (List UInt8)
  pendingLen : Int
  deriving DecidableEq

/-- A block and how many of its bytes to send. -/
structure RawBuffer where
  data : List UInt8
  len : Nat
  len_le : len ≤ data.length
  deriving DecidableEq

/-- The callback reasons that write. -/
inductive Reason where
  | clientWriteable | rawWriteable
  deriving DecidableEq, Repr

/-- The bytes of the string at the start of a block, up to `strlen`. -/
def stringAt (block : List UInt8) : Run (List UInt8) :=
  if 0 ∈ block then .ok (block.takeWhile (· ≠ 0)) else .error .readOut

theorem stringAt_bytes (s : CString) : stringAt (s.bytes ++ [0]) = .ok s.bytes := by
  have hne : ∀ x ∈ s.bytes, decide (x ≠ 0) = true := by
    intro x hx
    have hx0 : x ≠ 0 := fun h => s.nulFree (h ▸ hx)
    simpa using hx0
  unfold stringAt
  rw [if_pos (by simp), List.takeWhile_append_of_pos hne]
  simp

namespace LwsNetClient

variable (c : LwsNetClient)

def fire (s : CString) : LwsNetClient := { c with pendingData := .ref (s.bytes ++ [0]) }

def rawFire (s : List UInt8) (len : Int) : LwsNetClient :=
  { c with pendingData := .ref s, pendingLen := len }

/-- What the writable callback hands to `lws_write`. -/
def callbackMinimalBroker : Reason → Run (List UInt8)
  | .clientWriteable => do stringAt (← c.pendingData.deref)
  | .rawWriteable =>
    if c.pendingLen = 0 then .ok [] else do copyOut (← c.pendingData.deref) 0 c.pendingLen

/-- `connect_ws_client` opens a `RAW` connection for every protocol but WebSockets. -/
def reason : Reason :=
  if c.currentProtocol = .websockets then .clientWriteable else .rawWriteable

end LwsNetClient

/-- What a client hands to the network client. -/
inductive Outgoing where
  | text (s : CString)
  | raw (b : RawBuffer)
  deriving DecidableEq

namespace Outgoing

def bytes : Outgoing → List UInt8
  | text s => s.bytes
  | raw b => b.data.take b.len

/-- `encode_and_fire` fires strings over WebSockets and blocks over the other transports. -/
def Suits (p : Protocol) : Outgoing → Prop
  | text _ => p = .websockets
  | raw _ => p ≠ .websockets

instance (p : Protocol) : (o : Outgoing) → Decidable (o.Suits p)
  | text _ => inferInstanceAs (Decidable (p = .websockets))
  | raw _ => inferInstanceAs (Decidable (p ≠ .websockets))

/-- The slot after `fire` or `raw_fire`. -/
def put (c : LwsNetClient) : Outgoing → LwsNetClient
  | text s => c.fire s
  | raw b => c.rawFire b.data b.len

end Outgoing

inductive SendEvent where
  | fire (o : Outgoing)
  | writeable
  deriving DecidableEq

/-- The events of a client of the protocol. -/
def SendEvent.Suits (p : Protocol) : SendEvent → Prop
  | fire o => o.Suits p
  | writeable => True

instance (p : Protocol) : (e : SendEvent) → Decidable (e.Suits p)
  | .fire o => inferInstanceAs (Decidable (o.Suits p))
  | .writeable => isTrue trivial

structure Sender where
  client : LwsNetClient
  /-- fired since the last callback; a request is outstanding when there is one -/
  outstanding : List (List UInt8)
  fired : List (List UInt8)
  written : List (List UInt8)
  deriving DecidableEq

namespace Sender

/-- The sender of a new connection. -/
def start (p : Protocol) : Sender := ⟨⟨p, .null, 0⟩, [], [], []⟩

def step (s : Sender) : SendEvent → Run Sender
  | .fire o => .ok {
      client := o.put s.client
      outstanding := s.outstanding ++ [o.bytes]
      fired := s.fired ++ [o.bytes]
      written := s.written }
  | .writeable => do
    let out ← s.client.callbackMinimalBroker s.client.reason
    pure { s with outstanding := [], written := s.written ++ [out] }

/-- Nothing that was fired is missing and nothing was written twice. -/
def NoLoss (s : Sender) : Prop := s.outstanding = [] → s.written = s.fired

instance (s : Sender) : Decidable s.NoLoss :=
  inferInstanceAs (Decidable (s.outstanding = [] → s.written = s.fired))

/-- A callback comes after exactly one `fire` or `raw_fire` since the last one. -/
def OneFire (s : Sender) (e : SendEvent) : Prop := e = .writeable → s.outstanding.length = 1

/-- The slot holds the last buffer fired, and the writes account for the others. -/
structure Inv (p : Protocol) (s : Sender) : Prop where
  protocol : s.client.currentProtocol = p
  slot : ∀ b, s.outstanding.getLast? = some b →
    s.client.callbackMinimalBroker s.client.reason = .ok b
  fired : s.written ++ s.outstanding = s.fired

variable {p : Protocol} {s t : Sender}

theorem inv_start (p : Protocol) : Inv p (start p) := by
  refine ⟨rfl, ?_, rfl⟩
  intro b hb
  cases hb

/-- The callback sends what was put in the slot. -/
theorem callback_put {c : LwsNetClient} {o : Outgoing} (ho : o.Suits c.currentProtocol) :
    (o.put c).callbackMinimalBroker (o.put c).reason = .ok o.bytes := by
  cases o with
  | text s =>
    have hr : (c.fire s).reason = .clientWriteable := if_pos ho
    rw [Outgoing.put, hr]
    exact stringAt_bytes s
  | raw b =>
    have hr : (c.rawFire b.data b.len).reason = .rawWriteable := if_neg ho
    rw [Outgoing.put, hr, LwsNetClient.callbackMinimalBroker]
    have hlen := b.len_le
    by_cases h0 : b.len = 0
    · rw [if_pos (by simp [LwsNetClient.rawFire, h0])]
      simp [Outgoing.bytes, h0]
    · rw [if_neg (by simpa [LwsNetClient.rawFire] using h0)]
      change copyOut b.data 0 b.len = _
      have hsplit : b.data.drop 0 = b.data.take b.len ++ b.data.drop b.len := by simp
      exact copyOut_drop_of_eq hsplit (by simp [hlen])

theorem step_fire (hs : Inv p s) {o : Outgoing} (ho : o.Suits p) :
    ∃ t, step s (.fire o) = .ok t ∧ Inv p t ∧ t.NoLoss := by
  refine ⟨_, rfl, ?_, by simp [NoLoss]⟩
  have hput : (o.put s.client).currentProtocol = p := by
    cases o <;> exact hs.protocol
  refine ⟨hput, ?_, ?_⟩
  · intro b hb
    obtain rfl : o.bytes = b := by simpa using hb
    exact callback_put (by rwa [hs.protocol])
  · simp [← hs.fired]

/-- A callback leaves no request outstanding, and the slot as it was. -/
theorem step_writeable {out : List UInt8}
    (h : s.client.callbackMinimalBroker s.client.reason = .ok out) :
    step s .writeable = .ok { s with outstanding := [], written := s.written ++ [out] } := by
  rw [step, h]; rfl

/-- What is written is what was fired exactly when one buffer waited. -/
theorem step_writeable_iff (hs : Inv p s) :
    (∃ t, step s .writeable = .ok t ∧ t.NoLoss) ↔ s.outstanding.length = 1 := by
  constructor
  · rintro ⟨t, ht, hloss⟩
    unfold step at ht
    obtain ⟨out, hout, ht⟩ := bind_eq_ok.1 ht
    cases ht
    have hw : s.written ++ [out] = s.written ++ s.outstanding := (hloss rfl).trans hs.fired.symm
    rw [← List.append_cancel_left hw]
    rfl
  · intro h
    obtain ⟨b, hb⟩ := List.length_eq_one_iff.1 h
    have hout := hs.slot b (by rw [hb]; rfl)
    refine ⟨_, step_writeable hout, fun _ => ?_⟩
    rw [← hs.fired, hb]

theorem step_inv (hs : Inv p s) {e : SendEvent} (he : e.Suits p) (ht : step s e = .ok t)
    (hloss : t.NoLoss) : Inv p t := by
  cases e with
  | fire o =>
    obtain ⟨u, hu, hinv, -⟩ := step_fire hs (he)
    obtain rfl : u = t := Except.ok.inj (hu.symm.trans ht)
    exact hinv
  | writeable =>
    unfold step at ht
    obtain ⟨out, -, ht⟩ := bind_eq_ok.1 ht
    cases ht
    refine ⟨hs.protocol, ?_, ?_⟩
    · intro b hb
      cases hb
    · exact (List.append_nil _).trans (hloss rfl)

theorem step_iff (hs : Inv p s) {e : SendEvent} (he : e.Suits p) :
    (∃ t, step s e = .ok t ∧ t.NoLoss) ↔ OneFire s e := by
  cases e with
  | fire o =>
    obtain ⟨t, ht, -, hloss⟩ := step_fire hs (he)
    exact ⟨fun _ h => (nomatch h), fun _ => ⟨t, ht, hloss⟩⟩
  | writeable =>
    rw [step_writeable_iff hs, OneFire]
    simp

/-- Over runs of any length, no buffer is lost or written twice if and only if every
writable callback comes after exactly one fire since the callback before it. -/
theorem noLoss_iff_oneFire (p : Protocol) (es : List SendEvent)
    (hsuits : ∀ e ∈ es, e.Suits p) :
    Always step NoLoss (start p) es ↔ Each step OneFire (start p) es :=
  always_iff_each (I := Inv p) (G := fun _ e => e.Suits p)
    (fun _ _ _ hs _ he ht hloss => step_inv hs he ht hloss)
    (fun _ _ hs _ he => step_iff hs he)
    (inv_start p) (fun _ => rfl) (each_of_forall fun e he _ => hsuits e he)

/-- A ping, sent. -/
theorem noLoss_ping :
    (∀ e ∈ [SendEvent.fire (.raw ⟨[0xc0, 0], 2, by decide⟩), .writeable], e.Suits .mqtt) ∧
      (Always step NoLoss (start .mqtt) [.fire (.raw ⟨[0xc0, 0], 2, by decide⟩), .writeable] ↔
        Each step OneFire (start .mqtt) [.fire (.raw ⟨[0xc0, 0], 2, by decide⟩), .writeable]) :=
  ⟨by decide, noLoss_iff_oneFire .mqtt _ (by decide)⟩

/-- Two buffers fired before the callback: the PUBACK of a received PUBLISH is lost behind
the ping of the timer. -/
theorem loses_puback :
    (∀ e ∈ [SendEvent.fire (.raw ⟨[0x40, 2, 0, 1], 4, by decide⟩),
      .fire (.raw ⟨[0xc0, 0], 2, by decide⟩), .writeable], e.Suits .mqtt) ∧
    ¬ Always step NoLoss (start .mqtt) [.fire (.raw ⟨[0x40, 2, 0, 1], 4, by decide⟩),
      .fire (.raw ⟨[0xc0, 0], 2, by decide⟩), .writeable] := by
  constructor <;> decide

end Sender

end IotClient.Net
