import Mathlib.Data.List.Forall2
import IotClient.Machine.Requests
import IotClient.Net.Healthy

/-!
# Clients that log their messages

A `Logging` client keeps in `wire` the messages it fires and those it decodes, in order. As a
`Listener` it writes the frames of the messages it fires. `session_in_order` is what its messages
become on a net service: the frames of what it fires are what the service is given, so their bytes
are sent in order, and it reads the datagrams that arrived, in order. Before it stands how an
invariant that a client keeps is kept in the runs of its service (`Stable`).
-/

namespace IotClient.Net

open Mem Machine

/-! ### Invariants of the client -/

section Stable

variable {σ ε : Type} {l : Listener σ ε} {n t : NetService σ} {I : NetService σ → Prop}
  {P : σ → Prop} {datas : List (List UInt8)}

theorem writeAll_app (h : n.writeAll datas = .ok t) : t.app = n.app := by
  induction datas generalizing n with
  | nil =>
    cases h
    rfl
  | cons data datas ih =>
    obtain ⟨u, hu, h⟩ := bind_eq_ok.1 h
    rw [ih h, writeToNet_eq hu]

/-- The client and what it exchanged with the net service stay as they are. -/
structure Quiet (n t : NetService σ) : Prop where
  app : t.app = n.app
  written : t.written = n.written
  received : t.received = n.received

theorem Quiet.refl (n : NetService σ) : Quiet n n := ⟨rfl, rfl, rfl⟩

theorem quiet_flushSelected (u : Update) : Quiet n (n.flushSelected u) := by
  unfold NetService.flushSelected
  split <;> exact ⟨rfl, rfl, rfl⟩

theorem quiet_flushWritten (u : Update) : Quiet n (n.flushWritten u) := by
  unfold NetService.flushWritten
  split <;> exact ⟨rfl, rfl, rfl⟩

theorem quiet_select : Quiet n n.select := by
  unfold NetService.select NetService.destroyClosedStreams
  split
  · split
    · split <;> exact ⟨rfl, rfl, rfl⟩
    · exact ⟨rfl, rfl, rfl⟩
  · exact .refl n

/-- An invariant that the calls keep and the data that arrive, and that is about nothing else. -/
structure Stable (l : Listener σ ε) (I : NetService σ → Prop) : Prop where
  quiet : ∀ {n t}, I n → Quiet n t → I t
  call : ∀ {n t e}, I n → n.call l e = .ok t → I t
  onData : ∀ {n t data}, I n → n.onData l data = .ok t → I t

namespace Stable

/-- What the client keeps whatever it is called with. -/
theorem of_app (hcall : ∀ {c e r}, P c → l.call c e = .ok r → P r.1)
    (hprd : ∀ {c data r}, P c → l.prd c data = .ok r → P r.1) :
    Stable l fun n => P n.app where
  quiet hn h := by rwa [h.app]
  call hn h := by
    obtain ⟨⟨app, datas⟩, hr, h⟩ := bind_eq_ok.1 h
    rw [writeAll_app h]
    exact hcall hn hr
  onData hn h := by
    obtain ⟨⟨app, datas⟩, hr, h⟩ := bind_eq_ok.1 h
    rw [writeAll_app h]
    exact hprd hn hr

variable (hI : Stable l I)

include hI

theorem handleReceivedData {fails : Bool} {arrived : List (List UInt8)} (hn : I n)
    (h : NetService.handleReceivedData l fails arrived n = .ok t) : I t := by
  induction arrived generalizing n with
  | nil =>
    cases h
    exact hI.quiet hn (by split <;> exact ⟨rfl, rfl, rfl⟩)
  | cons datagram arrived ih =>
    unfold NetService.handleReceivedData at h
    dsimp only at h
    split at h
    · cases h
      exact hI.quiet hn ⟨rfl, rfl, rfl⟩
    · obtain ⟨u, hu, h⟩ := bind_eq_ok.1 h
      exact ih (hI.onData hn hu) h

theorem handleStream (hn : I n) {u : Update} (h : n.handleStream l u = .ok t) : I t := by
  unfold NetService.handleStream at h
  split at h
  case h_1 =>
    obtain ⟨m, hm, h⟩ := bind_eq_ok.1 h
    cases h
    have hreceived : I m := by
      unfold NetService.receive at hm
      split at hm
      · exact hI.handleReceivedData hn hm
      · cases hm
        exact hn
    exact hI.quiet hreceived (quiet_flushSelected u)
  case h_2 =>
    split at h <;> cases h <;> exact hI.quiet hn (by split <;> exact ⟨rfl, rfl, rfl⟩)
  case h_3 =>
    cases h
    exact hn

theorem step (hn : I n) {e : NetEvent ε} (h : NetService.step l n e = .ok t) : I t := by
  cases e with
  | call e => exact hI.call hn h
  | select =>
    cases h
    exact hI.quiet hn quiet_select
  | handle u =>
    change n.handle l u = .ok t at h
    unfold NetService.handle at h
    split at h
    · split at h
      · obtain ⟨m, hm, h⟩ := bind_eq_ok.1 h
        cases h
        have hflushed := hI.quiet (hI.handleStream hn hm) (quiet_flushWritten u)
        exact hI.quiet hflushed ⟨rfl, rfl, rfl⟩
      · cases h
        exact hI.quiet hn ⟨rfl, rfl, rfl⟩
    · cases h
      exact hn
  | stop =>
    cases h
    exact hI.quiet hn ⟨rfl, rfl, rfl⟩

theorem run {es : List (NetEvent ε)} (hn : I n)
    (h : Machine.run (NetService.step l) n es = .ok t) : I t :=
  run_keeps (G := fun _ _ => True) (fun _ _ _ _ hn _ => hI.step hn) hn
    (each_of_forall fun _ _ _ => trivial) h

end Stable

end Stable

/-! ### Logs -/

/-- The messages of a log that were sent. -/
def sentOf {μ : Type} (wire : List (Traffic μ)) : List μ :=
  wire.filterMap fun | .sent m => some m | _ => none

/-- The messages of a log that were received. -/
def receivedOf {μ : Type} (wire : List (Traffic μ)) : List μ :=
  wire.filterMap fun | .received m => some m | _ => none

theorem sentOf_append {μ : Type} (xs ys : List (Traffic μ)) :
    sentOf (xs ++ ys) = sentOf xs ++ sentOf ys :=
  List.filterMap_append

theorem receivedOf_append {μ : Type} (xs ys : List (Traffic μ)) :
    receivedOf (xs ++ ys) = receivedOf xs ++ receivedOf ys :=
  List.filterMap_append

section Kinds

variable {μ : Type} {m : μ}

theorem sentOf_sent : sentOf [.sent m] = [m] := rfl

theorem receivedOf_sent : receivedOf [.sent m] = [] := rfl

theorem receivedOf_queued : receivedOf [.queued m] = [] := rfl

theorem sentOf_queued : sentOf [.queued m] = [] := rfl

theorem sentOf_received : sentOf [.received m] = [] := rfl

end Kinds

/-- From `c` to `t` messages were fired or kept back, and none received. -/
def Fires {σ μ : Type} (wire : σ → List (Traffic μ)) (c t : σ) : Prop :=
  ∃ xs, wire t = wire c ++ xs ∧ receivedOf xs = []

namespace Fires

variable {σ μ : Type} {wire : σ → List (Traffic μ)} {c d t : σ}

theorem of_wire (h : wire t = wire c) : Fires wire c t := ⟨[], by rw [h, List.append_nil], rfl⟩

theorem refl (c : σ) : Fires wire c c := of_wire rfl

theorem trans (h : Fires wire c d) (h' : Fires wire d t) : Fires wire c t := by
  obtain ⟨xs, hxs, hreceived⟩ := h
  obtain ⟨ys, hys, hreceived'⟩ := h'
  refine ⟨xs ++ ys, by rw [hys, hxs, List.append_assoc], ?_⟩
  rw [receivedOf_append, hreceived, hreceived', List.append_nil]

end Fires

/-- The bytes of a block that is passed to `write_to_net` with its size. -/
def blockBytes (b : List (Option UInt8)) : Run (List UInt8) :=
  b.mapM fun | some x => .ok x | none => .error .indet

/-- A client with a log. `reads` says what a datagram may be read as, which is nothing where it is
refused, and then nothing is logged. -/
structure Logging (σ ε μ : Type) where
  wire : σ → List (Traffic μ)
  frame : μ → Run (List UInt8)
  reads : List UInt8 → Option μ → Prop
  call : σ → ε → Run σ
  receive : σ → List UInt8 → Run σ
  call_logs : ∀ {c t e}, call c e = .ok t → Fires wire c t
  receive_logs : ∀ {c t data}, receive c data = .ok t → ∃ xs m, wire t = wire c ++ xs ∧
    reads data m ∧ receivedOf xs = m.toList

namespace Logging

variable {σ ε μ : Type} (L : Logging σ ε μ)

/-- The frames of the messages fired from `c` to `t`. -/
def fired (c t : σ) : Run (List (List UInt8)) :=
  (sentOf ((L.wire t).drop (L.wire c).length)).mapM L.frame

def listener : Listener σ ε where
  call c e := do
    let t ← L.call c e
    pure (t, ← L.fired c t)
  prd c data := do
    let t ← L.receive c data
    pure (t, ← L.fired c t)

variable {L} {n t : NetService σ} {c d : σ} {datas : List (List UInt8)}

/-- The log of the client is what the net service was given and has read. -/
structure Logged (L : Logging σ ε μ) (n : NetService σ) : Prop where
  written : (sentOf (L.wire n.app)).mapM L.frame = .ok n.written
  received : ∃ ms, List.Forall₂ L.reads n.received ms ∧ ms.filterMap id = receivedOf (L.wire n.app)

theorem mapM_append_ok {α β : Type} {f : α → Run β} {xs ys : List α} {as bs : List β}
    (hx : xs.mapM f = .ok as) (hy : ys.mapM f = .ok bs) : (xs ++ ys).mapM f = .ok (as ++ bs) := by
  rw [List.mapM_append, hx, ok_bind, hy, ok_bind, pure_eq_ok]

/-- What the frames of the new messages are. -/
theorem fired_eq {xs : List (Traffic μ)} (hwire : L.wire d = L.wire c ++ xs)
    (h : L.fired c d = .ok datas) : (sentOf xs).mapM L.frame = .ok datas := by
  unfold fired at h
  rwa [hwire, List.drop_left] at h

theorem Logged.fire {xs : List (Traffic μ)} (hn : Logged L n)
    (hwire : L.wire d = L.wire n.app ++ xs) (h : L.fired n.app d = .ok datas) :
    (sentOf (L.wire d)).mapM L.frame = .ok (n.written ++ datas) := by
  rw [hwire, sentOf_append]
  exact mapM_append_ok hn.written (fired_eq hwire h)

theorem Logged.call (hn : Logged L n) {e : ε} (h : n.call L.listener e = .ok t) : Logged L t := by
  obtain ⟨⟨d, datas⟩, hcall, h⟩ := bind_eq_ok.1 h
  obtain ⟨u, hu, hcall⟩ := bind_eq_ok.1 hcall
  obtain ⟨frames, hframes, hcall⟩ := bind_eq_ok.1 hcall
  cases hcall
  change { n with app := d }.writeAll datas = .ok t at h
  obtain ⟨xs, hwire, hxs⟩ := L.call_logs hu
  have happ : t.app = d := writeAll_app h
  have hwritten : t.written = n.written ++ datas := (writeAll_grows h).written
  have hreceived : t.received = { n with app := d }.received := writeAll_received h
  refine ⟨?_, ?_⟩
  · rw [happ, hwritten]
    exact hn.fire hwire hframes
  · obtain ⟨ms, hms, hlog⟩ := hn.received
    refine ⟨ms, by rwa [hreceived], ?_⟩
    rw [happ, hwire, receivedOf_append, hlog, hxs, List.append_nil]

theorem Logged.onData (hn : Logged L n) {data : List UInt8}
    (h : n.onData L.listener data = .ok t) : Logged L t := by
  obtain ⟨⟨d, datas⟩, hprd, h⟩ := bind_eq_ok.1 h
  obtain ⟨u, hu, hprd⟩ := bind_eq_ok.1 hprd
  obtain ⟨frames, hframes, hprd⟩ := bind_eq_ok.1 hprd
  cases hprd
  change { n with app := d, received := n.received ++ [data] }.writeAll datas = .ok t at h
  obtain ⟨xs, m, hwire, hreads, hxs⟩ := L.receive_logs hu
  have happ : t.app = d := writeAll_app h
  have hwritten : t.written = n.written ++ datas := (writeAll_grows h).written
  have hreceived : t.received = n.received ++ [data] := writeAll_received h
  refine ⟨?_, ?_⟩
  · rw [happ, hwritten]
    exact hn.fire hwire hframes
  · obtain ⟨ms, hms, hlog⟩ := hn.received
    refine ⟨ms ++ [m], ?_, ?_⟩
    · rw [hreceived]
      exact List.rel_append hms (.cons hreads .nil)
    · rw [happ, hwire, receivedOf_append, List.filterMap_append, hlog, hxs]
      cases m <;> rfl

theorem stable_logged : Stable L.listener (Logged L) where
  quiet hn h := by
    refine ⟨?_, ?_⟩
    · rw [h.app, h.written]
      exact hn.written
    · rw [h.app, h.received]
      exact hn.received
  call hn h := hn.call h
  onData hn h := hn.onData h

theorem logged_init (app : σ) (happ : L.wire app = []) (resolved created : Bool) :
    Logged L (initNetService app resolved created).1 := by
  have hinit : (initNetService app resolved created).1.app = app ∧
      (initNetService app resolved created).1.written = [] ∧
      (initNetService app resolved created).1.received = [] := by
    cases resolved <;> cases created <;> exact ⟨rfl, rfl, rfl⟩
  obtain ⟨ha, hw, hr⟩ := hinit
  refine ⟨?_, [], ?_, ?_⟩
  · rw [ha, happ, hw]
    rfl
  · rw [hr]
    exact .nil
  · rw [ha, happ]
    rfl

/-- What a client fires goes out in order as the bytes of its frames, of which only the last may be
missing; what it has read are the datagrams that arrived, in order. -/
theorem session_in_order {app : σ} (happ : L.wire app = []) {resolved created : Bool}
    {es : List (NetEvent ε)}
    (h : Machine.run (NetService.step L.listener) (initNetService app resolved created).1 es =
      .ok t) :
    (∃ frames, (sentOf (L.wire t.app)).mapM L.frame = .ok frames ∧
      t.sent.flatten <+: frames.flatten ∧
      (t.s.state ≠ .closed → t.sent.flatten ++ t.s.writeBuffer = frames.flatten)) ∧
    ∃ (datagrams : List (List UInt8)) (ms : List (Option μ)),
      datagrams.Sublist ((es.flatMap NetEvent.arrived).map (·.take 8191)) ∧
      List.Forall₂ L.reads datagrams ms ∧ ms.filterMap id = receivedOf (L.wire t.app) := by
  obtain ⟨hwritten, ms, hms, hlog⟩ := stable_logged.run (logged_init app happ resolved created) h
  exact ⟨⟨t.written, hwritten, sent_in_order h⟩, t.received, ms, (received_in_order h).2, hms, hlog⟩

end Logging

end IotClient.Net
