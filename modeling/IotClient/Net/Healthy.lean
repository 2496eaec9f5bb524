import Mathlib.Data.List.TakeWhile
import IotClient.Net.Datagrams

/-!
# A net service on which nothing fails

In a `Smooth` run the operating system takes every datagram, no datagram is empty and nobody stops
the service. The stream then stays open (`smooth_returns`), and every update reads all that arrived
and sends all that waits, as one datagram (`one_datagram`), in which messages that were written
since the last one are not told apart any more. The end of a run is another matter: what waits when
the service stops is dropped (`stop_drops`), and an empty datagram makes the next write one to
freed memory (`empty_datagram_frees`).
-/

namespace IotClient.Net

open Mem Machine

variable {σ ε : Type} {l : Listener σ ε} {n t u : NetService σ} {datas : List (List UInt8)}

/-- Nothing fails in the update. -/
structure Update.Smooth (u : Update) : Prop where
  noError : u.noError = true
  except : u.left.except = false
  recv : u.recvFails = false
  arrived : [] ∉ u.arrived
  send : u.send = .all

def NetEvent.Smooth : NetEvent ε → Prop
  | .call _ | .select => True
  | .handle u => u.Smooth
  | .stop => False

/-- The stream is open, and what it was given it has sent or will send in the next update. -/
structure Up (n : NetService σ) : Prop where
  state : n.s.state ≠ .closed
  listed : n.listed = true
  flagged : n.s.writeBuffer ≠ [] → n.s.written = true
  waiting : n.sent.flatten ++ n.s.writeBuffer = n.written.flatten

/-- `t` is `n` after it was given some more buffers. -/
structure Grows (n t : NetService σ) (datas : List (List UInt8)) : Prop where
  written : t.written = n.written ++ datas
  writeBuffer : t.s.writeBuffer = n.s.writeBuffer ++ datas.flatten
  flag : n.s.written = true ∨ datas ≠ [] → t.s.written = true
  state : n.s.state ≠ .closed → t.s.state ≠ .closed
  listed : t.listed = n.listed
  sent : t.sent = n.sent

theorem Grows.refl (n : NetService σ) : Grows n n [] where
  written := (List.append_nil _).symm
  writeBuffer := (List.append_nil _).symm
  flag h := h.resolve_right fun hne => hne rfl
  state h := h
  listed := rfl
  sent := rfl

theorem Grows.trans {datas' : List (List UInt8)} (h : Grows n t datas) (h' : Grows t u datas') :
    Grows n u (datas ++ datas') where
  written := by rw [h'.written, h.written, List.append_assoc]
  writeBuffer := by rw [h'.writeBuffer, h.writeBuffer, List.append_assoc, List.flatten_append]
  flag hflag := by
    apply h'.flag
    by_cases hdatas : datas = []
    · subst hdatas
      exact hflag.imp_left fun hn => h.flag (.inl hn)
    · exact .inl (h.flag (.inr hdatas))
  state hn := h'.state (h.state hn)
  listed := h'.listed.trans h.listed
  sent := h'.sent.trans h.sent

theorem Grows.up (h : Grows n t datas) (hn : Up n) : Up t where
  state := h.state hn.state
  listed := h.listed.trans hn.listed
  flagged hne := by
    apply h.flag
    by_cases hdatas : datas = []
    · subst hdatas
      rw [h.writeBuffer, List.flatten_nil, List.append_nil] at hne
      exact .inl (hn.flagged hne)
    · exact .inr hdatas
  waiting := by
    rw [h.sent, h.writeBuffer, h.written, ← List.append_assoc, hn.waiting, List.flatten_append]

theorem writeAll_grows (h : n.writeAll datas = .ok t) : Grows n t datas := by
  induction datas generalizing n with
  | nil =>
    cases h
    exact .refl _
  | cons data datas ih =>
    obtain ⟨u, hu, h⟩ := bind_eq_ok.1 h
    have hone : Grows n u [data] := by
      rw [writeToNet_eq hu]
      refine ⟨rfl, ?_, fun _ => rfl, fun h => h, rfl, rfl⟩
      rw [List.flatten_singleton]
      rfl
    exact hone.trans (ih h)

theorem call_grows {app : σ} {received : List (List UInt8)}
    (h : { n with app := app, received := received }.writeAll datas = .ok t) : Grows n t datas := by
  have hgrows := writeAll_grows h
  exact ⟨hgrows.written, hgrows.writeBuffer, hgrows.flag, hgrows.state, hgrows.listed, hgrows.sent⟩

theorem handleReceivedData_grows {arrived : List (List UInt8)} (hne : [] ∉ arrived)
    (h : NetService.handleReceivedData l false arrived n = .ok t) :
    (∃ datas, Grows n t datas) ∧ t.received = n.received ++ arrived.map (·.take 8191) := by
  constructor
  · induction arrived generalizing n with
    | nil =>
      cases h
      exact ⟨[], .refl _⟩
    | cons datagram arrived ih =>
      unfold NetService.handleReceivedData at h
      dsimp only at h
      have hdata : datagram.take 8191 ≠ [] := by
        intro h
        rw [List.take_eq_nil_iff] at h
        rcases h with h | rfl
        · omega
        · exact hne List.mem_cons_self
      rw [if_neg hdata] at h
      obtain ⟨u, hu, h⟩ := bind_eq_ok.1 h
      obtain ⟨⟨app, datas⟩, -, hu⟩ := bind_eq_ok.1 hu
      obtain ⟨datas', hgrows⟩ := ih (fun hmem => hne (List.mem_cons_of_mem _ hmem)) h
      exact ⟨datas ++ datas', (call_grows hu).trans hgrows⟩
  · rw [handleReceivedData_received h]
    congr 1
    rw [List.takeWhile_eq_self_iff]
    intro data hdata
    obtain ⟨datagram, hmem, rfl⟩ := List.mem_map.1 hdata
    apply decide_eq_true
    rw [Ne, List.take_eq_nil_iff]
    rintro (h | rfl)
    · omega
    · exact hne hmem

/-! ### Updates -/

/-- A buffer as a datagram; nothing is sent for an empty one. -/
def datagram (buffer : List UInt8) : List (List UInt8) := if buffer = [] then [] else [buffer]

theorem datagram_flatten (buffer : List UInt8) : (datagram buffer).flatten = buffer := by
  unfold datagram
  split
  · rename_i h
    exact h.symm
  · exact List.flatten_singleton

/-- `t` is `n` after it was given some more buffers and sent all it held. -/
structure Sends (n t : NetService σ) (datas : List (List UInt8)) : Prop where
  written : t.written = n.written ++ datas
  sent : t.sent = n.sent ++ datagram (n.s.writeBuffer ++ datas.flatten)
  writeBuffer : t.s.writeBuffer = []
  flag : t.s.written = false
  state : t.s.state ≠ .closed
  listed : t.listed = true

theorem Sends.up (h : Sends n t datas) (hn : Up n) : Up t where
  state := h.state
  listed := h.listed
  flagged hne := absurd h.writeBuffer hne
  waiting := by
    rw [h.sent, h.writeBuffer, h.written, List.append_nil, List.flatten_append, datagram_flatten,
      ← List.append_assoc, hn.waiting, List.flatten_append]

theorem flush_all (n : NetService σ) : (n.flush .all).s.writeBuffer = [] ∧
    (n.flush .all).s.written = false ∧ (n.flush .all).s.state = n.s.state ∧
    (n.flush .all).sent = n.sent ++ datagram n.s.writeBuffer := by
  unfold NetService.flush Stream.flushWriteBuffer datagram
  by_cases hempty : n.s.writeBuffer = []
  · simp only [hempty, if_true, Stream.setReady]
    exact ⟨trivial, trivial, trivial, trivial⟩
  · simp only [hempty, if_false, Stream.setReady, if_true]
    exact ⟨trivial, trivial, trivial, trivial⟩

theorem Grows.flush (h : Grows n t datas) (hn : Up n) : Sends n (t.flush .all) datas := by
  obtain ⟨hbuffer, hflag, hstate, hsent⟩ := flush_all t
  refine ⟨h.written, ?_, hbuffer, hflag, ?_, h.listed.trans hn.listed⟩
  · rw [hsent, h.sent, h.writeBuffer]
  · rw [hstate]
    exact h.state hn.state

theorem Grows.flushWritten (h : Grows n t datas) (hn : Up n) {u : Update} (hu : u.Smooth) :
    Sends n (t.flushWritten u) datas := by
  have ht := h.up hn
  unfold NetService.flushWritten
  rw [hu.send]
  split
  case isTrue => exact h.flush hn
  case isFalse hflag =>
    -- without the flag nothing waits
    have hwritten : ¬ t.s.written = true := fun hw => hflag ⟨hw, ht.state⟩
    have hempty : t.s.writeBuffer = [] := by
      by_contra hne
      exact hwritten (ht.flagged hne)
    refine ⟨h.written, ?_, hempty, Bool.eq_false_iff.2 hwritten, ht.state, ht.listed⟩
    rw [← h.writeBuffer, hempty, h.sent]
    exact (List.append_nil _).symm

theorem Sends.flushWritten (h : Sends n t datas) (u : Update) :
    Sends n (t.flushWritten u) datas := by
  unfold NetService.flushWritten
  rw [if_neg fun hw => by rw [h.flag] at hw; cases hw.1]
  exact h

theorem Grows.flushSelected (h : Grows n t datas) (hn : Up n) {u : Update} (hu : u.Smooth) :
    Sends n ((t.flushSelected u).flushWritten u) datas := by
  unfold NetService.flushSelected
  split
  · rw [hu.send]
    exact (h.flush hn).flushWritten u
  · exact h.flushWritten hn hu

/-- What a smooth update reads and sends. -/
structure Polled (n t : NetService σ) (u : Update) : Prop where
  sends : ∃ datas, Sends n t datas
  received : n.s.state = .connected → n.selectSet.read = true → u.left.read = true →
    t.received = n.received ++ u.arrived.map (·.take 8191)

theorem handleStream_polled (hn : Up n) {u : Update} (hu : u.Smooth)
    (h : n.handleStream l u = .ok t) : Polled n (t.flushWritten u) u := by
  unfold NetService.handleStream at h
  split at h
  case h_1 =>
    obtain ⟨m, hm, h⟩ := bind_eq_ok.1 h
    cases h
    unfold NetService.receive at hm
    rw [hu.recv] at hm
    split at hm
    case isTrue =>
      obtain ⟨⟨datas, hgrows⟩, hreceived⟩ := handleReceivedData_grows hu.arrived hm
      refine ⟨⟨datas, hgrows.flushSelected hn hu⟩, fun _ _ _ => ?_⟩
      rw [flushWritten_received, flushSelected_received, hreceived]
    case isFalse hunread =>
      cases hm
      refine ⟨⟨[], (Grows.refl n).flushSelected hn hu⟩, fun _ hread hleft => ?_⟩
      rw [hread, hleft] at hunread
      exact absurd rfl hunread
  case h_2 hconnecting =>
    refine ⟨⟨[], ?_⟩, fun hconnected => ?_⟩
    · split at h
      · cases h
        have hgrows : Grows n { n with s.state := .connected } [] :=
          { Grows.refl n with state := fun _ => StreamState.noConfusion }
        rw [if_pos hu.noError]
        exact hgrows.flushWritten hn hu
      · cases h
        rw [hu.except, Bool.and_false, if_neg Bool.false_ne_true]
        exact (Grows.refl n).flushWritten hn hu
    · rw [hconnecting] at hconnected
      cases hconnected
  case h_3 hclosed => exact absurd hclosed hn.state

theorem handle_polled (hn : Up n) {u : Update} (hu : u.Smooth) (hw : n.worker = .selecting)
    (h : n.handle l u = .ok t) : Polled n t u := by
  unfold NetService.handle at h
  rw [if_pos hw, if_pos hn.listed] at h
  obtain ⟨m, hm, h⟩ := bind_eq_ok.1 h
  cases h
  obtain ⟨⟨datas, hsends⟩, hreceived⟩ := handleStream_polled hn hu hm
  exact ⟨⟨datas, hsends.written, hsends.sent, hsends.writeBuffer, hsends.flag, hsends.state,
    hsends.listed⟩, hreceived⟩

/-! ### Runs -/

theorem up_init (app : σ) : Up (initNetService app true true).1 where
  state := StreamState.noConfusion
  listed := rfl
  flagged h := absurd rfl h
  waiting := rfl

theorem step_up (hn : Up n) {e : NetEvent ε} (he : e.Smooth) (h : NetService.step l n e = .ok t) :
    Up t := by
  cases e with
  | call e =>
    obtain ⟨⟨app, datas⟩, -, h⟩ := bind_eq_ok.1 h
    have hgrows : Grows n t datas := call_grows h
    exact hgrows.up hn
  | select =>
    cases h
    unfold NetService.select NetService.destroyClosedStreams
    split
    · rw [if_neg hn.state, if_pos hn.listed]
      exact ⟨hn.state, hn.listed, hn.flagged, hn.waiting⟩
    · exact hn
  | handle u =>
    by_cases hw : n.worker = .selecting
    · obtain ⟨⟨datas, hsends⟩, -⟩ := handle_polled hn he hw h
      exact hsends.up hn
    · change n.handle l u = .ok t at h
      unfold NetService.handle at h
      rw [if_neg hw] at h
      cases h
      exact hn
  | stop => exact he.elim

theorem run_up {es : List (NetEvent ε)} (hn : Up n) (hes : ∀ e ∈ es, e.Smooth)
    (h : run (NetService.step l) n es = .ok t) : Up t := by
  induction es generalizing n with
  | nil =>
    cases h
    exact hn
  | cons e es ih =>
    obtain ⟨u, hu, h⟩ := run_cons_eq_ok.1 h
    exact ih (step_up hn (hes e List.mem_cons_self) hu)
      (fun f hf => hes f (List.mem_cons_of_mem _ hf)) h

/-- In a smooth run every update reads all that has arrived, and sends what was written since the
last update and what the client answers as one datagram. -/
theorem one_datagram {app : σ} {es : List (NetEvent ε)} {u : Update}
    (hes : ∀ e ∈ es, e.Smooth) (hu : u.Smooth)
    (hn : run (NetService.step l) (initNetService app true true).1 es = .ok n)
    (hw : n.worker = .selecting) (ht : NetService.step l n (.handle u) = .ok t) :
    t.s.writeBuffer = [] ∧ t.sent.flatten = t.written.flatten ∧
      (∃ answers, t.written = n.written ++ answers ∧
        t.sent = n.sent ++ datagram (n.s.writeBuffer ++ answers.flatten)) ∧
      (n.s.state = .connected → n.selectSet.read = true → u.left.read = true →
        t.received = n.received ++ u.arrived.map (·.take 8191)) := by
  have hup := run_up (up_init app) hes hn
  obtain ⟨⟨datas, hsends⟩, hreceived⟩ := handle_polled hup hu hw ht
  have hwaiting := (hsends.up hup).waiting
  rw [hsends.writeBuffer, List.append_nil] at hwaiting
  exact ⟨hsends.writeBuffer, hwaiting, ⟨datas, hsends.written, hsends.sent⟩, hreceived⟩

theorem writeAll_returns (datas : List (List UInt8)) (hn : n.listed = true) :
    ∃ t, n.writeAll datas = .ok t := by
  induction datas generalizing n with
  | nil => exact ⟨n, rfl⟩
  | cons data datas ih =>
    have hwrite : n.writeToNet data =
        .ok { n with s := n.s.write data, written := n.written ++ [data] } := if_pos hn
    obtain ⟨t, ht⟩ := ih (n := { n with s := n.s.write data, written := n.written ++ [data] }) hn
    refine ⟨t, ?_⟩
    unfold NetService.writeAll
    rw [List.foldlM_cons, hwrite]
    exact ht

theorem handleReceivedData_returns (hprd : ∀ c data, Returns (l.prd c data)) (fails : Bool)
    (arrived : List (List UInt8)) (hn : n.listed = true) :
    ∃ t, NetService.handleReceivedData l fails arrived n = .ok t := by
  induction arrived generalizing n with
  | nil => exact ⟨_, rfl⟩
  | cons datagram arrived ih =>
    unfold NetService.handleReceivedData
    dsimp only
    split
    · exact ⟨_, rfl⟩
    · obtain ⟨⟨app, datas⟩, hcall⟩ := hprd n.app (datagram.take 8191)
      obtain ⟨u, hu⟩ := writeAll_returns datas
        (n := { n with app := app, received := n.received ++ [datagram.take 8191] }) hn
      obtain ⟨t, ht⟩ := ih ((writeAll_grows hu).listed.trans hn)
      have hdata : n.onData l (datagram.take 8191) = .ok u := by
        unfold NetService.onData
        rw [hcall]
        exact hu
      exact ⟨t, by rw [hdata, ok_bind, ht]⟩

theorem handle_returns (hprd : ∀ c data, Returns (l.prd c data)) (hn : Up n) (u : Update) :
    ∃ t, n.handle l u = .ok t := by
  have hstream : ∃ t, n.handleStream l u = .ok t := by
    unfold NetService.handleStream NetService.receive
    split
    · split
      · obtain ⟨t, ht⟩ := handleReceivedData_returns hprd u.recvFails u.arrived hn.listed
        rw [ht]
        exact ⟨_, rfl⟩
      · exact ⟨_, rfl⟩
    · split <;> exact ⟨_, rfl⟩
    · exact ⟨_, rfl⟩
  unfold NetService.handle
  split
  · rw [if_pos hn.listed]
    obtain ⟨t, ht⟩ := hstream
    rw [ht]
    exact ⟨_, rfl⟩
  · exact ⟨_, rfl⟩

/-- In a smooth run nobody writes to a freed stream: only the client itself can fault. -/
theorem smooth_returns {app : σ} {es : List (NetEvent ε)} (hcall : ∀ c e, Returns (l.call c e))
    (hprd : ∀ c data, Returns (l.prd c data)) (hes : ∀ e ∈ es, e.Smooth) :
    ∃ t, run (NetService.step l) (initNetService app true true).1 es = .ok t ∧
      t.s.state ≠ .closed ∧ t.listed = true := by
  have hup : Up (initNetService app true true).1 := up_init app
  generalize (initNetService app true true).1 = n at hup
  induction es generalizing n with
  | nil => exact ⟨n, rfl, hup.state, hup.listed⟩
  | cons e es ih =>
    obtain ⟨u, hu⟩ : ∃ u, NetService.step l n e = .ok u := by
      cases e with
      | call e =>
        obtain ⟨⟨app, datas⟩, he⟩ := hcall n.app e
        obtain ⟨t, ht⟩ := writeAll_returns datas (n := { n with app := app }) hup.listed
        refine ⟨t, ?_⟩
        show n.call l e = _
        unfold NetService.call
        rw [he]
        exact ht
      | select => exact ⟨_, rfl⟩
      | handle u => exact handle_returns hprd hup u
      | stop => exact ⟨_, rfl⟩
    rw [run_cons hu]
    exact ih (fun f hf => hes f (List.mem_cons_of_mem _ hf)) u
      (step_up hup (hes e List.mem_cons_self) hu)

/-- A client that writes what it is called with, and answers data with the data. -/
def echo : Listener Unit (List UInt8) where
  call _ data := .ok ((), [data])
  prd _ data := .ok ((), [data])

/-- The events up to an update of a connected stream, with a byte written before it. -/
def echoEvents : List (NetEvent (List UInt8)) :=
  [.select, .handle ⟨⟨false, true, false⟩, true, [], false, .all⟩, .select, .call [1]]

theorem smooth_echoEvents : ∀ e ∈ echoEvents, e.Smooth := by
  intro e he
  simp only [echoEvents, List.mem_cons, List.not_mem_nil, or_false] at he
  rcases he with rfl | rfl | rfl | rfl
  · trivial
  · exact ⟨rfl, rfl, rfl, List.not_mem_nil, rfl⟩
  · trivial
  · trivial

/-- Two datagrams arrive. -/
def echoUpdate : Update := ⟨⟨true, true, false⟩, true, [[2], [3]], false, .all⟩

theorem one_datagram_echo : ∃ n t,
    run (NetService.step echo) (initNetService () true true).1 echoEvents = .ok n ∧
    NetService.step echo n (.handle echoUpdate) = .ok t ∧
    t.s.writeBuffer = [] ∧ t.sent.flatten = t.written.flatten ∧
      (∃ answers, t.written = n.written ++ answers ∧
        t.sent = n.sent ++ datagram (n.s.writeBuffer ++ answers.flatten)) ∧
      (n.s.state = .connected → n.selectSet.read = true → echoUpdate.left.read = true →
        t.received = n.received ++ echoUpdate.arrived.map (·.take 8191)) :=
  ⟨_, _, rfl, rfl, @one_datagram _ _ echo _ _ () echoEvents echoUpdate smooth_echoEvents
    ⟨rfl, rfl, rfl, by decide, rfl⟩ rfl rfl rfl⟩

theorem smooth_returns_echo : ∃ t,
    run (NetService.step echo) (initNetService () true true).1 echoEvents = .ok t ∧
      t.s.state ≠ .closed ∧ t.listed = true :=
  smooth_returns (fun _ _ => ⟨_, rfl⟩) (fun _ _ => ⟨_, rfl⟩) smooth_echoEvents

/-! ### The end of a stream -/

/-- The stream was closed and freed. -/
structure Gone (n : NetService σ) : Prop where
  state : n.s.state = .closed
  listed : n.listed = false

theorem writeAll_gone (hn : n.listed = false) (h : n.writeAll datas = .ok t) : t = n := by
  cases datas with
  | nil =>
    cases h
    rfl
  | cons data datas =>
    obtain ⟨u, hu, -⟩ := bind_eq_ok.1 h
    have hfreed : n.writeToNet data = .error .indet := by
      unfold NetService.writeToNet
      rw [hn]
      rfl
    cases hfreed.symm.trans hu

theorem step_gone (hn : Gone n) {e : NetEvent ε} (h : NetService.step l n e = .ok t) :
    Gone t ∧ t.sent = n.sent := by
  cases e with
  | call e =>
    obtain ⟨⟨app, datas⟩, -, h⟩ := bind_eq_ok.1 h
    obtain rfl : t = { n with app := app } := writeAll_gone hn.listed h
    exact ⟨⟨hn.state, hn.listed⟩, rfl⟩
  | select =>
    cases h
    unfold NetService.select
    rw [hn.listed, if_neg Bool.false_ne_true]
    split
    · exact ⟨⟨hn.state, rfl⟩, rfl⟩
    · exact ⟨hn, rfl⟩
  | handle u =>
    change n.handle l u = .ok t at h
    unfold NetService.handle at h
    rw [hn.listed, if_neg Bool.false_ne_true] at h
    split at h <;> cases h
    · exact ⟨⟨hn.state, rfl⟩, rfl⟩
    · exact ⟨hn, rfl⟩
  | stop =>
    cases h
    exact ⟨⟨Stream.close_state n.s, rfl⟩, rfl⟩

theorem run_gone {es : List (NetEvent ε)} (hn : Gone n)
    (h : run (NetService.step l) n es = .ok t) : t.sent = n.sent := by
  induction es generalizing n with
  | nil =>
    cases h
    rfl
  | cons e es ih =>
    obtain ⟨u, hu, h⟩ := run_cons_eq_ok.1 h
    obtain ⟨hgone, hsent⟩ := step_gone hn hu
    exact (ih hgone h).trans hsent

theorem stopped_sent {fs : List (NetEvent ε)}
    (h : run (NetService.step l) n (.stop :: fs) = .ok t) : t.sent = n.sent := by
  obtain ⟨u, hu, h⟩ := run_cons_eq_ok.1 h
  cases hu
  have hgone : Gone n.stopNetService := ⟨Stream.close_state n.s, rfl⟩
  have hsent : n.stopNetService.sent = n.sent := by
    unfold NetService.stopNetService NetService.close
    rfl
  exact (run_gone hgone h).trans hsent

/-- Whatever follows `stop_net_service`, the bytes that waited when it was called are not sent. -/
theorem stop_drops {app : σ} {resolved created : Bool} {es fs : List (NetEvent ε)}
    (hn : run (NetService.step l) (initNetService app resolved created).1 es = .ok n)
    (ht : run (NetService.step l) n (.stop :: fs) = .ok t) :
    t.sent = n.sent ∧
      (n.s.state ≠ .closed → t.sent.flatten ++ n.s.writeBuffer = n.written.flatten) := by
  have hsent := stopped_sent ht
  refine ⟨hsent, fun hopen => ?_⟩
  rw [hsent]
  exact (sent_in_order hn).2 hopen

theorem stop_drops_echo : ∃ n t,
    run (NetService.step echo) (initNetService () true true).1 echoEvents = .ok n ∧
    run (NetService.step echo) n [.stop, .select] = .ok t ∧
    t.sent = n.sent ∧
      (n.s.state ≠ .closed → t.sent.flatten ++ n.s.writeBuffer = n.written.flatten) :=
  ⟨_, _, rfl, rfl, @stop_drops _ _ echo _ _ () true true echoEvents [.select] rfl rfl⟩

theorem handleReceivedData_empty {fails : Bool} {pre post : List (List UInt8)}
    (h : NetService.handleReceivedData l fails (pre ++ [] :: post) n = .ok t) :
    t.s.state = .closed := by
  induction pre generalizing n with
  | nil =>
    cases h
    exact Stream.close_state _
  | cons datagram pre ih =>
    rw [List.cons_append] at h
    unfold NetService.handleReceivedData at h
    dsimp only at h
    split at h
    · cases h
      exact Stream.close_state _
    · obtain ⟨u, -, h⟩ := bind_eq_ok.1 h
      exact ih h

/-- After an empty datagram the next update of the worker frees the stream, and the next message
is written to freed memory. -/
theorem empty_datagram_frees {u : Update} {pre post : List (List UInt8)} {e : ε} {app : σ}
    {data : List UInt8} (hw : n.worker = .selecting) (hlisted : n.listed = true)
    (hstate : n.s.state = .connected) (hread : n.selectSet.read = true) (hleft : u.left.read = true)
    (harrived : u.arrived = pre ++ [] :: post)
    (ht : run (NetService.step l) n [.handle u, .select] = .ok t)
    (he : l.call t.app e = .ok (app, data :: datas)) :
    NetService.step l t (.call e) = .error .indet := by
  obtain ⟨k, hk, ht⟩ := run_cons_eq_ok.1 ht
  change n.handle l u = .ok k at hk
  unfold NetService.handle at hk
  rw [if_pos hw, if_pos hlisted] at hk
  obtain ⟨m, hm, hk⟩ := bind_eq_ok.1 hk
  cases hk
  unfold NetService.handleStream NetService.receive at hm
  rw [hstate, hread, hleft, harrived] at hm
  obtain ⟨v, hv, hm⟩ := bind_eq_ok.1 hm
  cases hm
  have hclosed : v.s.state = .closed := handleReceivedData_empty hv
  have hselected : v.flushSelected u = v := by
    unfold NetService.flushSelected
    exact if_neg fun h => h.1 hclosed
  have hwritten : v.flushWritten u = v := by
    unfold NetService.flushWritten
    exact if_neg fun h => h.2 hclosed
  rw [hselected, hwritten] at ht
  have hfreed : t.listed = false := by
    obtain ⟨w, hw, ht⟩ := run_cons_eq_ok.1 ht
    cases hw
    cases ht
    unfold NetService.select NetService.destroyClosedStreams
    rw [if_pos rfl, if_pos hclosed]
    split
    · rfl
    · rename_i hgone
      exact Bool.eq_false_iff.2 hgone
  show NetService.call l t e = _
  unfold NetService.call
  rw [he]
  show ({ t with app := app }.writeToNet data >>= _) = _
  unfold NetService.writeToNet
  rw [hfreed]
  rfl

/-- The state after `echoEvents`. -/
def echoing : NetService Unit :=
  ⟨(), ⟨.connected, false, true, [1]⟩, true, ⟨true, true, false⟩, .selecting, [[1]], [], []⟩

theorem empty_datagram_frees_echo : ∃ t,
    run (NetService.step echo) (initNetService () true true).1 echoEvents = .ok echoing ∧
    run (NetService.step echo) echoing
      [.handle ⟨⟨true, true, false⟩, true, [[2], [], [3]], false, .all⟩, .select] = .ok t ∧
    NetService.step echo t (.call [4]) = .error .indet :=
  ⟨_, rfl, rfl, @empty_datagram_frees _ _ echo echoing _ []
    ⟨⟨true, true, false⟩, true, [[2], [], [3]], false, .all⟩ [[2]] [[3]] [4] () [4] rfl rfl rfl rfl
    rfl rfl rfl rfl⟩

end IotClient.Net
