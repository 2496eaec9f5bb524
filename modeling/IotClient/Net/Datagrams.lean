import Mathlib.Logic.Relation
import IotClient.Machine.Runs
import IotClient.Net.Dyad

/-!
# Runs of the net service

Whatever the client, the threads and the operating system do, the stream sends the bytes it was
given once and in order (`sent_in_order`), and the client reads the datagrams that arrive once and
in order (`received_in_order`).
-/

namespace IotClient.Net

open Mem Machine Relation

variable {σ ε : Type} {l : Listener σ ε} {n t : NetService σ}

/-! ### Moves -/

/-- What a step is made of. -/
inductive Move : NetService σ → NetService σ → Prop where
  | write (n : NetService σ) (data : List UInt8) :
    Move n { n with s := n.s.write data, written := n.written ++ [data] }
  | flush (n : NetService σ) (result : SendResult) : n.s.state ≠ .closed → Move n (n.flush result)
  | close (n : NetService σ) : Move n n.close
  | connected (n : NetService σ) : n.s.state ≠ .closed → Move n { n with s.state := .connected }
  | other (n : NetService σ) (app : σ) (listed : Bool) (selectSet : SelectSet) (worker : Worker)
    (received : List (List UInt8)) : Move n { n with
      app := app, listed := listed, selectSet := selectSet, worker := worker, received := received }

/-- Several moves. -/
abbrev Moves : NetService σ → NetService σ → Prop := ReflTransGen Move

theorem writeToNet_eq {data : List UInt8} (h : n.writeToNet data = .ok t) :
    t = { n with s := n.s.write data, written := n.written ++ [data] } := by
  unfold NetService.writeToNet at h
  split at h
  · cases h
    rfl
  · cases h

theorem writeAll_moves {datas : List (List UInt8)} (h : n.writeAll datas = .ok t) : Moves n t := by
  induction datas generalizing n with
  | nil =>
    cases h
    exact .refl
  | cons data datas ih =>
    obtain ⟨u, hu, h⟩ := bind_eq_ok.1 h
    obtain rfl := writeToNet_eq hu
    exact .head (.write n data) (ih h)

theorem call_moves {app : σ} {received datas : List (List UInt8)}
    (h : { n with app := app, received := received }.writeAll datas = .ok t) : Moves n t :=
  .head (.other n app n.listed n.selectSet n.worker received) (writeAll_moves h)

theorem handleReceivedData_moves {fails : Bool} {arrived : List (List UInt8)}
    (h : NetService.handleReceivedData l fails arrived n = .ok t) : Moves n t := by
  induction arrived generalizing n with
  | nil =>
    cases h
    split
    · exact .single (.close n)
    · exact .refl
  | cons datagram arrived ih =>
    unfold NetService.handleReceivedData at h
    dsimp only at h
    split at h
    · cases h
      exact .single (.close n)
    · obtain ⟨u, hu, h⟩ := bind_eq_ok.1 h
      obtain ⟨⟨app, datas⟩, -, hu⟩ := bind_eq_ok.1 hu
      exact (call_moves hu).trans (ih h)

theorem receive_moves {u : Update} (h : n.receive l u = .ok t) : Moves n t := by
  unfold NetService.receive at h
  split at h
  · exact handleReceivedData_moves h
  · cases h
    exact .refl

theorem flushSelected_moves (u : Update) : Moves n (n.flushSelected u) := by
  unfold NetService.flushSelected
  split
  case isTrue h => exact .single (.flush n u.send h.1)
  case isFalse => exact .refl

theorem flushWritten_moves (u : Update) : Moves n (n.flushWritten u) := by
  unfold NetService.flushWritten
  split
  case isTrue h => exact .single (.flush n u.send h.2)
  case isFalse => exact .refl

theorem handleStream_moves {u : Update} (h : n.handleStream l u = .ok t) : Moves n t := by
  unfold NetService.handleStream at h
  split at h
  case h_1 =>
    obtain ⟨m, hm, h⟩ := bind_eq_ok.1 h
    cases h
    exact (receive_moves hm).trans (flushSelected_moves u)
  case h_2 hconnecting =>
    have hopen : n.s.state ≠ .closed := by
      rw [hconnecting]
      exact StreamState.noConfusion
    split at h <;> cases h <;> split
    · exact .single (.connected n hopen)
    · exact .single (.close n)
    · exact .single (.close n)
    · exact .refl
  case h_3 =>
    cases h
    exact .refl

theorem handle_moves {u : Update} (h : n.handle l u = .ok t) : Moves n t := by
  have hworker (m : NetService σ) : Moves m { m with worker := .looping } :=
    .single (.other m m.app m.listed m.selectSet .looping m.received)
  unfold NetService.handle at h
  split at h
  · split at h
    · obtain ⟨m, hm, h⟩ := bind_eq_ok.1 h
      cases h
      exact ((handleStream_moves hm).trans (flushWritten_moves u)).trans (hworker _)
    · cases h
      exact hworker n
  · cases h
    exact .refl

theorem select_moves : Moves n n.select := by
  unfold NetService.select NetService.destroyClosedStreams
  split
  · split
    · split
      · exact .single (.other n n.app false n.s.selectSet .selecting n.received)
      · exact .single (.other n n.app n.listed n.s.selectSet .selecting n.received)
    · exact .single (.other n n.app n.listed n.selectSet .stopped n.received)
  · exact .refl

theorem step_moves {e : NetEvent ε} (h : NetService.step l n e = .ok t) : Moves n t := by
  cases e with
  | call e =>
    obtain ⟨⟨app, datas⟩, -, h⟩ := bind_eq_ok.1 h
    exact call_moves h
  | select =>
    cases h
    exact select_moves
  | handle u => exact handle_moves h
  | stop =>
    cases h
    exact .head (.close n)
      (.single (.other n.close n.app false .zero n.worker n.received))

theorem run_moves {es : List (NetEvent ε)} (h : run (NetService.step l) n es = .ok t) :
    Moves n t := by
  induction es generalizing n with
  | nil =>
    cases h
    exact .refl
  | cons e es ih =>
    obtain ⟨u, hu, h⟩ := run_cons_eq_ok.1 h
    exact (step_moves hu).trans (ih h)

/-! ### The bytes sent -/

/-- What the stream was given it has sent or holds, unless it is closed. -/
structure InOrder (n : NetService σ) : Prop where
  sent : n.sent.flatten <+: n.written.flatten
  waiting : n.s.state ≠ .closed → n.sent.flatten ++ n.s.writeBuffer = n.written.flatten

@[simp] theorem Stream.close_state (s : Stream) : s.close.state = .closed := by
  unfold Stream.close
  split
  case isTrue h => exact h
  case isFalse => rfl

theorem Stream.setReady_eq (s : Stream) :
    s.setReady.state = s.state ∧ s.setReady.writeBuffer = s.writeBuffer := by
  unfold Stream.setReady
  split <;> exact ⟨rfl, rfl⟩

/-- A flush takes what it sends from the front of the buffer. -/
theorem flushWriteBuffer_eq (s : Stream) (result : SendResult) :
    (s.flushWriteBuffer result).2.flatten <+: s.writeBuffer ∧
      ((s.flushWriteBuffer result).1.state ≠ .closed →
        (s.flushWriteBuffer result).2.flatten ++ (s.flushWriteBuffer result).1.writeBuffer =
          s.writeBuffer) := by
  unfold Stream.flushWriteBuffer
  dsimp only
  split
  case isTrue hempty =>
    rw [(Stream.setReady_eq _).2]
    exact ⟨List.nil_prefix, fun _ => rfl⟩
  case isFalse =>
    cases result with
    | all =>
      refine ⟨?_, fun _ => ?_⟩
      · simp
      · rw [(Stream.setReady_eq _).2]
        simp
    | part size =>
      refine ⟨?_, fun _ => ?_⟩
      · simpa using List.take_prefix _ _
      · rw [(Stream.setReady_eq _).2]
        simp
    | wouldBlock => exact ⟨List.nil_prefix, fun _ => rfl⟩
    | failed =>
      exact ⟨List.nil_prefix, fun hopen => absurd (Stream.close_state _) hopen⟩

theorem Move.inOrder (h : Move n t) (hn : InOrder n) : InOrder t := by
  cases h with
  | write data =>
    refine ⟨?_, fun hopen => ?_⟩
    · rw [List.flatten_append]
      exact hn.sent.trans (List.prefix_append _ _)
    · show n.sent.flatten ++ (n.s.writeBuffer ++ data) = (n.written ++ [data]).flatten
      rw [← List.append_assoc, hn.waiting hopen]
      simp
  | flush result hopen =>
    obtain ⟨htaken, hrest⟩ := flushWriteBuffer_eq n.s result
    have hwritten := hn.waiting hopen
    refine ⟨?_, fun hopen => ?_⟩
    · show (n.sent ++ _).flatten <+: n.written.flatten
      rw [← hwritten, List.flatten_append]
      exact (List.prefix_append_right_inj _).2 htaken
    · show (n.sent ++ _).flatten ++ _ = n.written.flatten
      rw [← hwritten, List.flatten_append, List.append_assoc]
      exact congrArg _ (hrest hopen)
  | close =>
    exact ⟨hn.sent, fun hopen => absurd (Stream.close_state n.s) hopen⟩
  | connected hopen => exact ⟨hn.sent, fun _ => hn.waiting hopen⟩
  | other => exact ⟨hn.sent, hn.waiting⟩

theorem Moves.inOrder (h : Moves n t) (hn : InOrder n) : InOrder t := by
  induction h with
  | refl => exact hn
  | tail _ hmove ih => exact hmove.inOrder ih

theorem inOrder_init (app : σ) (resolved created : Bool) :
    InOrder (initNetService app resolved created).1 := by
  refine ⟨List.nil_prefix, fun _ => ?_⟩
  cases resolved <;> cases created <;> rfl

/-- Over any run the network takes a prefix of the bytes that were written; what is missing waits
in the buffer, unless the stream was closed. -/
theorem sent_in_order {app : σ} {resolved created : Bool} {es : List (NetEvent ε)}
    (h : run (NetService.step l) (initNetService app resolved created).1 es = .ok t) :
    t.sent.flatten <+: t.written.flatten ∧
      (t.s.state ≠ .closed → t.sent.flatten ++ t.s.writeBuffer = t.written.flatten) := by
  have hinv := (run_moves h).inOrder (inOrder_init app resolved created)
  exact ⟨hinv.sent, hinv.waiting⟩

/-! ### The datagrams received -/

/-- The datagrams that wait at the socket when an event comes. -/
def NetEvent.arrived : NetEvent ε → List (List UInt8)
  | .handle u => u.arrived
  | _ => []

/-- Writing changes neither the client nor what it has received. -/
theorem writeAll_received {datas : List (List UInt8)} (h : n.writeAll datas = .ok t) :
    t.received = n.received := by
  induction datas generalizing n with
  | nil =>
    cases h
    rfl
  | cons data datas ih =>
    obtain ⟨u, hu, h⟩ := bind_eq_ok.1 h
    rw [ih h, writeToNet_eq hu]

theorem onData_received {data : List UInt8} (h : n.onData l data = .ok t) :
    t.received = n.received ++ [data] := by
  obtain ⟨⟨app, datas⟩, -, h⟩ := bind_eq_ok.1 h
  exact writeAll_received h

/-- The datagrams that come before an empty one, as far as `recv` has room for each. -/
theorem handleReceivedData_received {fails : Bool} {arrived : List (List UInt8)}
    (h : NetService.handleReceivedData l fails arrived n = .ok t) :
    t.received = n.received ++ (arrived.map (·.take 8191)).takeWhile (· ≠ []) := by
  induction arrived generalizing n with
  | nil =>
    cases h
    rw [List.map_nil, List.takeWhile_nil, List.append_nil]
    split <;> rfl
  | cons datagram arrived ih =>
    rw [List.map_cons, List.takeWhile_cons]
    unfold NetService.handleReceivedData at h
    dsimp only at h
    split at h
    case isTrue hempty =>
      cases h
      simp [hempty, NetService.close]
    case isFalse hdata =>
      obtain ⟨u, hu, h⟩ := bind_eq_ok.1 h
      rw [ih h, onData_received hu, if_pos (decide_eq_true hdata), List.append_assoc]
      rfl

@[simp] theorem flushSelected_received (u : Update) :
    (n.flushSelected u).received = n.received := by
  unfold NetService.flushSelected
  split <;> rfl

@[simp] theorem flushWritten_received (u : Update) : (n.flushWritten u).received = n.received := by
  unfold NetService.flushWritten
  split <;> rfl

theorem handleStream_received {u : Update} (h : n.handleStream l u = .ok t) :
    t.received = n.received ∨
      t.received = n.received ++ (u.arrived.map (·.take 8191)).takeWhile (· ≠ []) := by
  unfold NetService.handleStream at h
  split at h
  case h_1 =>
    obtain ⟨m, hm, h⟩ := bind_eq_ok.1 h
    cases h
    rw [flushSelected_received]
    unfold NetService.receive at hm
    split at hm
    · exact .inr (handleReceivedData_received hm)
    · cases hm
      exact .inl rfl
  case h_2 => split at h <;> cases h <;> split <;> exact .inl rfl
  case h_3 =>
    cases h
    exact .inl rfl

theorem step_received {e : NetEvent ε} (h : NetService.step l n e = .ok t) :
    ∃ datas, t.received = n.received ++ datas ∧ [] ∉ datas ∧
      datas.Sublist (e.arrived.map (·.take 8191)) := by
  have hsame (hr : t.received = n.received) : ∃ datas, t.received = n.received ++ datas ∧
      [] ∉ datas ∧ datas.Sublist (e.arrived.map (·.take 8191)) :=
    ⟨[], by rw [hr, List.append_nil], List.not_mem_nil, List.nil_sublist _⟩
  cases e with
  | call e =>
    obtain ⟨⟨app, datas⟩, -, h⟩ := bind_eq_ok.1 h
    have hr : t.received = { n with app := app }.received := writeAll_received h
    exact hsame hr
  | select =>
    cases h
    refine hsame ?_
    unfold NetService.select NetService.destroyClosedStreams
    split
    · split
      · split <;> rfl
      · rfl
    · rfl
  | handle u =>
    change n.handle l u = .ok t at h
    unfold NetService.handle at h
    split at h
    · split at h
      · obtain ⟨m, hm, h⟩ := bind_eq_ok.1 h
        cases h
        rcases handleStream_received hm with hr | hr
        · exact hsame ((flushWritten_received u).trans hr)
        · refine ⟨_, (flushWritten_received u).trans hr, fun hmem => ?_, ?_⟩
          · exact absurd (List.all_eq_true.1 List.all_takeWhile _ hmem) (by decide)
          · exact List.takeWhile_sublist _
      · cases h
        exact hsame rfl
    · cases h
      exact hsame rfl
  | stop =>
    cases h
    exact hsame rfl

theorem run_received {es : List (NetEvent ε)} (h : run (NetService.step l) n es = .ok t) :
    ∃ datas, t.received = n.received ++ datas ∧ [] ∉ datas ∧
      datas.Sublist ((es.flatMap NetEvent.arrived).map (·.take 8191)) := by
  induction es generalizing n with
  | nil =>
    cases h
    exact ⟨[], (List.append_nil _).symm, List.not_mem_nil, List.nil_sublist _⟩
  | cons e es ih =>
    obtain ⟨u, hu, h⟩ := run_cons_eq_ok.1 h
    obtain ⟨datas, hr, hne, hsub⟩ := step_received hu
    obtain ⟨datas', hr', hne', hsub'⟩ := ih h
    refine ⟨datas ++ datas', by rw [hr', hr, List.append_assoc], ?_, ?_⟩
    · rw [List.mem_append]
      rintro (h | h)
      · exact hne h
      · exact hne' h
    · rw [List.flatMap_cons, List.map_append]
      exact hsub.append hsub'

/-- The client reads datagrams that arrived, each once and in order, cut to 8191 bytes. -/
theorem received_in_order {app : σ} {resolved created : Bool} {es : List (NetEvent ε)}
    (h : run (NetService.step l) (initNetService app resolved created).1 es = .ok t) :
    [] ∉ t.received ∧
      t.received.Sublist ((es.flatMap NetEvent.arrived).map (·.take 8191)) := by
  obtain ⟨datas, hr, hne, hsub⟩ := run_received h
  have hstart : (initNetService app resolved created).1.received = [] := by
    cases resolved <;> cases created <;> rfl
  rw [hr, hstart, List.nil_append]
  exact ⟨hne, hsub⟩

end IotClient.Net
