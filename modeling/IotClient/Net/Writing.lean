import IotClient.Mem.Block
import IotClient.Net.LwsNetClient
import IotClient.Net.Logging

/-!
# Clients on `lws_net_client.c`

A `Firing` client logs its messages and passes the `frame` of each on to a `Sender`. Its threads do
not wait for libwebsockets, which calls back only when it was asked to (`Requested`): a `Link` is the
client, the frames that it has still to fire, and the sender.

The slot of the sender keeps the last frame alone. So frames may be lost, but none is written twice
or before one that was fired earlier, and the last one is written in the end (`Linked.in_order`). A
link returns whenever its client does and has a frame for every message (`Linked.run`).
-/

namespace IotClient.Net

open Mem Machine

namespace Sender

variable {p : Protocol} {s t : Sender}

/-- The slot holds the last buffer fired, and what was written is a part of what was fired before
the outstanding ones, in order, with the last of it. -/
structure Writes (p : Protocol) (s : Sender) : Prop where
  protocol : s.client.currentProtocol = p
  slot : ∀ b, s.outstanding.getLast? = some b →
    s.client.callbackMinimalBroker s.client.reason = .ok b
  fired : ∃ before, s.fired = before ++ s.outstanding ∧ s.written.Sublist before ∧
    s.written.getLast? = before.getLast?

theorem writes_start (p : Protocol) : Writes p (start p) where
  protocol := rfl
  slot b hb := by cases hb
  fired := ⟨[], rfl, .slnil, rfl⟩

theorem Writes.fire (h : Writes p s) {o : Outgoing} (ho : o.Suits p) :
    ∃ t, step s (.fire o) = .ok t ∧ Writes p t ∧ t.fired = s.fired ++ [o.bytes] := by
  refine ⟨_, rfl, ⟨?_, fun b hb => ?_, ?_⟩, rfl⟩
  · cases o <;> exact h.protocol
  · obtain rfl : o.bytes = b := by simpa using hb
    exact callback_put (by rwa [h.protocol])
  · obtain ⟨before, hfired, hsub, hlast⟩ := h.fired
    exact ⟨before, by rw [hfired, List.append_assoc], hsub, hlast⟩

/-- The callback writes the last of the outstanding buffers; the others are lost. -/
theorem Writes.writeable (h : Writes p s) (hs : s.outstanding ≠ []) :
    ∃ t, step s .writeable = .ok t ∧ Writes p t ∧ t.fired = s.fired ∧ t.outstanding = [] := by
  obtain ⟨before, hfired, hsub, -⟩ := h.fired
  obtain ⟨lost, b, houtstanding⟩ := List.eq_nil_or_concat s.outstanding |>.resolve_left hs
  rw [List.concat_eq_append] at houtstanding
  have hout := h.slot b (by rw [houtstanding, List.getLast?_concat])
  refine ⟨_, step_writeable hout, ⟨h.protocol, fun b hb => (nomatch hb), ?_⟩, rfl, rfl⟩
  refine ⟨s.fired, (List.append_nil _).symm, ?_, ?_⟩
  · rw [hfired, houtstanding]
    exact hsub.append (List.sublist_append_right lost [b])
  · rw [hfired, houtstanding, List.getLast?_concat, ← List.append_assoc, List.getLast?_concat]

end Sender

/-- `raw_fire(buf, total_length)` -/
def rawOf (buf : Block) (totalLength : Int) : Run Outgoing :=
  if 0 ≤ totalLength ∧ totalLength ≤ buf.length then do
    let data ← blockBytes (buf.take totalLength.toNat)
    pure (.raw ⟨data, data.length, Nat.le_refl _⟩)
  else .error .readOut

theorem blockBytes_map (data : List UInt8) : blockBytes (data.map some) = .ok data := by
  induction data with
  | nil => rfl
  | cons x data ih =>
    unfold blockBytes at ih ⊢
    rw [List.map_cons, List.mapM_cons, ih]
    rfl

/-- A block that was written whole. -/
theorem rawOf_map (data : List UInt8) {totalLength : Int} (h : totalLength = data.length) :
    rawOf (data.map some) totalLength = .ok (.raw ⟨data, data.length, Nat.le_refl _⟩) := by
  subst h
  have hlen : (data.map some).length = data.length := List.length_map _
  have htake : (data.map some).take data.length = data.map some := List.take_of_length_le hlen.le
  unfold rawOf
  rw [if_pos ⟨Int.natCast_nonneg _, Int.ofNat_le.2 hlen.ge⟩, Int.toNat_natCast, htake,
    blockBytes_map, ok_bind, pure_eq_ok]

theorem rawOf_suits {buf : Block} {totalLength : Int} {o : Outgoing} {p : Protocol}
    (hp : p ≠ .websockets) (h : rawOf buf totalLength = .ok o) : o.Suits p := by
  unfold rawOf at h
  split at h
  · obtain ⟨data, -, h⟩ := bind_eq_ok.1 h
    cases h
    exact hp
  · cases h

/-- A client with a log whose messages go out through `lws_net_client.c`. -/
structure Firing (σ ε μ : Type) where
  wire : σ → List (Traffic μ)
  frame : μ → Run Outgoing
  protocol : Protocol
  step : σ → ε → Run σ
  /-- what the client keeps -/
  Keeps : σ → Prop
  frame_suits : ∀ {m o}, frame m = .ok o → o.Suits protocol
  step_logs : ∀ {c t e}, Keeps c → step c e = .ok t → Keeps t ∧ wire c <+: wire t

/-- A client with the frames it is about to fire. -/
structure Link (σ : Type) where
  client : σ
  pending : List Outgoing
  sender : Sender

/-- A step of the client, the next `raw_fire` or `fire` of a message it has made, or the callback. -/
inductive LinkEvent (ε : Type) where
  | client (e : ε)
  | fire
  | writeable

def LinkEvent.client? {ε : Type} : LinkEvent ε → Option ε
  | client e => some e
  | _ => none

namespace Firing

variable {σ ε μ : Type} (L : Firing σ ε μ)

def start (c : σ) : Link σ := ⟨c, [], .start L.protocol⟩

/-- The frames of the messages fired from `c` to `t`. -/
def fired (c t : σ) : Run (List Outgoing) :=
  (sentOf ((L.wire t).drop (L.wire c).length)).mapM L.frame

def link (l : Link σ) : LinkEvent ε → Run (Link σ)
  | .client e => do
    let client ← L.step l.client e
    let frames ← L.fired l.client client
    pure { l with client := client, pending := l.pending ++ frames }
  | .fire =>
    match l.pending with
    | [] => pure l
    | o :: pending => do
      let sender ← l.sender.step (.fire o)
      pure { l with pending := pending, sender := sender }
  | .writeable => do
    let sender ← l.sender.step .writeable
    pure { l with sender := sender }

/-- libwebsockets calls back when it was asked to. -/
def Requested (l : Link σ) : LinkEvent ε → Prop
  | .writeable => l.sender.outstanding ≠ []
  | _ => True

/-- What was fired and what is about to be are the frames of the log. -/
structure Linked (l : Link σ) : Prop where
  keeps : L.Keeps l.client
  frames : ∃ os, (sentOf (L.wire l.client)).mapM L.frame = .ok os ∧
    l.sender.fired ++ l.pending.map Outgoing.bytes = os.map Outgoing.bytes
  suits : ∀ o ∈ l.pending, o.Suits L.protocol
  writes : l.sender.Writes L.protocol

variable {L} {c d : σ} {l : Link σ} {e : ε}

theorem linked_start (hc : L.Keeps c) (hwire : L.wire c = []) : Linked L (L.start c) where
  keeps := hc
  frames := by
    refine ⟨[], ?_, rfl⟩
    rw [show (L.start c).client = c from rfl, hwire]
    rfl
  suits o ho := by cases ho
  writes := Sender.writes_start _

/-- A run of `f` over a list that returned. -/
theorem of_mapM_ok {α β : Type} {f : α → Run β} {xs : List α} {bs : List β}
    (h : xs.mapM f = .ok bs) :
    (∀ x ∈ xs, ∃ b, f x = .ok b) ∧ ∀ b ∈ bs, ∃ x ∈ xs, f x = .ok b := by
  induction xs generalizing bs with
  | nil =>
    cases h
    exact ⟨fun x hx => absurd hx List.not_mem_nil, fun b hb => absurd hb List.not_mem_nil⟩
  | cons y xs ih =>
    rw [List.mapM_cons] at h
    obtain ⟨a, ha, h⟩ := bind_eq_ok.1 h
    obtain ⟨as, has, h⟩ := bind_eq_ok.1 h
    cases h
    obtain ⟨hxs, has⟩ := ih has
    refine ⟨List.forall_mem_cons.2 ⟨⟨a, ha⟩, hxs⟩,
      List.forall_mem_cons.2 ⟨⟨y, List.mem_cons_self, ha⟩, fun b hb => ?_⟩⟩
    obtain ⟨x, hx, hfx⟩ := has b hb
    exact ⟨x, List.mem_cons_of_mem _ hx, hfx⟩

theorem mapM_ok {α β : Type} {f : α → Run β} {xs : List α} (h : ∀ x ∈ xs, ∃ b, f x = .ok b) :
    ∃ bs, xs.mapM f = .ok bs := by
  induction xs with
  | nil => exact ⟨[], rfl⟩
  | cons x xs ih =>
    obtain ⟨a, ha⟩ := h x List.mem_cons_self
    obtain ⟨as, has⟩ := ih fun y hy => h y (List.mem_cons_of_mem _ hy)
    exact ⟨a :: as, by rw [List.mapM_cons, ha, ok_bind, has, ok_bind, pure_eq_ok]⟩

/-- The messages a step adds to the log. -/
theorem sentOf_grown {wire wire' : List (Traffic μ)} (h : wire <+: wire') :
    sentOf wire' = sentOf wire ++ sentOf (wire'.drop wire.length) := by
  obtain ⟨xs, rfl⟩ := h
  rw [List.drop_left, sentOf_append]

/-- The client takes a step. -/
theorem Linked.client (h : Linked L l) (hd : L.step l.client e = .ok d)
    (hframes : ∀ m ∈ sentOf (L.wire d), ∃ o, L.frame m = .ok o) :
    ∃ t, L.link l (.client e) = .ok t ∧ Linked L t ∧ t.client = d := by
  obtain ⟨hkeeps, hprefix⟩ := L.step_logs h.keeps hd
  obtain ⟨os, hos, hfired⟩ := h.frames
  have hnew := sentOf_grown hprefix
  obtain ⟨frames, hnew'⟩ := mapM_ok fun m hm => hframes m (by
    rw [hnew]
    exact List.mem_append_right _ hm)
  refine ⟨{ l with client := d, pending := l.pending ++ frames }, ?_, ⟨hkeeps, ?_, ?_, h.writes⟩,
    rfl⟩
  · simp only [link, fired, hd, ok_bind, hnew', pure_eq_ok]
  · refine ⟨os ++ frames, ?_, ?_⟩
    · change (sentOf (L.wire d)).mapM L.frame = _
      rw [hnew]
      exact Logging.mapM_append_ok hos hnew'
    · change l.sender.fired ++ (l.pending ++ frames).map Outgoing.bytes = _
      rw [List.map_append, ← List.append_assoc, hfired, List.map_append]
  · intro o ho
    rcases List.mem_append.1 ho with ho | ho
    · exact h.suits o ho
    · obtain ⟨m, -, hm⟩ := (of_mapM_ok hnew').2 o ho
      exact L.frame_suits hm

/-- The next frame is fired. -/
theorem Linked.fire (h : Linked L l) :
    ∃ t, L.link l .fire = .ok t ∧ Linked L t ∧ t.client = l.client := by
  obtain ⟨os, hos, hfired⟩ := h.frames
  cases hp : l.pending with
  | nil => exact ⟨l, by simp only [link, hp, pure_eq_ok], h, rfl⟩
  | cons o pending =>
    obtain ⟨s, hs, hwrites, hfires⟩ := h.writes.fire (h.suits o (hp ▸ List.mem_cons_self))
    refine ⟨{ l with pending := pending, sender := s },
      by simp only [link, hp, hs, ok_bind, pure_eq_ok],
      ⟨h.keeps, ⟨os, hos, ?_⟩, fun o ho => h.suits o (hp ▸ List.mem_cons_of_mem _ ho), hwrites⟩, rfl⟩
    rw [hp, List.map_cons] at hfired
    rw [hfires, List.append_assoc]
    exact hfired

theorem Linked.writeable (h : Linked L l) (hl : l.sender.outstanding ≠ []) :
    ∃ t, L.link l .writeable = .ok t ∧ Linked L t ∧ t.client = l.client := by
  obtain ⟨os, hos, hfired⟩ := h.frames
  obtain ⟨s, hs, hwrites, hfires, -⟩ := h.writes.writeable hl
  refine ⟨{ l with sender := s }, by simp only [link, hs, ok_bind, pure_eq_ok],
    ⟨h.keeps, ⟨os, hos, ?_⟩, h.suits, hwrites⟩, rfl⟩
  rw [hfires]
  exact hfired

/-- The log of a client grows. -/
theorem run_logs {es : List ε} (hc : L.Keeps c) (h : Machine.run L.step c es = .ok d) :
    L.wire c <+: L.wire d := by
  induction es generalizing c with
  | nil =>
    cases h
    exact List.prefix_refl _
  | cons e es ih =>
    obtain ⟨u, hu, h⟩ := run_cons_eq_ok.1 h
    obtain ⟨hkeeps, hprefix⟩ := L.step_logs hc hu
    exact hprefix.trans (ih hkeeps h)

/-- A link runs as far as its client does. -/
theorem Linked.run {es : List (LinkEvent ε)} (h : Linked L l)
    (hes : Each L.link Requested l es)
    (hd : Machine.run L.step l.client (es.filterMap LinkEvent.client?) = .ok d)
    (hframes : ∀ m ∈ sentOf (L.wire d), ∃ o, L.frame m = .ok o) :
    ∃ t, Machine.run L.link l es = .ok t ∧ Linked L t ∧ t.client = d := by
  induction es generalizing l with
  | nil =>
    cases hd
    exact ⟨l, rfl, h, rfl⟩
  | cons e es ih =>
    obtain ⟨he, hes⟩ := each_cons.1 hes
    suffices hstep : ∃ t, L.link l e = .ok t ∧ Linked L t ∧
        Machine.run L.step t.client (es.filterMap LinkEvent.client?) = .ok d by
      obtain ⟨u, hu, hlinked, hd⟩ := hstep
      obtain ⟨t, ht, hlinked', hclient⟩ := ih hlinked (hes u hu) hd
      exact ⟨t, (run_cons hu).trans ht, hlinked', hclient⟩
    cases e with
    | client e =>
      obtain ⟨u, hu, hd⟩ := run_cons_eq_ok.1 hd
      have hkeeps := (L.step_logs h.keeps hu).1
      obtain ⟨t, ht, hlinked, rfl⟩ := h.client hu fun m hm => hframes m (by
        rw [sentOf_grown (run_logs hkeeps hd)]
        exact List.mem_append_left _ hm)
      exact ⟨t, ht, hlinked, hd⟩
    | fire =>
      obtain ⟨t, ht, hlinked, hclient⟩ := h.fire
      exact ⟨t, ht, hlinked, by rw [hclient]; exact hd⟩
    | writeable =>
      obtain ⟨t, ht, hlinked, hclient⟩ := h.writeable he
      exact ⟨t, ht, hlinked, by rw [hclient]; exact hd⟩

theorem Linked.step {t : Link σ} {e : LinkEvent ε} (h : Linked L l) (he : Requested l e)
    (ht : L.link l e = .ok t) : Linked L t := by
  suffices hstep : ∃ u, L.link l e = .ok u ∧ Linked L u by
    obtain ⟨u, hu, hlinked⟩ := hstep
    obtain rfl : t = u := Except.ok.inj (ht.symm.trans hu)
    exact hlinked
  cases e with
  | client e =>
    obtain ⟨d, hd, ht⟩ := bind_eq_ok.1 ht
    obtain ⟨frames, hframes, -⟩ := bind_eq_ok.1 ht
    obtain ⟨os, hos, -⟩ := h.frames
    obtain ⟨u, hu, hlinked, -⟩ := h.client hd fun m hm => by
      rw [sentOf_grown (L.step_logs h.keeps hd).2, List.mem_append] at hm
      exact hm.elim ((of_mapM_ok hos).1 m) ((of_mapM_ok hframes).1 m)
    exact ⟨u, hu, hlinked⟩
  | fire =>
    obtain ⟨u, hu, hlinked, -⟩ := h.fire
    exact ⟨u, hu, hlinked⟩
  | writeable =>
    obtain ⟨u, hu, hlinked, -⟩ := h.writeable he
    exact ⟨u, hu, hlinked⟩

/-- The frames of the log are written in order, none twice, and the last one is not lost. -/
theorem Linked.in_order (h : Linked L l) : ∃ os,
    (sentOf (L.wire l.client)).mapM L.frame = .ok os ∧
      l.sender.written.Sublist (os.map Outgoing.bytes) ∧
      (l.pending = [] → l.sender.outstanding = [] →
        l.sender.written.getLast? = (os.map Outgoing.bytes).getLast?) := by
  obtain ⟨os, hos, hfired⟩ := h.frames
  obtain ⟨before, hbefore, hsub, hlast⟩ := h.writes.fired
  rw [hbefore] at hfired
  refine ⟨os, hos, ?_, fun hpending houtstanding => ?_⟩
  · rw [← hfired, List.append_assoc]
    exact hsub.trans (List.sublist_append_left _ _)
  · rw [hpending, houtstanding, List.map_nil, List.append_nil, List.append_nil] at hfired
    rw [hlast, hfired]

end Firing

end IotClient.Net
