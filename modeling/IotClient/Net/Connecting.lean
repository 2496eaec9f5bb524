import IotClient.Machine.Runs
import IotClient.Mem.Run
import Mathlib.Data.Nat.Notation

/-!
# The connection (`net/lws_net_client.c`)

`open_lws_net_connection` starts the thread of libwebsockets and polls for the flag `established`,
which the callbacks set. A `Connection` is what they share, and what libwebsockets has of it: `life`
is its connection, `timed` the `LWS_CALLBACK_USER`s that it still owes. `Legal` is the order in which
libwebsockets calls back.

After an error or a close the client asks for a `LWS_CALLBACK_USER`, which has no case. So it asks
for one connection only, and what is gone stays gone: `raw_fire` then passes on `NULL`, or the
connection that was closed, since `LWS_CALLBACK_RAW_CLOSE` has no case either (`gone_stays`).

`open_lws_net_connection` itself returns -1 when libwebsockets or its thread cannot be started, reads
`established` in each round of its loop, and once more behind it (`opening_returned`).
-/

namespace IotClient.Net

open Mem Machine

/-- `struct per_vhost_data__minimal` -/
structure Vhd where
  clientWsi : Option ℕ
  established : Bool
  deriving DecidableEq, Repr

/-- The connection that libwebsockets has. -/
inductive Life where
  | none
  | connecting (wsi : ℕ)
  | connected (wsi : ℕ)
  deriving DecidableEq, Repr

/-- Where `open_lws_net_connection` is. -/
inductive Opening where
  | called
  /-- in its loop -/
  | waiting (counter : ℕ)
  /-- behind its loop, before it reads `established` again -/
  | left
  | returned (result : Int)
  deriving DecidableEq, Repr

/-- The reasons that change the connection, and the timed one. -/
inductive ConnectReason where
  /-- with the answer of `lws_client_connect_via_info` -/
  | protocolInit (wsi : Option ℕ)
  | clientConnectionError
  | clientEstablished
  | clientClosed
  | rawAdopt
  | rawClose
  | user
  deriving DecidableEq, Repr

structure Connection where
  vhd : Ptr Vhd
  opening : Opening
  /-- the answers of `lws_client_connect_via_info` -/
  requests : List (Option ℕ)
  /-- what was passed to `lws_callback_on_writable` -/
  asked : List (Option ℕ)
  life : Life
  timed : ℕ
  deriving DecidableEq

inductive ConnectEvent where
  | callback (reason : ConnectReason)
  /-- `open_lws_net_connection` up to its loop, with whether `lws_create_context` and
  `pthread_create` succeed -/
  | create (context worker : Bool)
  /-- a test of its loop -/
  | poll
  /-- its second read of `established` -/
  | check
  /-- `fire` or `raw_fire` -/
  | fire
  deriving DecidableEq, Repr

namespace Connection

/-- The static variables before `open_lws_net_connection`. -/
def start : Connection := ⟨.null, .called, [], [], .none, 0⟩

variable (c : Connection)

/-- Whether it failed, and the connection. -/
def connectWsClient (wsi : Option ℕ) : Bool × Connection :=
  (wsi.isNone, { c with
    vhd := .ref ⟨wsi, false⟩
    requests := c.requests ++ [wsi]
    life := wsi.elim .none .connecting })

/-- `lws_timed_callback_vh_protocol(vhd->vhost, vhd->protocol, LWS_CALLBACK_USER, 1)` -/
def timedCallback : Connection := { c with timed := c.timed + 1 }

/-- What libwebsockets has once it is connected. -/
def Life.connect : Life → Life
  | .connecting wsi => .connected wsi
  | life => life

def callbackMinimalBroker : ConnectReason → Run Connection
  | .protocolInit wsi =>
    let (failed, c) := c.connectWsClient wsi
    pure (if failed then c.timedCallback else c)
  | .clientConnectionError => do
    let vhd ← c.vhd.deref
    pure { c with vhd := .ref { vhd with clientWsi := .none }, life := .none }.timedCallback
  | .clientEstablished | .rawAdopt => do
    let vhd ← c.vhd.deref
    pure { c with vhd := .ref { vhd with established := true }, life := Life.connect c.life }
  | .clientClosed => do
    let _ ← c.vhd.deref
    pure { c with vhd := .ref ⟨.none, false⟩, life := .none }.timedCallback
  -- no case
  | .rawClose => pure { c with life := .none }
  | .user => pure { c with timed := c.timed - 1 }

def create (context worker : Bool) : Connection :=
  match c.opening with
  | .called => { c with opening := if context && worker then .waiting 0 else .returned (-1) }
  | _ => c

/-- `while (vhd == NULL || (!vhd->established && counter < 15))` -/
def poll : Run Connection :=
  match c.opening with
  | .waiting counter =>
    if c.vhd = .null then pure { c with opening := .waiting (counter + 1) }
    else do
      let vhd ← c.vhd.deref
      pure { c with opening :=
        if !vhd.established && counter < 15 then .waiting (counter + 1) else .left }
  | _ => pure c

def check : Run Connection :=
  match c.opening with
  | .left => do
    let vhd ← c.vhd.deref
    pure { c with opening := .returned (if vhd.established then 0 else -1) }
  | _ => pure c

def fire : Run Connection := do
  let vhd ← c.vhd.deref
  pure { c with asked := c.asked ++ [vhd.clientWsi] }

def step : ConnectEvent → Run Connection
  | .callback reason => c.callbackMinimalBroker reason
  | .create context worker => pure (c.create context worker)
  | .poll => c.poll
  | .check => c.check
  | .fire => c.fire

/-- How libwebsockets calls back: first with `PROTOCOL_INIT`, once, and with the others as they
befall the connection it has. -/
def Legal : ConnectEvent → Prop
  | .callback (.protocolInit _) => c.vhd = .null
  | .callback .clientConnectionError | .callback .clientEstablished | .callback .rawAdopt =>
    ∃ wsi, c.life = .connecting wsi
  | .callback .clientClosed | .callback .rawClose => ∃ wsi, c.life = .connected wsi
  | .callback .user => 0 < c.timed
  | .create _ _ | .poll | .check | .fire => True

/-- What the client knows of the connection that libwebsockets has. -/
inductive Knows : Life → Vhd → Prop where
  | connecting (wsi : ℕ) : Knows (.connecting wsi) ⟨some wsi, false⟩
  | connected (wsi : ℕ) : Knows (.connected wsi) ⟨some wsi, true⟩
  | gone : Knows .none ⟨none, false⟩
  /-- after `LWS_CALLBACK_RAW_CLOSE` -/
  | closed (wsi : ℕ) : Knows .none ⟨some wsi, true⟩

/-- Nothing before `PROTOCOL_INIT`, and one connection behind it. -/
inductive Once (c : Connection) : Prop where
  | before (hvhd : c.vhd = .null) (hlife : c.life = .none) (hrequests : c.requests = [])
  | behind {vhd : Vhd} (hvhd : c.vhd = .ref vhd) (hknows : Knows c.life vhd)
    (hrequests : c.requests.length = 1)

variable {c} {s t : Connection} {e : ConnectEvent} {reason : ConnectReason}

theorem once_start : Once start := .before rfl rfl rfl

/-- Where libwebsockets has a connection the client has asked for it. -/
theorem Once.known (h : Once c) (hlife : c.life ≠ .none) :
    ∃ vhd, c.vhd = .ref vhd ∧ Knows c.life vhd ∧ c.requests.length = 1 := by
  cases h with
  | before hvhd hnone => exact absurd hnone hlife
  | behind hvhd hknows hrequests => exact ⟨_, hvhd, hknows, hrequests⟩

theorem Once.protocolInit (h : Once c) {wsi : Option ℕ} (hvhd : c.vhd = .null)
    (ht : c.callbackMinimalBroker (.protocolInit wsi) = .ok t) : Once t := by
  cases h with
  | before _ _ hrequests =>
    cases ht
    have hone : (c.requests ++ [wsi]).length = 1 := by rw [hrequests]; rfl
    cases wsi with
    | none => exact .behind rfl .gone hone
    | some wsi => exact .behind rfl (.connecting wsi) hone
  | behind hvhd' =>
    rw [hvhd] at hvhd'
    cases hvhd'

/-- What befalls a connection. -/
theorem Once.befalls (h : Once c) (hinit : ∀ wsi, reason ≠ .protocolInit wsi)
    (hlegal : c.Legal (.callback reason)) (ht : c.callbackMinimalBroker reason = .ok t) :
    Once t := by
  have hbehind (hlife : ∃ wsi, c.life = .connecting wsi ∨ c.life = .connected wsi) :
      ∃ vhd, c.vhd = .ref vhd ∧ Knows c.life vhd ∧ c.requests.length = 1 :=
    h.known (by obtain ⟨wsi, h | h⟩ := hlife <;> rw [h] <;> exact Life.noConfusion)
  cases reason with
  | protocolInit wsi => exact absurd rfl (hinit wsi)
  | clientConnectionError =>
    obtain ⟨wsi, hlife⟩ := hlegal
    obtain ⟨vhd, hvhd, hknows, hone⟩ := hbehind ⟨wsi, .inl hlife⟩
    rw [hlife] at hknows
    cases hknows
    simp only [callbackMinimalBroker, hvhd, Ptr.deref_ref, ok_bind, pure_eq_ok] at ht
    cases ht
    exact .behind rfl .gone hone
  | clientEstablished | rawAdopt =>
    obtain ⟨wsi, hlife⟩ := hlegal
    obtain ⟨vhd, hvhd, hknows, hone⟩ := hbehind ⟨wsi, .inl hlife⟩
    rw [hlife] at hknows
    cases hknows
    simp only [callbackMinimalBroker, hvhd, hlife, Ptr.deref_ref, ok_bind, pure_eq_ok] at ht
    cases ht
    exact .behind rfl (.connected wsi) hone
  | clientClosed =>
    obtain ⟨wsi, hlife⟩ := hlegal
    obtain ⟨vhd, hvhd, -, hone⟩ := hbehind ⟨wsi, .inr hlife⟩
    simp only [callbackMinimalBroker, hvhd, Ptr.deref_ref, ok_bind, pure_eq_ok] at ht
    cases ht
    exact .behind rfl .gone hone
  | rawClose =>
    obtain ⟨wsi, hlife⟩ := hlegal
    obtain ⟨vhd, hvhd, hknows, hone⟩ := hbehind ⟨wsi, .inr hlife⟩
    rw [hlife] at hknows
    cases hknows
    cases ht
    exact .behind hvhd (.closed wsi) hone
  | user =>
    cases ht
    cases h with
    | before hvhd hlife hrequests => exact .before hvhd hlife hrequests
    | behind hvhd hknows hrequests => exact .behind hvhd hknows hrequests

/-- The thread that opens the connection, and a `fire`, leave it as it is. -/
theorem same_connection (he : ∀ reason, e ≠ .callback reason) (ht : c.step e = .ok t) :
    t.vhd = c.vhd ∧ t.life = c.life ∧ t.requests = c.requests := by
  cases e with
  | callback reason => exact absurd rfl (he reason)
  | create context worker =>
    cases ht
    unfold create
    split <;> exact ⟨rfl, rfl, rfl⟩
  | poll =>
    change c.poll = .ok t at ht
    unfold poll at ht
    split at ht
    · split at ht
      · cases ht
        exact ⟨rfl, rfl, rfl⟩
      · obtain ⟨vhd, -, ht⟩ := bind_eq_ok.1 ht
        cases ht
        exact ⟨rfl, rfl, rfl⟩
    · cases ht
      exact ⟨rfl, rfl, rfl⟩
  | check =>
    change c.check = .ok t at ht
    unfold check at ht
    split at ht
    · obtain ⟨vhd, -, ht⟩ := bind_eq_ok.1 ht
      cases ht
      exact ⟨rfl, rfl, rfl⟩
    · cases ht
      exact ⟨rfl, rfl, rfl⟩
  | fire =>
    obtain ⟨vhd, -, ht⟩ := bind_eq_ok.1 ht
    cases ht
    exact ⟨rfl, rfl, rfl⟩

theorem Once.same (h : Once c) (ht : t.vhd = c.vhd ∧ t.life = c.life ∧ t.requests = c.requests) :
    Once t := by
  obtain ⟨hvhd', hlife', hrequests'⟩ := ht
  cases h with
  | before hvhd hlife hrequests =>
    exact .before (hvhd'.trans hvhd) (hlife'.trans hlife) (hrequests'.trans hrequests)
  | behind hvhd hknows hrequests =>
    exact .behind (hvhd'.trans hvhd) (by rw [hlife']; exact hknows) (by rw [hrequests', hrequests])

theorem Once.step (h : Once c) (hlegal : c.Legal e) (ht : c.step e = .ok t) : Once t := by
  cases e with
  | callback reason =>
    by_cases hinit : ∃ wsi, reason = .protocolInit wsi
    · obtain ⟨wsi, rfl⟩ := hinit
      exact h.protocolInit hlegal ht
    · exact h.befalls (fun wsi hwsi => hinit ⟨wsi, hwsi⟩) hlegal ht
  | create | poll | check | fire => exact h.same (same_connection (by nofun) ht)

/-! ### A connection that is gone -/

/-- Behind `PROTOCOL_INIT` the thread that opens the connection goes on, and asks for nothing. -/
theorem opening_step {vhd : Vhd} (hvhd : c.vhd = .ref vhd) (he : ∀ reason, e ≠ .callback reason)
    (hfire : e ≠ .fire) : ∃ t, c.step e = .ok t ∧ t.asked = c.asked := by
  have hne : c.vhd ≠ .null := by rw [hvhd]; exact nofun
  cases e with
  | callback reason => exact absurd rfl (he reason)
  | fire => exact absurd rfl hfire
  | create context worker =>
    refine ⟨_, rfl, ?_⟩
    unfold create
    split <;> rfl
  | poll =>
    change ∃ t, c.poll = .ok t ∧ _
    unfold poll
    split
    · rw [if_neg hne, hvhd, Ptr.deref_ref, ok_bind]
      exact ⟨_, rfl, rfl⟩
    · exact ⟨c, rfl, rfl⟩
  | check =>
    change ∃ t, c.check = .ok t ∧ _
    unfold check
    split
    · rw [hvhd, Ptr.deref_ref, ok_bind]
      exact ⟨_, rfl, rfl⟩
    · exact ⟨c, rfl, rfl⟩

/-- Nothing but a `LWS_CALLBACK_USER` is left to come, which does nothing. -/
theorem gone_step {vhd : Vhd} (hvhd : c.vhd = .ref vhd) (hlife : c.life = .none)
    (hlegal : c.Legal e) : ∃ t, c.step e = .ok t ∧ t.vhd = c.vhd ∧ t.life = .none ∧
      t.requests = c.requests ∧ t.asked = c.asked ++ if e = .fire then [vhd.clientWsi] else [] := by
  by_cases hcallback : ∃ reason, e = .callback reason
  · obtain ⟨reason, rfl⟩ := hcallback
    cases reason with
    | protocolInit wsi =>
      have hnull : c.vhd = .null := hlegal
      rw [hvhd] at hnull
      cases hnull
    | user =>
      refine ⟨{ c with timed := c.timed - 1 }, rfl, rfl, hlife, rfl, ?_⟩
      rw [if_neg (by simp), List.append_nil]
    | clientConnectionError | clientEstablished | rawAdopt | clientClosed | rawClose =>
      obtain ⟨wsi, hwsi⟩ := hlegal
      rw [hlife] at hwsi
      cases hwsi
  by_cases hfire : e = .fire
  · subst hfire
    have ht : c.fire = .ok { c with asked := c.asked ++ [vhd.clientWsi] } := by
      simp only [fire, hvhd, Ptr.deref_ref, ok_bind, pure_eq_ok]
    exact ⟨_, ht, rfl, hlife, rfl, by rw [if_pos rfl]⟩
  · have hother (reason : ConnectReason) (he : e = .callback reason) : False := hcallback ⟨reason, he⟩
    obtain ⟨t, ht, hasked⟩ := opening_step hvhd hother hfire
    obtain ⟨hsame, hlife', hrequests⟩ := same_connection hother ht
    refine ⟨t, ht, hsame, hlife'.trans hlife, hrequests, ?_⟩
    rw [hasked, if_neg hfire, List.append_nil]

theorem gone_run {vhd : Vhd} {es : List ConnectEvent} (hvhd : c.vhd = .ref vhd)
    (hlife : c.life = .none) (hes : Each step Legal c es) :
    ∃ t, run step c es = .ok t ∧ t.vhd = c.vhd ∧ t.life = .none ∧ t.requests = c.requests ∧
      t.asked = c.asked ++ .replicate (es.count .fire) vhd.clientWsi := by
  induction es generalizing c with
  | nil => exact ⟨c, rfl, rfl, hlife, rfl, (List.append_nil _).symm⟩
  | cons e es ih =>
    obtain ⟨he, hes⟩ := each_cons.1 hes
    obtain ⟨u, hu, huvhd, hulife, hurequests, huasked⟩ := gone_step hvhd hlife he
    obtain ⟨t, ht, htvhd, htlife, htrequests, htasked⟩ := ih (huvhd.trans hvhd) hulife (hes u hu)
    refine ⟨t, (run_cons hu).trans ht, htvhd.trans huvhd, htlife, htrequests.trans hurequests, ?_⟩
    rw [htasked, huasked, List.append_assoc, List.count_cons]
    congr 1
    by_cases hfire : e = .fire
    · subst hfire
      exact (List.replicate_succ ..).symm
    · simp [hfire]

/-- The client asks for one connection. Once it is gone nothing brings it back, and each `fire` asks
libwebsockets to write to `NULL` or to a connection that was closed. -/
theorem gone_stays {es fs : List ConnectEvent} (hes : Each step Legal start es)
    (hs : run step start es = .ok s) (hvhd : s.vhd ≠ .null) (hlife : s.life = .none)
    (hfs : Each step Legal s fs) : ∃ vhd t, s.vhd = .ref vhd ∧
      (vhd = ⟨none, false⟩ ∨ ∃ wsi, vhd = ⟨some wsi, true⟩) ∧ s.requests.length = 1 ∧
      run step s fs = .ok t ∧ t.vhd = s.vhd ∧ t.life = .none ∧ t.requests = s.requests ∧
      t.asked = s.asked ++ .replicate (fs.count .fire) vhd.clientWsi := by
  have honce : Once s := run_keeps (fun _ _ _ _ h he ht => h.step he ht) once_start hes hs
  cases honce with
  | before hnull => exact absurd hnull hvhd
  | @behind vhd href hknows hone =>
    obtain ⟨t, ht, hkept⟩ := gone_run href hlife hfs
    refine ⟨vhd, t, href, ?_, hone, ht, hkept⟩
    rw [hlife] at hknows
    cases hknows with
    | gone => exact .inl rfl
    | closed wsi => exact .inr ⟨wsi, rfl⟩

/-- A WebSocket connection that the peer closes between the two reads of `established`. -/
def closedEvents : List ConnectEvent :=
  [.create true true, .callback (.protocolInit (some 1)), .callback .clientEstablished, .poll,
    .callback .clientClosed, .check]

theorem gone_stays_closedEvents : ∃ s, run step start closedEvents = .ok s ∧ ∃ vhd t,
    s.vhd = .ref vhd ∧ (vhd = ⟨none, false⟩ ∨ ∃ wsi, vhd = ⟨some wsi, true⟩) ∧
      s.requests.length = 1 ∧ run step s [.callback .user, .fire] = .ok t ∧ t.vhd = s.vhd ∧
      t.life = .none ∧ t.requests = s.requests ∧ t.asked = s.asked ++
        .replicate ([ConnectEvent.callback .user, .fire].count .fire) vhd.clientWsi := by
  refine ⟨_, rfl, @gone_stays _ closedEvents [.callback .user, .fire] ?_ rfl nofun rfl ?_⟩
  · refine each_cons.2 ⟨trivial, ?_⟩
    rintro _ ⟨⟩
    refine each_cons.2 ⟨rfl, ?_⟩
    rintro _ ⟨⟩
    refine each_cons.2 ⟨⟨1, rfl⟩, ?_⟩
    rintro _ ⟨⟩
    refine each_cons.2 ⟨trivial, ?_⟩
    rintro _ ⟨⟩
    refine each_cons.2 ⟨⟨1, rfl⟩, ?_⟩
    rintro _ ⟨⟩
    exact each_cons.2 ⟨trivial, fun _ _ => each_nil⟩
  · exact each_cons.2 ⟨Nat.one_pos, fun _ _ => each_cons.2 ⟨trivial, fun _ _ => each_nil⟩⟩

/-! ### What `open_lws_net_connection` returns -/

/-- The order of the thread that calls it. -/
def InTurn (c : Connection) : ConnectEvent → Prop
  | .create _ _ => c.opening = .called
  | .poll => ∃ n, c.opening = .waiting n
  | .check => c.opening = .left
  | .callback _ | .fire => True

/-- `vhd->established` -/
def IsSet (c : Connection) : Prop := ∃ vhd, c.vhd = .ref vhd ∧ vhd.established = true

/-- The connection was established. -/
def Established (es : List ConnectEvent) : Prop :=
  .callback .clientEstablished ∈ es ∨ .callback .rawAdopt ∈ es

/-- `lws_create_context` or `pthread_create` failed. -/
def Failed (es : List ConnectEvent) : Prop :=
  ∃ context worker, .create context worker ∈ es ∧ (context && worker) = false

/-- The loop found the connection established, and it was closed before the second read. -/
def ClosedBetween (es : List ConnectEvent) : Prop :=
  ∃ pre mid post, es = pre ++ .poll :: mid ++ .check :: post ∧ Established pre ∧
    .callback .clientClosed ∈ mid

/-- What was returned, and why. -/
def Answer (es : List ConnectEvent) (result : Int) : Prop :=
  result = 0 ∧ Established es ∨
    result = -1 ∧ (Failed es ∨ 16 ≤ es.count .poll ∨ ClosedBetween es)

/-- The loop has found the connection established. -/
def Found (es : List ConnectEvent) (c : Connection) : Prop :=
  ∃ pre mid, es = pre ++ .poll :: mid ∧ Established pre ∧
    (IsSet c ∨ .callback .clientClosed ∈ mid)

/-- What the thread knows at each point. -/
structure Polled (es : List ConnectEvent) (c : Connection) : Prop where
  established : IsSet c → Established es
  called : c.opening = .called → es.count .poll = 0
  waiting : ∀ n, c.opening = .waiting n → es.count .poll = n
  left : c.opening = .left → 16 ≤ es.count .poll ∨ Found es c
  returned : ∀ result, c.opening = .returned result → Answer es result

theorem Established.mono {es fs : List ConnectEvent} (h : Established es) :
    Established (es ++ fs) :=
  h.imp (List.mem_append_left _) (List.mem_append_left _)

theorem Answer.mono {es fs : List ConnectEvent} {result : Int} (h : Answer es result) :
    Answer (es ++ fs) result := by
  rcases h with ⟨hzero, hest⟩ | ⟨hfailed, ⟨context, worker, hmem, hand⟩ | hle | hbetween⟩
  · exact .inl ⟨hzero, hest.mono⟩
  · exact .inr ⟨hfailed, .inl ⟨context, worker, List.mem_append_left _ hmem, hand⟩⟩
  · refine .inr ⟨hfailed, .inr (.inl ?_)⟩
    rw [List.count_append]
    exact Nat.le_add_right_of_le hle
  · obtain ⟨pre, mid, post, rfl, hest, hclosed⟩ := hbetween
    exact .inr ⟨hfailed, .inr (.inr ⟨pre, mid, post ++ fs, by simp, hest, hclosed⟩)⟩

/-- What a callback does to `vhd->established`. -/
theorem callback_isSet (hlegal : c.Legal (.callback reason))
    (ht : c.callbackMinimalBroker reason = .ok t) :
    (IsSet t → IsSet c ∨ reason = .clientEstablished ∨ reason = .rawAdopt) ∧
      (IsSet c → IsSet t ∨ reason = .clientClosed) := by
  cases reason with
  | protocolInit wsi =>
    have hnull : c.vhd = .null := hlegal
    cases ht
    refine ⟨?_, ?_⟩
    · rintro ⟨vhd, hvhd, hset⟩
      cases wsi <;> cases hvhd <;> cases hset
    · rintro ⟨vhd, hvhd, -⟩
      rw [hnull] at hvhd
      cases hvhd
  | clientConnectionError =>
    obtain ⟨vhd, hv, ht⟩ := bind_eq_ok.1 ht
    have href : c.vhd = .ref vhd := by cases hc : c.vhd <;> rw [hc] at hv <;> cases hv; rfl
    cases ht
    refine ⟨?_, ?_⟩
    · rintro ⟨vhd', hvhd', hset⟩
      cases hvhd'
      exact .inl ⟨vhd, href, hset⟩
    · rintro ⟨vhd', hvhd', hset⟩
      rw [href] at hvhd'
      cases hvhd'
      exact .inl ⟨_, rfl, hset⟩
  | clientEstablished =>
    obtain ⟨vhd, -, ht⟩ := bind_eq_ok.1 ht
    cases ht
    exact ⟨fun _ => .inr (.inl rfl), fun _ => .inl ⟨_, rfl, rfl⟩⟩
  | rawAdopt =>
    obtain ⟨vhd, -, ht⟩ := bind_eq_ok.1 ht
    cases ht
    exact ⟨fun _ => .inr (.inr rfl), fun _ => .inl ⟨_, rfl, rfl⟩⟩
  | clientClosed =>
    obtain ⟨vhd, -, ht⟩ := bind_eq_ok.1 ht
    cases ht
    refine ⟨?_, fun _ => .inr rfl⟩
    rintro ⟨vhd', hvhd', hset⟩
    cases hvhd'
    cases hset
  | rawClose | user =>
    cases ht
    exact ⟨.inl, .inl⟩

theorem callback_opening (ht : c.callbackMinimalBroker reason = .ok t) :
    t.opening = c.opening := by
  cases reason with
  | protocolInit wsi =>
    cases ht
    cases wsi <;> rfl
  | clientConnectionError | clientEstablished | rawAdopt | clientClosed =>
    obtain ⟨vhd, -, ht⟩ := bind_eq_ok.1 ht
    cases ht
    rfl
  | rawClose | user =>
    cases ht
    rfl

/-- A step of another thread. -/
theorem Polled.other {es : List ConnectEvent} (h : Polled es c) (he : e ≠ .poll)
    (hopening : t.opening = c.opening) (hnew : IsSet t → IsSet c ∨ Established [e])
    (hkept : IsSet c → IsSet t ∨ e = .callback .clientClosed) : Polled (es ++ [e]) t := by
  have hcount : (es ++ [e]).count .poll = es.count .poll := by
    rw [List.count_append, List.count_singleton, if_neg (by simpa using he), Nat.add_zero]
  refine ⟨fun hset => ?_, fun hcalled => ?_, fun n hn => ?_, fun hleft => ?_, fun result hresult => ?_⟩
  · rcases hnew hset with hset | hest
    · exact (h.established hset).mono
    · exact hest.imp (List.mem_append_right _) (List.mem_append_right _)
  · exact hcount.trans (h.called (hopening ▸ hcalled))
  · exact hcount.trans (h.waiting n (hopening ▸ hn))
  · rcases h.left (hopening ▸ hleft) with hle | ⟨pre, mid, rfl, hest, hfound⟩
    · exact .inl (hcount ▸ hle)
    · refine .inr ⟨pre, mid ++ [e], by simp, hest, ?_⟩
      rcases hfound with hset | hclosed
      · rcases hkept hset with hset | rfl
        · exact .inl hset
        · exact .inr (List.mem_append_right _ (List.mem_singleton.2 rfl))
      · exact .inr (List.mem_append_left _ hclosed)
  · exact (h.returned result (hopening ▸ hresult)).mono

/-- The loop is begun, or not reached. -/
theorem Polled.create {es : List ConnectEvent} (h : Polled es c) {context worker : Bool}
    (hcalled : c.opening = .called) :
    Polled (es ++ [.create context worker]) (c.create context worker) := by
  have hcount : (es ++ [ConnectEvent.create context worker]).count .poll = 0 := by
    rw [List.count_append, h.called hcalled]
    rfl
  have hest : IsSet c → Established (es ++ [.create context worker]) :=
    fun hset => (h.established hset).mono
  unfold Connection.create
  rw [hcalled]
  cases hand : context && worker with
  | true =>
    refine ⟨hest, nofun, fun n hn => ?_, nofun, nofun⟩
    cases hn
    exact hcount
  | false =>
    refine ⟨hest, nofun, nofun, nofun, fun result hresult => ?_⟩
    cases hresult
    exact .inr ⟨rfl, .inl ⟨context, worker, List.mem_append_right _ (List.mem_singleton.2 rfl), hand⟩⟩

/-- What a test of the loop finds. -/
theorem poll_cases {n : ℕ} (hn : c.opening = .waiting n) (ht : c.poll = .ok t) :
    t.vhd = c.vhd ∧ (t.opening = .waiting (n + 1) ∨ t.opening = .left ∧ (IsSet c ∨ 15 ≤ n)) := by
  refine ⟨(same_connection (e := .poll) nofun ht).1, ?_⟩
  unfold poll at ht
  rw [hn] at ht
  simp only at ht
  split at ht
  · cases ht
    exact .inl rfl
  · obtain ⟨vhd, hvhd, ht⟩ := bind_eq_ok.1 ht
    have href : c.vhd = .ref vhd := by
      cases hc : c.vhd <;> rw [hc] at hvhd <;> cases hvhd
      rfl
    cases ht
    cases hest : vhd.established with
    | true => exact .inr ⟨by simp, .inl ⟨vhd, href, hest⟩⟩
    | false =>
      by_cases hlt : n < 15
      · exact .inl (by simp [hlt])
      · exact .inr ⟨by simp [hlt], .inr (Nat.le_of_not_lt hlt)⟩

theorem Polled.poll {es : List ConnectEvent} (h : Polled es c) {n : ℕ}
    (hn : c.opening = .waiting n) (ht : c.poll = .ok t) : Polled (es ++ [.poll]) t := by
  have hcount : (es ++ [ConnectEvent.poll]).count .poll = n + 1 := by
    rw [List.count_append, List.count_singleton_self, h.waiting n hn]
  obtain ⟨hvhd, hcases⟩ := poll_cases hn ht
  have hest : IsSet t → Established (es ++ [.poll]) := by
    rintro ⟨vhd, hv, hset⟩
    exact (h.established ⟨vhd, hvhd ▸ hv, hset⟩).mono
  rcases hcases with hwait | ⟨hleft, hfound⟩
  · refine ⟨hest, fun hcalled => ?_, fun m hm => ?_, fun hleft => ?_, fun result hresult => ?_⟩
    · cases hwait.symm.trans hcalled
    · cases hwait.symm.trans hm
      exact hcount
    · cases hwait.symm.trans hleft
    · cases hwait.symm.trans hresult
  · refine ⟨hest, fun hcalled => ?_, fun m hm => ?_, fun _ => ?_, fun result hresult => ?_⟩
    · cases hleft.symm.trans hcalled
    · cases hleft.symm.trans hm
    · rcases hfound with ⟨vhd, hv, hset⟩ | hle
      · exact .inr ⟨es, [], rfl, h.established ⟨vhd, hv, hset⟩, .inl ⟨vhd, hvhd.trans hv, hset⟩⟩
      · exact .inl (by omega)
    · cases hleft.symm.trans hresult

/-- The second read. -/
theorem Polled.check {es : List ConnectEvent} (h : Polled es c) (hleft : c.opening = .left)
    (ht : c.check = .ok t) : Polled (es ++ [.check]) t := by
  have hcount : (es ++ [ConnectEvent.check]).count .poll = es.count .poll := by
    rw [List.count_append]
    rfl
  unfold Connection.check at ht
  rw [hleft] at ht
  obtain ⟨vhd, hv, ht⟩ := bind_eq_ok.1 ht
  have href : c.vhd = .ref vhd := by cases hc : c.vhd <;> rw [hc] at hv <;> cases hv; rfl
  cases ht
  have hest (hset : IsSet c) : Established (es ++ [.check]) := (h.established hset).mono
  refine ⟨hest, nofun, nofun, nofun, fun result hresult => ?_⟩
  cases hresult
  cases hnew : vhd.established with
  | true => exact .inl ⟨rfl, hest ⟨vhd, href, hnew⟩⟩
  | false =>
    refine .inr ⟨rfl, .inr ?_⟩
    rcases h.left hleft with hle | ⟨pre, mid, rfl, hpre, ⟨vhd', hvhd', hset⟩ | hclosed⟩
    · exact .inl (hcount ▸ hle)
    · rw [href] at hvhd'
      cases hvhd'
      rw [hnew] at hset
      cases hset
    · exact .inr ⟨pre, mid, [], rfl, hpre, hclosed⟩

theorem Polled.step {es : List ConnectEvent} (h : Polled es c) (he : c.Legal e ∧ c.InTurn e)
    (ht : c.step e = .ok t) : Polled (es ++ [e]) t := by
  obtain ⟨hlegal, hturn⟩ := he
  cases e with
  | callback reason =>
    obtain ⟨hnew, hkept⟩ := callback_isSet hlegal ht
    have hopening : t.opening = c.opening := callback_opening ht
    refine h.other nofun hopening (fun hset => (hnew hset).imp_right fun hreason => ?_)
      fun hset => (hkept hset).imp_right (congrArg _)
    exact hreason.imp (by rintro rfl; exact List.mem_singleton.2 rfl)
      (by rintro rfl; exact List.mem_singleton.2 rfl)
  | create context worker =>
    cases ht
    exact h.create hturn
  | poll =>
    obtain ⟨n, hn⟩ := hturn
    exact h.poll hn ht
  | check => exact h.check hturn ht
  | fire =>
    obtain ⟨vhd, -, ht⟩ := bind_eq_ok.1 ht
    cases ht
    exact h.other nofun rfl .inl .inl

theorem Polled.run {es fs : List ConnectEvent} (h : Polled es c)
    (hfs : Each Connection.step (fun c e => c.Legal e ∧ c.InTurn e) c fs)
    (ht : Machine.run Connection.step c fs = .ok t) : Polled (es ++ fs) t := by
  induction fs generalizing es c with
  | nil =>
    cases ht
    rw [List.append_nil]
    exact h
  | cons e fs ih =>
    obtain ⟨u, hu, ht⟩ := run_cons_eq_ok.1 ht
    obtain ⟨he, hfs⟩ := each_cons.1 hfs
    rw [show es ++ e :: fs = es ++ [e] ++ fs by simp]
    exact ih (h.step he hu) (hfs u hu) ht

/-- `open_lws_net_connection` returns 0 only when the connection was established, and -1 only when
its loop was not reached or ran for 15 rounds, or the connection was closed behind it. -/
theorem opening_returned {es : List ConnectEvent}
    (hes : Each step (fun c e => c.Legal e ∧ c.InTurn e) start es)
    (hs : run step start es = .ok s) {result : Int} (hresult : s.opening = .returned result) :
    result = 0 ∧ Established es ∨
      result = -1 ∧ (Failed es ∨ 16 ≤ es.count .poll ∨ ClosedBetween es) := by
  have hstart : Polled [] start := ⟨nofun, fun _ => rfl, nofun, nofun, nofun⟩
  exact (hstart.run hes hs).returned result hresult

theorem opening_returned_closedEvents : ∃ s, Machine.run step start closedEvents = .ok s ∧
    ∃ result, s.opening = .returned result ∧
      (result = 0 ∧ Established closedEvents ∨ result = -1 ∧
        (Failed closedEvents ∨ 16 ≤ closedEvents.count .poll ∨ ClosedBetween closedEvents)) := by
  refine ⟨_, rfl, _, rfl, @opening_returned _ closedEvents ?_ rfl _ rfl⟩
  refine each_cons.2 ⟨⟨trivial, rfl⟩, ?_⟩
  rintro _ ⟨⟩
  refine each_cons.2 ⟨⟨rfl, trivial⟩, ?_⟩
  rintro _ ⟨⟩
  refine each_cons.2 ⟨⟨⟨1, rfl⟩, trivial⟩, ?_⟩
  rintro _ ⟨⟩
  refine each_cons.2 ⟨⟨trivial, 0, rfl⟩, ?_⟩
  rintro _ ⟨⟩
  refine each_cons.2 ⟨⟨⟨1, rfl⟩, trivial⟩, ?_⟩
  rintro _ ⟨⟩
  exact each_cons.2 ⟨⟨trivial, rfl⟩, fun _ _ => each_nil⟩

end Connection

end IotClient.Net
