import IotClient.Coap.Session

/-!
# The requests a CoAP client has outstanding

`awaiting wire` are the requests that were sent and neither acknowledged nor reset. The map `m`
should hold exactly these, each under its message id, and does so in a session of requests and
replies if and only if its steps do what `Kept` says.
-/

namespace IotClient.Coap

open Mem Machine

def awaitingStep (rs : List CoapMessage) : Traffic CoapMessage → List CoapMessage
  | .sent message => if message.type = CoapType.confirmable.value then rs ++ [message] else rs
  | .queued _ => rs
  | .received reply => rs.filter fun r => !decide (r.messageId = reply.messageId)

/-- The requests without a reply. -/
def awaiting (wire : List (Traffic CoapMessage)) : List CoapMessage := wire.foldl awaitingStep []

variable {wire : List (Traffic CoapMessage)} {w : Traffic CoapMessage} {message reply : CoapMessage}

theorem awaiting_snoc : awaiting (wire ++ [w]) = awaitingStep (awaiting wire) w := by
  unfold awaiting
  rw [List.foldl_append]
  rfl

theorem mem_awaiting (h : message ∈ awaiting wire) : .sent message ∈ wire := by
  induction wire using List.reverseRecOn with
  | nil => cases h
  | append_singleton wire w ih =>
    rw [awaiting_snoc] at h
    cases w with
    | sent m =>
      change message ∈ if m.type = _ then awaiting wire ++ [m] else awaiting wire at h
      split at h
      · rw [mem_snoc] at h
        rcases h with h | rfl
        · exact List.mem_append_left _ (ih h)
        · exact List.mem_append_right _ (List.mem_singleton.mpr rfl)
      · exact List.mem_append_left _ (ih h)
    | queued m => exact List.mem_append_left _ (ih h)
    | received m => exact List.mem_append_left _ (ih (List.mem_filter.mp h).1)

namespace Client

variable {c t : Client} {e : Event} {es : List Event} {data : List UInt8} {length : Int}
  {m : CoapMessage} {r : Request} {account : Account}

/-- A reply is an acknowledgement or a reset that carries the id of a request that was sent. -/
def Replies (c : Client) : Event → Prop
  | .receive data length => ∃ m, coapDecode data length = .ok (some m) ∧
      (typeBits data = CoapType.acknowledgement.value ∨ typeBits data = CoapType.reset.value) ∧
      ∃ request, .sent request ∈ c.wire ∧ request.messageId = m.messageId
  | _ => True

/-- The map holds exactly the requests without a reply, each under its own id. -/
def MapRight (c : Client) : Prop := c.m.Holds (fun r => some r.messageId) (awaiting c.wire)

/-- What keeps the map right: each request can be sent, and the acknowledgement of a GET that is
found has an OBSERVE that is not empty, and can be read. -/
def Kept (c : Client) (e : Event) : Prop :=
  (∀ r, e.request = some r → Sendable c r) ∧
    ∀ data length m, e = .receive data length → coapDecode data length = .ok (some m) →
      (m.code = CoapCode.get.value → c.m m.messageId ≠ none →
        observeByte (messageOptions m) ≠ none) ∧ AckSafe c m

/-- The ids of the requests that were sent count from 1. -/
structure Inv (c : Client) : Prop where
  stored : StoredTerminated c
  few : c.currentPacketNumber < 10000
  ids : ∀ request, .sent request ∈ c.wire →
    1 ≤ request.messageId.toNat ∧ request.messageId.toNat ≤ c.currentPacketNumber

theorem inv_init (account : Account) : Inv (init account) :=
  ⟨storedTerminated_init account, (by decide : 0 < 10000), by simp [init]⟩

theorem toNat_nextMessage (h : c.currentPacketNumber + 1 < 10000) (clientId : CString) :
    (c.nextMessage r clientId).messageId.toNat = c.currentPacketNumber + 1 := by
  change (UInt16.ofNat (c.currentPacketNumber + 1)).toNat = _
  exact short_toNat_of_lt (by omega)

/-! ### A request -/

theorem request_right {clientId : CString} {out : List UInt8} (hc : Inv c) (hright : MapRight c)
    (hfew : c.currentPacketNumber + 1 < 10000) :
    MapRight ((c.stored (c.nextMessage r clientId)).fired (c.nextMessage r clientId) out) := by
  have hid := toNat_nextMessage (r := r) hfew clientId
  change (c.m.set _ _).Holds _ (awaiting (c.wire ++ [.sent (c.nextMessage r clientId)]))
  rw [awaiting_snoc]
  refine Table.Holds.add hright rfl fun r' hr' hsame => ?_
  have hle := (hc.ids r' (mem_awaiting hr')).2
  rw [Option.some.inj hsame] at hle
  omega

theorem request_inv {clientId : CString} {out : List UInt8} (hc : Inv c)
    (hfew : c.currentPacketNumber + 1 < 10000)
    (hstep : c.step e =
      .ok ((c.stored (c.nextMessage r clientId)).fired (c.nextMessage r clientId) out)) :
    Inv ((c.stored (c.nextMessage r clientId)).fired (c.nextMessage r clientId) out) := by
  refine ⟨storedTerminated_step hc.stored hstep, hfew, fun request hmem => ?_⟩
  have hid := toNat_nextMessage (r := r) hfew clientId
  rcases mem_snoc.mp hmem with hmem | heq
  · have hold := hc.ids request hmem
    exact ⟨hold.1, hold.2.trans (Nat.le_succ _)⟩
  · cases heq
    change 1 ≤ (c.nextMessage r clientId).messageId.toNat ∧
      (c.nextMessage r clientId).messageId.toNat ≤ c.currentPacketNumber + 1
    omega

/-! ### A reply -/

/-- A reset is decoded as an acknowledgement. -/
theorem type_of_reply (hm : Decoded data m) (htype : typeBits data = 2 ∨ typeBits data = 3) :
    m.type = CoapType.acknowledgement.value := by
  rw [hm.type]
  rcases htype with h | h <;> rw [h] <;> rfl

/-- Once the map was right, it stays so when the entry of the reply is gone. -/
theorem reply_right_iff (hright : MapRight c) {u : Client}
    (hu : u = if Settles m then (c.read m).coapRemoveMessageFromMap m.messageId else c.read m) :
    MapRight u ↔ Settles m ∨ c.m m.messageId = none := by
  have hremoved : (c.m.erase m.messageId).Holds (fun r => some r.messageId)
      (awaiting (c.wire ++ [.received m])) := by
    rw [awaiting_snoc]
    exact Table.Holds.remove hright (by simp)
  by_cases hs : Settles m
  · rw [if_pos hs] at hu
    subst hu
    exact iff_of_true hremoved (.inl hs)
  · rw [if_neg hs] at hu
    subst hu
    change c.m.Holds _ (awaiting (c.wire ++ [.received m])) ↔ _
    simp only [hs, false_or]
    constructor
    · intro hheld
      cases hget : c.m m.messageId with
      | none => rfl
      | some request =>
        -- the map would hold a request that has its reply
        have hmem := ((hheld m.messageId request).mp hget).1
        have hkey := ((hheld m.messageId request).mp hget).2
        rw [awaiting_snoc] at hmem
        have hne := (List.mem_filter.mp hmem).2
        simp [Option.some.inj hkey] at hne
    · intro hnone
      rwa [Table.erase_of_none hnone] at hremoved

/-! ### Steps -/

theorem kept_request (hrequest : e.request = some r) : Kept c e ↔ Sendable c r := by
  constructor
  · intro h
    exact h.1 r hrequest
  · intro h
    refine ⟨fun r' hr' => ?_, fun data length m he => ?_⟩
    · cases hrequest.symm.trans hr'
      exact h
    · rw [he] at hrequest
      cases hrequest

theorem kept_receive (hdec : coapDecode data length = .ok (some m)) :
    Kept c (.receive data length) ↔ (m.code = CoapCode.get.value → c.m m.messageId ≠ none →
      observeByte (messageOptions m) ≠ none) ∧ AckSafe c m := by
  constructor
  · intro h
    exact h.2 data length m rfl hdec
  · intro h
    refine ⟨fun r hr => absurd hr (by simp [Event.request]), fun data' length' m' he hdec' => ?_⟩
    cases he
    cases hdec.symm.trans hdec'
    exact h

/-- The id of a request that was sent is not 0. -/
theorem settles_or_none_iff (hc : Inv c) {request : CoapMessage} (hsent : .sent request ∈ c.wire)
    (hid : request.messageId = m.messageId) : Settles m ∨ c.m m.messageId = none ↔
      (m.code = CoapCode.get.value → c.m m.messageId ≠ none →
        observeByte (messageOptions m) ≠ none) := by
  unfold Settles
  by_cases hget : m.code = CoapCode.get.value
  · rw [if_pos hget]
    tauto
  · rw [if_neg hget]
    have hpos := (hc.ids request hsent).1
    refine iff_of_true (.inl fun hzero => ?_) fun h => absurd h hget
    rw [hid, hzero] at hpos
    simp at hpos

theorem step_right_iff (hc : Inv c) (hright : MapRight c) (hreply : Replies c e) :
    (∃ t, c.step e = .ok t ∧ MapRight t) ↔ Kept c e := by
  cases hrequest : e.request with
  | some r =>
    rw [kept_request hrequest]
    rcases step_request (c := c) hrequest with ⟨hsend, clientId, out, -, hstep⟩ | ⟨hsend, f, hstep⟩
    · rw [hstep, exists_ok_iff rfl]
      exact iff_of_true (request_right hc hright hsend.1) hsend
    · rw [hstep]
      simp [hsend]
  | none =>
    cases e with
    | receive data length =>
      obtain ⟨m, hdec, htype, request, hsent, hid⟩ := hreply
      have hm := decoded hdec
      have hack := type_of_reply hm htype
      rw [kept_receive hdec, ← settles_or_none_iff hc hsent hid, step_receive hdec,
        processMessage_ack hm hack]
      constructor
      · rintro ⟨t, ht, htright⟩
        obtain ⟨hsafe, hu⟩ := (processAck_iff (c := c.read m) hc.stored hm.wellFormed).mp ht
        exact ⟨(reply_right_iff hright hu).mp htright, hsafe⟩
      · rintro ⟨hsettles, hsafe⟩
        exact ⟨_, (processAck_iff (c := c.read m) hc.stored hm.wellFormed).mpr ⟨hsafe, rfl⟩,
          (reply_right_iff hright rfl).mpr hsettles⟩
    | _ => cases hrequest

theorem step_inv (hc : Inv c) (hreply : Replies c e) (h : c.step e = .ok t) : Inv t := by
  cases hrequest : e.request with
  | some r =>
    rcases step_request (c := c) hrequest with ⟨hsend, clientId, out, -, hstep⟩ | ⟨-, f, hstep⟩
    · cases hstep.symm.trans h
      exact request_inv hc hsend.1 hstep
    · cases hstep.symm.trans h
  | none =>
    cases e with
    | receive data length =>
      obtain ⟨m, hdec, htype, -⟩ := hreply
      have hm := decoded hdec
      have hack := type_of_reply hm htype
      have hstored := storedTerminated_step hc.stored h
      rw [step_receive hdec, processMessage_ack hm hack] at h
      obtain ⟨-, hu⟩ := (processAck_iff (c := c.read m) hc.stored hm.wellFormed).mp h
      have hsame : t.currentPacketNumber = c.currentPacketNumber ∧
          t.wire = c.wire ++ [.received m] := by
        rw [hu]
        split <;> exact ⟨rfl, rfl⟩
      refine ⟨hstored, hsame.1 ▸ hc.few, fun request hmem => ?_⟩
      rw [hsame.2, mem_snoc] at hmem
      rw [hsame.1]
      exact hc.ids request (hmem.resolve_right (by simp))
    | _ => cases hrequest

/-- After every step of a session the map holds exactly the requests without a reply if and only
if every step keeps it. -/
theorem requestsRight_iff_kept (account : Account) (es : List Event)
    (hreplies : Each step Replies (init account) es) :
    Always step MapRight (init account) es ↔ Each step Kept (init account) es := by
  refine always_iff_each (I := Inv) (fun _ _ _ hi _ hr ht _ => step_inv hi hr ht)
    (fun _ _ hi hp hr => step_right_iff hi hp hr) (inv_init account) ?_ hreplies
  exact Table.holds_empty

/-- An account with the client id `d`. -/
def subscriber : Account := { Account.anonymous with clientId := some (.ofBytes [0x64]) }

/-- A subscription to `t`. -/
def subscribeT : Event := .sendSubscribe (.ofBytes [0x74]) 1 0

/-- The acknowledgement of the request 1, with the code GET and without options. -/
def bareAck : List UInt8 := [0x61, 1, 0, 1, 0x31]

def bareAckMessage : CoapMessage where
  version := 1
  type := 2
  code := 1
  messageId := 1
  token := .ref (.ofBytes [0x31])
  tokenLength := .is 1
  options := .indet
  optionsAmount := 0
  payload := .indet

theorem coapDecode_bareAck : coapDecode bareAck 5 = .ok (some bareAckMessage) := by decide +kernel

theorem step_subscribeT (h : (init subscriber).step subscribeT = .ok t) :
    ∃ r clientId out, t = ((init subscriber).stored ((init subscriber).nextMessage r clientId)).fired
      ((init subscriber).nextMessage r clientId) out := by
  rcases step_request (c := init subscriber) (e := subscribeT) rfl with
    ⟨-, clientId, out, -, hstep⟩ | ⟨-, f, hstep⟩
  · exact ⟨_, clientId, out, Except.ok.inj (h.symm.trans hstep)⟩
  · cases hstep.symm.trans h

theorem replies_bareAck : Each step Replies (init subscriber) [subscribeT, .receive bareAck 5] := by
  refine each_cons.2 ⟨trivial, fun t ht => each_cons.2 ⟨?_, fun _ _ => each_nil⟩⟩
  obtain ⟨r, clientId, out, rfl⟩ := step_subscribeT ht
  exact ⟨bareAckMessage, coapDecode_bareAck, .inl rfl, _, List.mem_singleton.mpr rfl, rfl⟩

theorem requestsRight_iff_kept_bareAck :
    Each step Replies (init subscriber) [subscribeT, .receive bareAck 5] ∧
      (Always step MapRight (init subscriber) [subscribeT, .receive bareAck 5] ↔
        Each step Kept (init subscriber) [subscribeT, .receive bareAck 5]) :=
  ⟨replies_bareAck, requestsRight_iff_kept subscriber _ replies_bareAck⟩

/-- The request stays in the map. -/
theorem bareAck_not_mapRight :
    Each step Replies (init subscriber) [subscribeT, .receive bareAck 5] ∧
      ¬ Always step MapRight (init subscriber) [subscribeT, .receive bareAck 5] := by
  refine ⟨replies_bareAck, fun h => ?_⟩
  obtain ⟨-, t, ht, h⟩ := always_cons.1 h
  obtain ⟨hright, u, hu, h⟩ := always_cons.1 h
  have hinv := step_inv (e := subscribeT) (inv_init subscriber) trivial ht
  have hreply := (each_cons.1 ((each_cons.1 replies_bareAck).2 t ht)).1
  have hkept := (step_right_iff hinv hright hreply).mp ⟨u, hu, h.start⟩
  obtain ⟨r, clientId, out, rfl⟩ := step_subscribeT ht
  have hget : (((init subscriber).stored ((init subscriber).nextMessage r clientId)).fired
      ((init subscriber).nextMessage r clientId) out).m bareAckMessage.messageId =
      some ((init subscriber).nextMessage r clientId) :=
    Table.set_self (Table.empty : Table UInt16 CoapMessage) 1 ((init subscriber).nextMessage r clientId)
  exact ((kept_receive coapDecode_bareAck).mp hkept).1 rfl (by rw [hget]; simp) rfl

end Client

end IotClient.Coap
