import IotClient.Amqp.LinkFits
import IotClient.Amqp.MessageBody
import IotClient.Amqp.Session

/-!
# What `process_amqp_rx` makes of a decoded header

`Handled c header` says that the client in state `c` does nothing undefined with the header, and
changes nothing if the header came without a packet. `CodeFits` is what this takes of the list that
the packet was read from, for each code.
-/

namespace IotClient.Amqp

open Mem Machine

/-- Nothing has changed but the log, which has what was received. -/
def Dropped (c t : Client) : Prop := ∃ header, t = c.afterRead header

/-- The header is handled without a fault. -/
structure Handled (c : Client) (header : AmqpHeader) : Prop where
  returns : Returns (c.processAmqpRx header)
  /-- the mechanism of the answer, which `amqp_encode` looks at -/
  mechanism : ∀ m, header.packet = .ref (.mechanisms m) → Returns m.mechanisms.deref
  rejected : header.packet = .indet → ∀ t, c.processAmqpRx header = .ok t → Dropped c t

/-- A header as `amqp_decode` returns it. -/
def AmqpHeader.decoded (code doff type : UInt8) (channel : Int) (packet : Ptr Packet) : AmqpHeader :=
  ⟨.is code, .is doff.toNat, .is type.toNat, .is channel, packet⟩

section Dispatch

variable {c : Client} {header : AmqpHeader} {code doff type : UInt8} {channel : Int} {p : Packet}

theorem handled_of_ref {k : HeaderCode} (hp : header.packet = .ref p) (hk : p.code = k)
    (hne : k ≠ .mechanisms) : Handled c header ↔ Returns (c.processAmqpRx header) := by
  refine ⟨Handled.returns, fun hr => ⟨hr, fun m hm => ?_, fun hindet => ?_⟩⟩
  · rw [hp, Ptr.ref.injEq] at hm
    rw [hm] at hk
    exact absurd hk.symm hne
  · rw [hp] at hindet
    cases hindet

/-! ### Headers without a packet -/

/-- The codes for which nothing is done. -/
def unanswered : List (Option HeaderCode) :=
  [none, some .flow, some .init, some .challenge, some .response, some .ping]

theorem handled_unanswered (hcode : header.code = .is code)
    (hk : HeaderCode.ofByte code ∈ unanswered)
    (hpacket : ∀ p, header.packet = .ref p → HeaderCode.ofByte code = some p.code) :
    Handled c header := by
  have heq : c.processAmqpRx header = .ok (c.afterRead header) := by
    unfold Client.processAmqpRx
    rw [hcode, Cell.get_is, ok_bind]
    simp only [unanswered, List.mem_cons, List.not_mem_nil, or_false] at hk
    rcases hk with hk | hk | hk | hk | hk | hk <;> rw [hk] <;> rfl
  refine ⟨⟨_, heq⟩, fun m hm => ?_, fun _ t ht => ⟨header, Except.ok.inj (ht.symm.trans heq)⟩⟩
  rw [hpacket _ hm] at hk
  simp [unanswered, Packet.code] at hk

/-- An OPEN is answered even if it came without a packet. -/
theorem not_handled_open :
    ¬ Handled c (.decoded HeaderCode.open.toByte doff type channel .indet) := by
  intro hh
  obtain ⟨header, heq⟩ := hh.rejected rfl _ rfl
  have hlen := congrArg (fun t => t.wire.length) heq
  simp only [Client.sendAmqpBegin, Client.fire, Client.amqpEncodeAndFire, Client.afterRead,
    Client.startAmqpPingTimer, List.length_append, List.length_singleton] at hlen
  omega

/-- The listener is told of a BEGIN. -/
theorem not_handled_begin :
    ¬ Handled c (.decoded HeaderCode.begin.toByte doff type channel .indet) := by
  intro hh
  obtain ⟨header, heq⟩ := hh.rejected rfl _ rfl
  have hconnected : c.connected + 1 = c.connected := congrArg Client.connected heq
  omega

/-- The codes whose packet is looked at. -/
def inspected : List HeaderCode :=
  [.proto, .attach, .transfer, .disposition, .detach, .mechanisms, .outcome]

theorem not_handled_inspected {k : HeaderCode} (hk : k ∈ inspected) :
    ¬ Handled c (.decoded k.toByte doff type channel .indet) := by
  have hfault : c.processAmqpRx (.decoded k.toByte doff type channel .indet) = .error .indet := by
    simp only [inspected, List.mem_cons, List.not_mem_nil, or_false] at hk
    rcases hk with rfl | rfl | rfl | rfl | rfl | rfl | rfl <;> rfl
  intro hh
  obtain ⟨t, ht⟩ := hh.returns
  rw [hfault] at ht
  cases ht

/-! ### Headers with a packet -/

theorem handled_open {packet : AmqpOpen} :
    Handled c (.decoded HeaderCode.open.toByte doff type channel (.ref (.open packet))) :=
  (handled_of_ref (k := .open) rfl rfl (by decide)).2 (returns_ok _)

theorem handled_begin {packet : AmqpBegin} :
    Handled c (.decoded HeaderCode.begin.toByte doff type channel (.ref (.begin packet))) :=
  (handled_of_ref (k := .begin) rfl rfl (by decide)).2 (returns_ok _)

theorem handled_outcome {outcomeCode : Int} {data : Ptr (List UInt8)} :
    Handled c (.decoded HeaderCode.outcome.toByte doff type channel
      (.ref (.outcome ⟨.is outcomeCode, data⟩))) := by
  refine (handled_of_ref (k := .outcome) rfl rfl (by decide)).2 ?_
  show Returns (if outcomeCode = 0 then _ else _)
  split <;> exact returns_ok _

theorem handled_disposition {disposition : AmqpDisposition} :
    Handled c (.decoded HeaderCode.disposition.toByte doff type channel
      (.ref (.disposition disposition))) ↔ Returns disposition.first.deref := by
  refine (handled_of_ref (k := .disposition) rfl rfl (by decide)).trans ?_
  show Returns (do
    let first ← disposition.first.deref
    if c.mDeliveryId (mapKey first) = none then pure (c.afterRead _)
    else pure ((c.afterRead _).amqpRemoveMessageFromMapDeliveryId first)) ↔ _
  refine returns_bind_ok fun first => ?_
  split <;> exact returns_ok _

theorem handled_detach {detach : AmqpDetach} :
    Handled c (.decoded HeaderCode.detach.toByte doff type channel (.ref (.detach detach))) ↔
      Returns detach.handle.deref := by
  refine (handled_of_ref (k := .detach) rfl rfl (by decide)).trans ?_
  show Returns (detach.handle.deref >>= fun handle => _) ↔ _
  refine returns_bind_ok fun handle => ?_
  split <;> exact returns_ok _

/-- A waiting transfer that is found has its fields set. -/
theorem processReceiverAttach_returns (hc : Client.Inv c) (name : CString) :
    Returns (c.processReceiverAttach name) := by
  unfold Client.processReceiverAttach
  dsimp only
  split
  case isFalse => exact returns_ok c
  case isTrue =>
    split
    case h_2 => exact returns_ok c
    case h_1 message hm =>
      obtain ⟨_, content, qos, deliveryId, handle, rfl, -⟩ := hc.made _ _ hm
      rw [Client.castTransfer_transferHeader, ok_bind, Client.isSettled_transferPacket, ok_bind]
      split <;> exact returns_ok _

theorem handled_attach (hc : Client.Inv c) {attach : AmqpAttach} {role : RoleCode}
    (hrole : attach.role = .ref role) :
    Handled c (.decoded HeaderCode.attach.toByte doff type channel (.ref (.attach attach))) ↔
      AttachSet attach := by
  refine (handled_of_ref (k := .attach) rfl rfl (by decide)).trans ?_
  generalize hheader : AmqpHeader.decoded HeaderCode.attach.toByte doff type channel
    (.ref (.attach attach)) = header
  have heq : c.processAmqpRx header = (c.afterRead header).processAttach header := by
    rw [← hheader]
    rfl
  have hpacket : header.packet = .ref (.attach attach) := by
    rw [← hheader]
    rfl
  rw [heq, Client.processAttach, Client.castAttach_ref hpacket, ok_bind, hrole, Ptr.nonNull_ref,
    ok_bind, if_pos rfl, Ptr.deref_ref, ok_bind]
  cases role with
  | receiver =>
    have hread : Client.Inv (c.afterRead header) := (Client.sameLinks_afterRead header).inv hc
    refine (returns_bind_ok fun name => processReceiverAttach_returns hread name).trans ?_
    exact ⟨fun hname => ⟨⟨_, hrole⟩, hname, fun hs => by rw [hrole] at hs; cases hs⟩,
      AttachSet.name⟩
  | sender =>
    refine (returns_bind fun _ _ => returns_bind_ok fun _ => returns_ok _).trans ?_
    exact ⟨fun hr => ⟨⟨_, hrole⟩, hr.1, fun _ => hr.2⟩, fun hs => ⟨hs.name, hs.handle hrole⟩⟩

/-- The answer takes the account's name and password. -/
theorem sendAmqpSaslInit_returns {s : AmqpSymbol}
    (hp : header.packet = .ref (.mechanisms ⟨.ref (.symbol s)⟩)) :
    Returns (c.sendAmqpSaslInit header) ↔
      c.account.username ≠ none ∧ c.account.password ≠ none := by
  unfold Client.sendAmqpSaslInit castPacket
  rw [hp]
  cases c.account.username with
  | none => exact iff_of_false (not_returns_error _) fun hne => hne.1 rfl
  | some username =>
    cases c.account.password with
    | none => exact iff_of_false (not_returns_error _) fun hne => hne.2 rfl
    | some password => exact iff_of_true (returns_ok _) ⟨Option.some_ne_none _, Option.some_ne_none _⟩

theorem handled_mechanisms {m : SaslMechanisms} :
    Handled c (.decoded HeaderCode.mechanisms.toByte doff type channel (.ref (.mechanisms m))) ↔
      c.account.username ≠ none ∧ c.account.password ≠ none ∧ ∃ s, m = ⟨.ref (.symbol s)⟩ := by
  obtain ⟨mechanisms⟩ := m
  have heq : c.processAmqpRx (.decoded HeaderCode.mechanisms.toByte doff type channel
      (.ref (.mechanisms ⟨mechanisms⟩))) = (c.afterRead _).sendAmqpSaslInit (.decoded
        HeaderCode.mechanisms.toByte doff type channel (.ref (.mechanisms ⟨mechanisms⟩))) := rfl
  constructor
  · intro hh
    obtain ⟨u, hu⟩ := hh.mechanism _ rfl
    obtain rfl : mechanisms = .ref u := Ptr.deref_eq_ok.1 hu
    have hr := hh.returns
    rw [heq] at hr
    cases u with
    | symbol s =>
      obtain ⟨husername, hpassword⟩ := (sendAmqpSaslInit_returns rfl).1 hr
      exact ⟨husername, hpassword, s, rfl⟩
    | _ =>
      obtain ⟨t, ht⟩ := hr
      cases ht
  · rintro ⟨husername, hpassword, s, hs⟩
    cases hs
    refine ⟨?_, fun m hm => ?_, fun hindet => ?_⟩
    · rw [heq]
      exact (sendAmqpSaslInit_returns rfl).2 ⟨husername, hpassword⟩
    · cases hm
      exact returns_ok _
    · cases hindet

end Dispatch

end IotClient.Amqp
