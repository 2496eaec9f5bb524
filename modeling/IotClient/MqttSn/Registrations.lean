import IotClient.MqttSn.MessageIds

/-!
# PUBLISH after REGISTER

A call on a topic without an id keeps its PUBLISH back under an id `k` and sends a REGISTER with
the id `k + 1`. The two are linked only by these ids, in a map shared with all other requests.
`RegInv` says what stands under the ids of the messages on the wire; with it the first REGACK for
a REGISTER finds the PUBLISH of its call, and a later one finds nothing.
-/

namespace IotClient.MqttSn

open Mem Machine

/-- The PUBLISH that was sent. -/
def sentPublish : Traffic SnMessage → Option SnPublish
  | .sent message =>
    match message.packet with
    | .ref (.publish sp) => some sp
    | _ => none
  | _ => none

/-- A REGACK for the REGISTER with the id. -/
def Event.Acks (e : Event) (msgId : UInt16) : Prop :=
  match e with
  | .receive (.regack a) => a.messageId = msgId
  | _ => False

/-- The event removes the entry of the id, if it does anything. -/
def Event.Clears (e : Event) (k : UInt16) : Prop :=
  match e with
  | .receive (.regack a) => a.messageId - 1 = k ∨ a.messageId = k
  | .receive (.puback a) => a.messageId = k
  | .receive (.pubcomp a) => a.messageId = k
  | _ => False

namespace Client

/-- What the gateway of such a session acknowledges: no SUBSCRIBE or UNSUBSCRIBE, and a PUBREL
only once. -/
def Acknowledges (c : Client) (e : Event) : Prop :=
  Answers c e ∧
    match e with
    | .receive (.pubcomp a) => .received (GatewayPacket.pubcomp a).message ∉ c.wire
    | .receive (.suback _) | .receive (.unsuback _) => False
    | _ => True

/-- A PUBLISH that was kept back stands under its id until it leaves the map; a PUBLISH with
QoS 2 that was sent does until its PUBCOMP. -/
structure RegInv (c : Client) : Prop where
  wire : WireInv c
  queued : ∀ p k, .queued (publishMessage (Publication.packet p 0 k)) ∈ c.wire →
    c.messagesMap k = none ∨ c.messagesMap k = some (publishMessage (p.packet 0 k))
  held : ∀ snPublish, .sent (publishMessage snPublish) ∈ c.wire →
    snPublish.topic.qos = .is 2 →
    .received (GatewayPacket.pubcomp ⟨snPublish.messageId⟩).message ∉ c.wire →
    c.messagesMap snPublish.messageId = some (publishMessage snPublish)

variable {c t : Client} {e : Event} {p : Publication} {k r : UInt16} {v : Traffic SnMessage}

/-- What an event does in state `c`. -/
inductive Effect (c : Client) : Event → Client → Prop where
  | requested {e : Event} {message : SnMessage} (hkey : requestKey message = some c.nextId)
    (hexp : Explained c.wire (.sent message)) (hsent : sentPublish (.sent message) = none)
    (hreg : message.messageType ≠ .register)
    (he : (∀ p, e ≠ .sendMessage p) ∧ ∀ q, e ≠ .receive q) :
    Effect c e (c.afterRequest message)
  | published (p : Publication) (h : c.topicIdOf p.topicName ≠ 0) :
    Effect c (.sendMessage p)
      (c.countPacket.afterPublish (p.packet (c.topicIdOf p.topicName) c.nextId) p.qos)
  | kept (p : Publication) (h : c.topicIdOf p.topicName = 0) :
    Effect c (.sendMessage p) (c.afterKeep p)
  | flushed (a : SnRegAck) (p : Publication) (hcode : a.code = 0)
    (hq : .queued (publishMessage (p.packet 0 (a.messageId - 1))) ∈ c.wire)
    (h : c.messagesMap (a.messageId - 1) = some (publishMessage (p.packet 0 (a.messageId - 1)))) :
    Effect c (.receive (.regack a)) (c.afterRegack a p)
  | cleared (a : SnRegAck) (hcode : a.code ≠ 0) (h : c.messagesMap (a.messageId - 1) ≠ none) :
    Effect c (.receive (.regack a))
      ((c.afterRead (GatewayPacket.regack a).message).clearRegister a.messageId)
  | missed (a : SnRegAck) (h : c.messagesMap (a.messageId - 1) = none) :
    Effect c (.receive (.regack a)) (c.afterRead (GatewayPacket.regack a).message)
  | puback (a : SnPuback) (snPublish : SnPublish)
    (hsent : .sent (publishMessage snPublish) ∈ c.wire)
    (hid : snPublish.messageId = a.messageId) (hqos : snPublish.topic.qos = .is 1) :
    Effect c (.receive (.puback a))
      (c.afterRemove (GatewayPacket.puback a).message a.messageId)
  | pubcomp (a : SnPubcomp) (snPublish : SnPublish)
    (hsent : .sent (publishMessage snPublish) ∈ c.wire)
    (hid : snPublish.messageId = a.messageId) :
    Effect c (.receive (.pubcomp a))
      (c.afterRemove (GatewayPacket.pubcomp a).message a.messageId)
  | replied {q : GatewayPacket} {message : SnMessage} {c' : Client}
    (hmap : c'.messagesMap = c.messagesMap)
    (hcount : c'.currentPacketNumber = c.currentPacketNumber)
    (hwire : c'.wire = c.wire ++ [.received q.message]) (hkey : requestKey message = none)
    (hexp : Explained c.wire (.sent message)) (hq : ∀ a, q ≠ .regack a) :
    Effect c (.receive q) (c'.snEncodeAndFire message)

theorem step_effect (hc : RegInv c) (hack : Acknowledges c e) :
    ∃ t, step c e = .ok t ∧ Effect c e t := by
  cases e with
  | sendSubscribe topicName qos =>
    exact ⟨_, step_subscribe, .requested rfl trivial rfl nofun ⟨nofun, nofun⟩⟩
  | sendUnsubscribe topicName =>
    exact ⟨_, step_unsubscribe, .requested rfl ⟨c, topicName, rfl⟩ rfl nofun ⟨nofun, nofun⟩⟩
  | sendMessage p =>
    by_cases h : c.topicIdOf p.topicName = 0
    · exact ⟨_, step_keep h, .kept p h⟩
    · exact ⟨_, step_publish h, .published p h⟩
  | receive q =>
    cases q with
    | register topicId msgId topicName =>
      exact ⟨_, step_register, .replied rfl rfl rfl rfl trivial (by simp)⟩
    | regack a =>
      obtain ⟨topicName, hsent⟩ := hack.1
      obtain ⟨p, hq⟩ := hc.wire.explained _ hsent
      rcases hc.queued p _ hq with hnone | hsome
      · exact ⟨_, step_regack_none hnone, .missed a hnone⟩
      · by_cases hcode : a.code = 0
        · exact ⟨_, step_regack_accepted hcode hsome, .flushed a p hcode hq hsome⟩
        · exact ⟨_, step_regack_rejected hcode hsome, .cleared a hcode (by rw [hsome]; simp)⟩
    | puback a =>
      obtain ⟨snPublish, hsent, hid, hqos⟩ := hack.1
      exact ⟨_, step_puback, .puback a snPublish hsent hid hqos⟩
    | pubrec a =>
      obtain ⟨snPublish, hsent, hid, hqos⟩ := hack.1
      exact ⟨_, step_pubrec, .replied rfl rfl rfl rfl ⟨snPublish, hsent, hid, hqos⟩ (by simp)⟩
    | pubcomp a =>
      obtain ⟨snPublish, hsent, hid, hqos⟩ := hc.wire.explained _ hack.1
      have hid' : snPublish.messageId = a.messageId := hid
      have hheld := hc.held snPublish hsent hqos (by rw [hid']; exact hack.2)
      rw [hid'] at hheld
      refine ⟨_, step_pubcomp_some hheld, ?_⟩
      rw [hid']
      exact .pubcomp a snPublish hsent hid'
    | suback a => exact hack.2.elim
    | unsuback a => exact hack.2.elim

theorem effect_of_step (hc : RegInv c) (hack : Acknowledges c e) (ht : step c e = .ok t) :
    Effect c e t := by
  obtain ⟨u, hu, heff⟩ := step_effect hc hack
  obtain rfl : u = t := Except.ok.inj (hu.symm.trans ht)
  exact heff

/-! ### Ids -/

theorem nextId_sub : c.countPacket.nextId - 1 = c.nextId := by
  show UInt16.ofInt (c.currentPacketNumber + 1 + 1) - 1 = UInt16.ofInt (c.currentPacketNumber + 1)
  rw [UInt16.ofInt_add (c.currentPacketNumber + 1) 1, UInt16.ofInt_one, UInt16.add_sub_cancel]

theorem Effect.count_le (h : Effect c e t) : c.currentPacketNumber ≤ t.currentPacketNumber := by
  cases h with
  | requested | flushed => exact Int.le_of_lt (Int.lt_succ _)
  | published | kept => exact Int.le_trans (Int.le_of_lt (Int.lt_succ _)) (Int.le_of_lt (Int.lt_succ _))
  | cleared | missed | puback | pubcomp => exact Int.le_refl _
  | replied _ hcount => exact Int.le_of_eq hcount.symm

theorem Effect.wireInv (hc : RegInv c) (h : Effect c e t) (hlt : t.currentPacketNumber < 65535) :
    WireInv t := by
  cases h with
  | requested hkey hexp => exact hc.wire.snoc_next rfl rfl (by omega) hkey hexp
  | published p => exact hc.wire.countPacket.snoc_next rfl rfl (by omega) rfl trivial
  | kept p =>
    have hlt' : c.currentPacketNumber + 1 + 1 < 65535 := hlt
    have hqueue : WireInv { c.countPacket with wire := c.wire ++ [.queued (c.keptMessage p)] } :=
      hc.wire.snoc_next rfl rfl (by show c.currentPacketNumber + 1 < 65536; omega) rfl
        ⟨p, c.nextId, rfl⟩
    refine hqueue.snoc_next rfl rfl (by omega) rfl ⟨p, ?_⟩
    show .queued (publishMessage (p.packet 0 (c.countPacket.nextId - 1))) ∈
      c.wire ++ [.queued (c.keptMessage p)]
    rw [nextId_sub]
    simp [keptMessage]
  | flushed a p =>
    have hread : WireInv (c.afterRead (GatewayPacket.regack a).message) :=
      hc.wire.snoc_none rfl rfl rfl trivial
    exact hread.snoc_next rfl rfl (by omega) rfl trivial
  | cleared | missed | puback | pubcomp => exact hc.wire.snoc_none rfl rfl rfl trivial
  | replied _ hcount hwire hkey hexp =>
    have hread : WireInv _ := hc.wire.snoc_none hwire hcount rfl trivial
    refine hread.snoc_none rfl rfl hkey (hexp.mono fun u hu => ?_)
    rw [hwire]
    exact List.mem_append_left _ hu

/-! ### Entries -/

theorem WireInv.own_ne (h : WireInv c) {w : Traffic SnMessage} {l : UInt16} (hv : v ∈ c.wire)
    (hw : w ∈ c.wire) (hk : ownId v = some k) (hl : ownId w = some l) (hne : v ≠ w) : k ≠ l := by
  rintro rfl
  exact hne (h.ids.unique v hv w hw k hk hl)

/-- An entry under an id that was given out stays, unless the event is about it. -/
theorem Effect.get (hc : RegInv c) (h : Effect c e t) (hlt : t.currentPacketNumber < 65535)
    (hv : v ∈ c.wire) (hk : ownId v = some k) (hno : ¬ e.Clears k) :
    t.messagesMap k = c.messagesMap k := by
  have hle := h.count_le
  have hnext (hlt' : c.currentPacketNumber + 1 < 65536) : k ≠ c.nextId := by
    rintro rfl
    exact hc.wire.ne_next hlt' hv hk
  cases h with
  | requested =>
    have hlt' : c.currentPacketNumber + 1 < 65535 := hlt
    exact Table.set_of_ne (hnext (by omega))
  | published p =>
    have hlt' : c.currentPacketNumber + 1 + 1 < 65535 := hlt
    have hne : k ≠ c.countPacket.nextId := by
      rintro rfl
      exact hc.wire.countPacket.ne_next (by show c.currentPacketNumber + 1 + 1 < 65536; omega) hv hk
    show (if p.qos = 0 then c.messagesMap else c.messagesMap.set c.countPacket.nextId _) k = _
    split
    · rfl
    · exact Table.set_of_ne hne
  | kept p =>
    have hlt' : c.currentPacketNumber + 1 + 1 < 65535 := hlt
    exact (Table.set_of_ne (hc.wire.ids.given v hv k hk).1).trans (Table.set_of_ne (hnext (by omega)))
  | flushed a p =>
    have hlt' : c.currentPacketNumber + 1 < 65535 := hlt
    obtain ⟨h1, h2⟩ := not_or.1 hno
    refine (Table.erase_of_ne (Ne.symm h2)).trans ((Table.erase_of_ne (Ne.symm h1)).trans ?_)
    show (if p.qos = 0 then c.messagesMap else c.messagesMap.set c.nextId _) k = _
    split
    · rfl
    · exact Table.set_of_ne (hnext (by omega))
  | cleared a =>
    obtain ⟨h1, h2⟩ := not_or.1 hno
    exact (Table.erase_of_ne (Ne.symm h2)).trans (Table.erase_of_ne (Ne.symm h1))
  | missed => rfl
  | puback | pubcomp => exact Table.erase_of_ne (Ne.symm hno)
  | replied hmap => exact congrFun hmap k

/-- A REGACK leaves nothing under the id before. -/
theorem Effect.acked (h : Effect c e t) (hacks : e.Acks r) : t.messagesMap (r - 1) = none := by
  have herase (m : Table UInt16 SnMessage) : (m.erase (r - 1)).erase r (r - 1) = none := by
    rw [Table.erase_apply, Table.erase_self, ite_self]
  cases h with
  | requested _ _ _ _ he =>
    cases e with
    | receive q => exact absurd rfl (he.2 q)
    | _ => exact hacks.elim
  | flushed a =>
    obtain rfl : a.messageId = r := hacks
    exact herase _
  | cleared a =>
    obtain rfl : a.messageId = r := hacks
    exact herase _
  | missed a h =>
    obtain rfl : a.messageId = r := hacks
    exact h
  | @replied q _ _ _ _ _ _ _ hq =>
    cases q with
    | regack a => exact absurd rfl (hq a)
    | _ => exact hacks.elim
  | _ => exact hacks.elim

/-- Only the REGACK of its REGISTER is about a PUBLISH that is kept back. -/
theorem not_clears_queued (hc : RegInv c) (hack : Acknowledges c e)
    (hq : .queued (publishMessage (p.packet 0 k)) ∈ c.wire) (hno : ¬ e.Acks (k + 1)) :
    ¬ e.Clears k := by
  have hown (message : SnMessage) (hsent : .sent message ∈ c.wire) {l : UInt16}
      (hl : requestKey message = some l) : l ≠ k :=
    hc.wire.own_ne hsent hq (show ownId (.sent message) = some l from hl) rfl (by simp)
  intro hclears
  cases e with
  | receive q =>
    cases q with
    | regack a =>
      rcases hclears with h | h
      · refine hno ?_
        show a.messageId = k + 1
        rw [← h, UInt16.sub_add_cancel]
      · obtain ⟨topicName, hsent⟩ := hack.1
        exact hown _ hsent rfl h
    | puback a =>
      obtain ⟨snPublish, hsent, hid, -⟩ := hack.1
      exact hown _ hsent rfl (hid.trans hclears)
    | pubcomp a =>
      obtain ⟨snPublish, hsent, hid, -⟩ := hc.wire.explained _ hack.1
      exact hown _ hsent rfl (hid.trans hclears)
    | _ => exact hclears
  | _ => exact hclears

theorem Effect.get_queued (hc : RegInv c) (hack : Acknowledges c e) (h : Effect c e t)
    (hlt : t.currentPacketNumber < 65535)
    (hq : .queued (publishMessage (p.packet 0 k)) ∈ c.wire) (hno : ¬ e.Acks (k + 1)) :
    t.messagesMap k = c.messagesMap k :=
  h.get hc hlt hq rfl (not_clears_queued hc hack hq hno)

theorem Effect.received {q : GatewayPacket} (h : Effect c (.receive q) t) :
    .received q.message ∈ t.wire := by
  cases h with
  | requested _ _ _ _ he => exact absurd rfl (he.2 q)
  | flushed a p =>
    show _ ∈ c.wire ++ [.received (GatewayPacket.regack a).message] ++ [_]
    simp
  | cleared | missed | puback | pubcomp => exact List.mem_append_right _ (List.mem_singleton.2 rfl)
  | replied _ _ hwire =>
    refine List.mem_append_left _ ?_
    rw [hwire]
    simp

/-- Only its PUBCOMP is about a PUBLISH with QoS 2. -/
theorem not_clears_held (hc : RegInv c) (hack : Acknowledges c e) (h : Effect c e t)
    {snPublish : SnPublish} (hsent : .sent (publishMessage snPublish) ∈ c.wire)
    (hqos : snPublish.topic.qos = .is 2)
    (hnot : .received (GatewayPacket.pubcomp ⟨snPublish.messageId⟩).message ∉ t.wire) :
    ¬ e.Clears snPublish.messageId := by
  intro hclears
  cases e with
  | receive q =>
    cases q with
    | regack a =>
      obtain ⟨topicName, hreg⟩ := hack.1
      rcases hclears with h | h
      · obtain ⟨p, hq⟩ := hc.wire.explained _ hreg
        exact hc.wire.own_ne hq hsent rfl rfl (by simp) h
      · exact hc.wire.own_ne hreg hsent rfl rfl (by simp [registerMessage, publishMessage]) h
    | puback a =>
      obtain ⟨sp, hsp, hid, hqos1⟩ := hack.1
      refine hc.wire.own_ne hsp hsent rfl rfl ?_ (hid.trans hclears)
      rintro heq
      obtain rfl : sp = snPublish := by simpa [publishMessage] using heq
      rw [hqos] at hqos1
      exact absurd hqos1 (by decide)
    | pubcomp a =>
      have hid : a.messageId = snPublish.messageId := hclears
      exact hnot (hid ▸ h.received)
    | _ => exact hclears
  | _ => exact hclears

/-! ### What a step adds -/

/-- Only a call on a topic without an id keeps a PUBLISH back. -/
theorem Effect.queued_mem (h : Effect c e t) {message : SnMessage}
    (hm : .queued message ∈ t.wire) :
    .queued message ∈ c.wire ∨ ∃ p, t = c.afterKeep p ∧ message = c.keptMessage p := by
  cases h with
  | requested | published | cleared | missed | puback | pubcomp =>
    exact .inl ((mem_snoc.mp hm).resolve_right (by simp))
  | kept p =>
    have hm' := (mem_snoc.mp hm).resolve_right (by simp)
    exact (mem_snoc.mp hm').imp_right fun heq => ⟨p, rfl, Traffic.queued.inj heq⟩
  | flushed =>
    have hm' := (mem_snoc.mp hm).resolve_right (by simp)
    exact .inl ((mem_snoc.mp hm').resolve_right (by simp))
  | replied _ _ hwire =>
    have hm' := (mem_snoc.mp hm).resolve_right (by simp)
    rw [hwire] at hm'
    exact .inl ((mem_snoc.mp hm').resolve_right (by simp))

/-- A PUBLISH that was sent now is stored, unless its QoS is 0. -/
theorem Effect.publish_mem (hc : RegInv c) (hack : Acknowledges c e) (h : Effect c e t)
    (hlt : t.currentPacketNumber < 65535) {snPublish : SnPublish}
    (hm : .sent (publishMessage snPublish) ∈ t.wire) :
    .sent (publishMessage snPublish) ∈ c.wire ∨ (snPublish.topic.qos ≠ .is 0 →
      t.messagesMap snPublish.messageId = some (publishMessage snPublish)) := by
  have hstored {c' : Client} {sp : SnPublish} {qos : Nat} (hqos : sp.topic.qos = .is qos)
      (heq : publishMessage snPublish = publishMessage { sp with messageId := c'.nextId })
      (hne : snPublish.topic.qos ≠ .is 0) :
      (c'.afterPublish sp qos).messagesMap snPublish.messageId =
        some (publishMessage snPublish) := by
    obtain rfl : snPublish = { sp with messageId := c'.nextId } := by
      simpa [publishMessage] using heq
    have hq : qos ≠ 0 := by
      rintro rfl
      exact hne hqos
    unfold afterPublish
    rw [if_neg hq]
    exact Table.set_self ..
  cases h with
  | requested _ _ hsent =>
    rcases mem_snoc.mp hm with hm | heq
    · exact .inl hm
    · rw [← heq] at hsent
      cases hsent
  | published p => exact (mem_snoc.mp hm).imp_right fun heq => hstored rfl (Traffic.sent.inj heq)
  | kept p =>
    rcases mem_snoc.mp hm with hm | heq
    · exact .inl ((mem_snoc.mp hm).resolve_right (by simp))
    · exact absurd (Traffic.sent.inj heq) (by simp [publishMessage, registerMessage])
  | flushed a p hcode hq =>
    have hlt' : c.currentPacketNumber + 1 < 65535 := hlt
    rcases mem_snoc.mp hm with hm | heq
    · exact .inl ((mem_snoc.mp hm).resolve_right (by simp))
    · right
      intro hne
      obtain ⟨topicName, hreg⟩ := hack.1
      have hid : snPublish.messageId = c.nextId := by
        have := Traffic.sent.inj heq
        simp only [publishMessage, SnMessage.mk.injEq, Ptr.ref.injEq, SnPacket.publish.injEq,
          true_and] at this
        rw [this]
        rfl
      have h1 : snPublish.messageId ≠ a.messageId - 1 := by
        rw [hid]
        exact fun h => hc.wire.ne_next (by omega) hq (congrArg some h.symm)
      have h2 : snPublish.messageId ≠ a.messageId := by
        rw [hid]
        exact fun h => hc.wire.ne_next (by omega) hreg (congrArg some h.symm)
      refine (Table.erase_of_ne h2).trans ((Table.erase_of_ne h1).trans ?_)
      exact hstored rfl (Traffic.sent.inj heq) hne
  | cleared | missed | puback | pubcomp => exact .inl ((mem_snoc.mp hm).resolve_right (by simp))
  | replied _ _ hwire hkey =>
    rcases mem_snoc.mp hm with hm | heq
    · rw [hwire] at hm
      exact .inl ((mem_snoc.mp hm).resolve_right (by simp))
    · rw [← Traffic.sent.inj heq] at hkey
      cases hkey

theorem Effect.wire_append (h : Effect c e t) : ∀ w ∈ c.wire, w ∈ t.wire := by
  intro w hw
  cases h with
  | requested | published | cleared | missed | puback | pubcomp => exact List.mem_append_left _ hw
  | kept | flushed => exact List.mem_append_left _ (List.mem_append_left _ hw)
  | replied _ _ hwire =>
    refine List.mem_append_left _ ?_
    rw [hwire]
    exact List.mem_append_left _ hw

theorem Effect.regInv (hc : RegInv c) (hack : Acknowledges c e) (h : Effect c e t)
    (hlt : t.currentPacketNumber < 65535) : RegInv t := by
  refine ⟨h.wireInv hc hlt, fun p k hm => ?_, fun snPublish hm hqos hnot => ?_⟩
  · rcases h.queued_mem hm with hq | ⟨p', rfl, hp⟩
    · by_cases hacks : e.Acks (k + 1)
      · left
        have hnone := h.acked hacks
        rwa [UInt16.add_sub_cancel] at hnone
      · rw [h.get_queued hc hack hlt hq hacks]
        exact hc.queued p k hq
    · right
      have hlt' : c.currentPacketNumber + 1 + 1 < 65535 := hlt
      obtain ⟨rfl, rfl⟩ : p = p' ∧ k = c.nextId := by
        obtain ⟨content, topicName, qos, retain, dup⟩ := p
        obtain ⟨content', topicName', qos', retain', dup'⟩ := p'
        simp_all [keptMessage, publishMessage, Publication.packet]
      have hw := h.wireInv hc hlt
      have hne : c.nextId ≠ 0 := (hw.ids.given _ hm _ rfl).1
      exact (Table.set_of_ne hne).trans (Table.set_self ..)
  · rcases h.publish_mem hc hack hlt hm with hsent | hnew
    · rw [h.get hc hlt hsent rfl (not_clears_held hc hack h hsent hqos hnot)]
      exact hc.held snPublish hsent hqos fun hrec => hnot (h.wire_append _ hrec)
    · exact hnew (by rw [hqos]; decide)

/-! ### The life of a registration -/

/-- The call `p` sent the REGISTER with the id, and no REGACK for it has come since. -/
def Registering (c : Client) (es : List Event) (r : UInt16) (p : Publication) : Prop :=
  ∃ pre mid s, es = pre ++ .sendMessage p :: mid ∧ run step c pre = .ok s ∧
    s.topicIdOf p.topicName = 0 ∧ r = s.countPacket.nextId ∧ ∀ e ∈ mid, ¬ e.Acks r

/-- The PUBLISH of the call `p` waits for the REGACK. -/
def Waiting (c : Client) (r : UInt16) (p : Publication) : Prop :=
  .queued (publishMessage (p.packet 0 (r - 1))) ∈ c.wire ∧
    c.messagesMap (r - 1) = some (publishMessage (p.packet 0 (r - 1)))

/-- The PUBLISH of the REGISTER has left the map. -/
def Done (c : Client) (r : UInt16) : Prop :=
  (∃ p, .queued (publishMessage (Publication.packet p 0 (r - 1))) ∈ c.wire) ∧
    c.messagesMap (r - 1) = none

theorem Effect.waiting (hc : RegInv c) (hack : Acknowledges c e) (h : Effect c e t)
    (hlt : t.currentPacketNumber < 65535) (hw : Waiting c r p) (hno : ¬ e.Acks r) :
    Waiting t r p := by
  obtain ⟨hq, hm⟩ := hw
  refine ⟨h.wire_append _ hq, ?_⟩
  rw [h.get_queued hc hack hlt hq (by rwa [UInt16.sub_add_cancel])]
  exact hm

theorem Effect.done (hc : RegInv c) (hack : Acknowledges c e) (h : Effect c e t)
    (hlt : t.currentPacketNumber < 65535) (hd : Done c r) : Done t r := by
  obtain ⟨⟨p, hq⟩, hm⟩ := hd
  refine ⟨⟨p, h.wire_append _ hq⟩, ?_⟩
  by_cases hacks : e.Acks r
  · exact h.acked hacks
  · rw [h.get_queued hc hack hlt hq (by rwa [UInt16.sub_add_cancel])]
    exact hm

theorem waiting_keep (h : WireInv (c.afterKeep p)) :
    Waiting (c.afterKeep p) c.countPacket.nextId p := by
  have hq : .queued (c.keptMessage p) ∈ (c.afterKeep p).wire :=
    List.mem_append_left _ (List.mem_append_right _ (List.mem_singleton.2 rfl))
  unfold Waiting
  rw [nextId_sub]
  exact ⟨hq, (Table.set_of_ne (h.ids.given _ hq _ rfl).1).trans (Table.set_self ..)⟩

theorem Effect.register_mem (h : Effect c e t) {topicName : CString}
    (hm : .sent (registerMessage topicName r) ∈ t.wire) :
    .sent (registerMessage topicName r) ∈ c.wire ∨
      ∃ p, e = .sendMessage p ∧ c.topicIdOf p.topicName = 0 ∧ r = c.countPacket.nextId := by
  cases h with
  | requested _ _ _ hreg =>
    rcases mem_snoc.mp hm with hm | heq
    · exact .inl hm
    · rw [← Traffic.sent.inj heq] at hreg
      exact absurd rfl hreg
  | published p =>
    exact .inl ((mem_snoc.mp hm).resolve_right (by simp [publishMessage, registerMessage]))
  | kept p h0 =>
    rcases mem_snoc.mp hm with hm | heq
    · exact .inl ((mem_snoc.mp hm).resolve_right (by simp))
    · refine .inr ⟨p, rfl, h0, ?_⟩
      have hmsg := Traffic.sent.inj heq
      simp only [registerMessage, SnMessage.mk.injEq, Ptr.ref.injEq, SnPacket.register.injEq,
        SnRegister.mk.injEq] at hmsg
      exact hmsg.2.2.1
  | flushed =>
    have hm' := (mem_snoc.mp hm).resolve_right (by simp [publishMessage, registerMessage])
    exact .inl ((mem_snoc.mp hm').resolve_right (by simp))
  | cleared | missed | puback | pubcomp => exact .inl ((mem_snoc.mp hm).resolve_right (by simp))
  | replied _ _ hwire hkey =>
    rcases mem_snoc.mp hm with hm | heq
    · rw [hwire] at hm
      exact .inl ((mem_snoc.mp hm).resolve_right (by simp))
    · rw [← Traffic.sent.inj heq] at hkey
      cases hkey

/-! ### Runs -/

variable {s : Client} {es : List Event}

/-- Few ids, and a gateway that acknowledges only what it should. -/
def Regular (c : Client) (e : Event) : Prop := FewIds c e ∧ Acknowledges c e

theorem step_regInv (hc : RegInv c) (hreg : Regular c e) : ∃ t, step c e = .ok t ∧ RegInv t := by
  obtain ⟨t, ht, heff⟩ := step_effect hc hreg.2
  exact ⟨t, ht, heff.regInv hc hreg.2 (hreg.1 t ht)⟩

theorem Fresh.regInv (h : Fresh c) : RegInv c := by
  have hw := h.wire
  exact ⟨h.wireInv, by rw [hw]; simp, by rw [hw]; simp⟩

theorem reach_regInv (hc : Fresh c) {post : List Event} (hreg : Each step Regular c (es ++ post)) :
    ∃ s, run step c es = .ok s ∧ RegInv s :=
  always_of_each (fun _ _ hi hr => step_regInv hi hr) hc.regInv hreg es (List.prefix_append es post)

theorem regInv_of_run (hc : Fresh c) (hreg : Each step Regular c es) (hs : run step c es = .ok s) :
    RegInv s := by
  rw [← List.append_nil es] at hreg
  obtain ⟨u, hu, hinv⟩ := reach_regInv hc hreg
  obtain rfl : u = s := Except.ok.inj (hu.symm.trans hs)
  exact hinv

theorem run_waiting (hc : RegInv c) (hw : Waiting c r p) (hreg : Each step Regular c es)
    (hs : run step c es = .ok s) (hno : ∀ e ∈ es, ¬ e.Acks r) : Waiting s r p := by
  refine (run_keeps (P := fun c => RegInv c ∧ Waiting c r p) ?_ ⟨hc, hw⟩ hreg hs).2
  rintro c e t he ⟨hi, hw⟩ ⟨hfew, hack⟩ ht
  have heff := effect_of_step hi hack ht
  exact ⟨heff.regInv hi hack (hfew t ht), heff.waiting hi hack (hfew t ht) hw (hno e he)⟩

theorem Registering.waiting (hc : Fresh c) (hreg : Each step Regular c es)
    (hs : run step c es = .ok s) (h : Registering c es r p) : Waiting s r p := by
  obtain ⟨pre, mid, u, rfl, hu, h0, rfl, hmid⟩ := h
  have hinv := regInv_of_run hc hreg.left hu
  have hkeep := step_keep (p := p) h0
  obtain ⟨hreg1, hreg2⟩ := each_cons.1 (hreg.right hu)
  have heff := effect_of_step hinv hreg1.2 hkeep
  have hinv' := heff.regInv hinv hreg1.2 (hreg1.1 _ hkeep)
  rw [run_append hu, run_cons hkeep] at hs
  exact run_waiting hinv' (waiting_keep hinv'.wire) (hreg2 _ hkeep) hs hmid

theorem Registering.snoc (h : Registering c es r p) (hno : ¬ e.Acks r) :
    Registering c (es ++ [e]) r p := by
  obtain ⟨pre, mid, u, rfl, hu, h0, hr, hmid⟩ := h
  refine ⟨pre, mid ++ [e], u, by simp, hu, h0, hr, fun d hd => ?_⟩
  rw [mem_snoc] at hd
  rcases hd with hd | rfl
  · exact hmid d hd
  · exact hno

/-- The REGISTER of a call waits for its REGACK, or is done with. -/
theorem register_cases (hc : Fresh c) (hreg : Each step Regular c es)
    (hs : run step c es = .ok s) {topicName : CString}
    (hr : .sent (registerMessage topicName r) ∈ s.wire) :
    (∃ p, Registering c es r p) ∨ Done s r := by
  induction es using List.reverseRecOn generalizing s with
  | nil =>
    cases hs
    rw [hc.wire] at hr
    cases hr
  | append_singleton es e ih =>
    obtain ⟨u, hu, hs⟩ := run_append_eq_ok.1 hs
    obtain ⟨t, ht, hs'⟩ := run_cons_eq_ok.1 hs
    cases hs'
    have hinv := regInv_of_run hc hreg.left hu
    obtain ⟨hfew, hack⟩ := hreg es e u (List.prefix_refl _) hu
    have hlt := hfew s ht
    have heff := effect_of_step hinv hack ht
    rcases heff.register_mem hr with hr | ⟨p, rfl, h0, rfl⟩
    · rcases ih hreg.left hu hr with ⟨p, hp⟩ | hd
      · by_cases hacks : e.Acks r
        · right
          have hq := (hp.waiting hc hreg.left hu).1
          exact ⟨⟨p, heff.wire_append _ hq⟩, heff.acked hacks⟩
        · exact .inl ⟨p, hp.snoc hacks⟩
      · exact .inr (heff.done hinv hack hlt hd)
    · exact .inl ⟨p, es, [], u, rfl, hu, h0, rfl, by simp⟩

/-! ### What is sent -/

/-- A REGACK that the PUBLISH of a call waits for. -/
theorem regack_waiting {a : SnRegAck} (hcode : a.code = 0) (hw : Waiting s a.messageId p) :
    ∃ t, step s (.receive (.regack a)) = .ok t ∧
      t.wire = s.wire ++ [.received (GatewayPacket.regack a).message,
        .sent (publishMessage (p.packet a.topicId s.nextId))] := by
  refine ⟨_, step_regack_accepted hcode hw.2, ?_⟩
  show s.wire ++ [_] ++ [_] = _
  rw [List.append_assoc]
  rfl

/-- Any other REGACK sends nothing. -/
theorem regack_nothing (hi : RegInv s) {a : SnRegAck}
    (hack : Acknowledges s (.receive (.regack a)))
    (h : a.code = 0 → s.messagesMap (a.messageId - 1) = none) :
    ∃ t, step s (.receive (.regack a)) = .ok t ∧
      t.wire = s.wire ++ [.received (GatewayPacket.regack a).message] := by
  obtain ⟨t, ht, heff⟩ := step_effect hi hack
  refine ⟨t, ht, ?_⟩
  cases heff with
  | requested _ _ _ _ he => exact absurd rfl (he.2 _)
  | flushed _ _ hcode _ hm =>
    rw [h hcode] at hm
    cases hm
  | cleared | missed => rfl
  | replied _ _ _ _ _ hq => exact absurd rfl (hq a)

theorem regack_wire (hc : Fresh c) {a : SnRegAck} {post : List Event}
    (hreg : Each step Regular c (es ++ .receive (.regack a) :: post)) :
    ∃ s t, run step c es = .ok s ∧ step s (.receive (.regack a)) = .ok t ∧
      (∀ p, a.code = 0 → Registering c es a.messageId p →
        t.wire = s.wire ++ [.received (GatewayPacket.regack a).message,
          .sent (publishMessage (p.packet a.topicId s.nextId))]) ∧
      ((a.code = 0 → ∀ p, ¬ Registering c es a.messageId p) →
        t.wire = s.wire ++ [.received (GatewayPacket.regack a).message]) := by
  obtain ⟨s, hs, hi⟩ := reach_regInv hc hreg
  obtain ⟨-, hack⟩ := hreg es (.receive (.regack a)) s (by simp) hs
  have hwaiting (p : Publication) (hp : Registering c es a.messageId p) :
      Waiting s a.messageId p := hp.waiting hc hreg.left hs
  by_cases hfire : a.code = 0 ∧ ∃ p, Registering c es a.messageId p
  · obtain ⟨hcode, p, hp⟩ := hfire
    obtain ⟨t, ht, hwire⟩ := regack_waiting hcode (hwaiting p hp)
    refine ⟨s, t, hs, ht, fun p' _ hp' => ?_, fun hno => absurd hp (hno hcode p)⟩
    obtain ⟨t', ht', hwire'⟩ := regack_waiting hcode (hwaiting p' hp')
    obtain rfl := Except.ok.inj (ht.symm.trans ht')
    exact hwire'
  · have hno (hcode : a.code = 0) (p : Publication) : ¬ Registering c es a.messageId p :=
      fun hp => hfire ⟨hcode, p, hp⟩
    have hnone (hcode : a.code = 0) : s.messagesMap (a.messageId - 1) = none := by
      obtain ⟨topicName, hsent⟩ := hack.1
      rcases register_cases hc hreg.left hs hsent with ⟨p, hp⟩ | hd
      · exact absurd hp (hno hcode p)
      · exact hd.2
    obtain ⟨t, ht, hwire⟩ := regack_nothing hi hack hnone
    exact ⟨s, t, hs, ht, fun p hcode hp => absurd hp (hno hcode p), fun _ => hwire⟩

theorem sendMessage_wire (s : Client) (p : Publication) :
    ∃ t, step s (.sendMessage p) = .ok t ∧
      (s.topicIdOf p.topicName = 0 → t.wire = s.wire ++ [.queued (s.keptMessage p),
        .sent (registerMessage p.topicName s.countPacket.nextId)]) ∧
      (s.topicIdOf p.topicName ≠ 0 → t.wire = s.wire ++ [.sent (publishMessage
        (p.packet (s.topicIdOf p.topicName) s.countPacket.nextId))]) := by
  by_cases h : s.topicIdOf p.topicName = 0
  · refine ⟨_, step_keep h, fun _ => ?_, fun h' => absurd h h'⟩
    show s.wire ++ [_] ++ [_] = _
    rw [List.append_assoc]
    rfl
  · exact ⟨_, step_publish h, fun h' => absurd h' h, fun _ => rfl⟩

theorem Effect.other_wire (h : Effect c e t) (hm : ∀ p, e ≠ .sendMessage p)
    (hr : ∀ a, e ≠ .receive (.regack a)) :
    ∃ ws, t.wire = c.wire ++ ws ∧ ∀ w ∈ ws, sentPublish w = none := by
  have hone {w : Traffic SnMessage} (hw : sentPublish w = none) :
      ∀ v ∈ [w], sentPublish v = none := by
    intro v hv
    rwa [List.mem_singleton.1 hv]
  cases h with
  | requested _ _ hsent => exact ⟨_, rfl, hone hsent⟩
  | published p => exact absurd rfl (hm p)
  | kept p => exact absurd rfl (hm p)
  | flushed a => exact absurd rfl (hr a)
  | cleared a => exact absurd rfl (hr a)
  | missed a => exact absurd rfl (hr a)
  | puback | pubcomp => exact ⟨_, rfl, hone rfl⟩
  | @replied q message c' _ _ hwire hkey =>
    refine ⟨[.received q.message, .sent message], ?_, ?_⟩
    · show c'.wire ++ [_] = _
      rw [hwire, List.append_assoc]
      rfl
    · obtain ⟨type, packet⟩ := message
      intro w hw
      simp only [List.mem_cons, List.not_mem_nil, or_false] at hw
      rcases hw with rfl | rfl
      · rfl
      · cases packet with
        | ref packet => cases packet <;> first | rfl | cases hkey
        | _ => rfl

theorem sendMessage_count (h : step c (.sendMessage p) = .ok t) :
    t.currentPacketNumber = c.currentPacketNumber + 1 + 1 := by
  by_cases h0 : c.topicIdOf p.topicName = 0
  · obtain rfl := Except.ok.inj ((step_keep h0).symm.trans h)
    rfl
  · obtain rfl := Except.ok.inj ((step_publish h0).symm.trans h)
    rfl

theorem run_count_le (hc : RegInv c) (hreg : Each step Regular c es)
    (hs : run step c es = .ok s) : c.currentPacketNumber ≤ s.currentPacketNumber := by
  refine (run_keeps (P := fun d => RegInv d ∧ c.currentPacketNumber ≤ d.currentPacketNumber)
    ?_ ⟨hc, Int.le_refl _⟩ hreg hs).2
  rintro d e t - ⟨hi, hle⟩ ⟨hfew, hack⟩ ht
  have heff := effect_of_step hi hack ht
  exact ⟨heff.regInv hi hack (hfew t ht), hle.trans heff.count_le⟩

/-- Two calls do not give the same id to their REGISTERs. -/
theorem register_ids_ne (hc : Fresh c) {pre mid post : List Event} {p p' : Publication}
    (hreg : Each step Regular c (pre ++ .sendMessage p :: (mid ++ .sendMessage p' :: post))) :
    ∃ s s', run step c pre = .ok s ∧ run step c (pre ++ .sendMessage p :: mid) = .ok s' ∧
      s.countPacket.nextId ≠ s'.countPacket.nextId := by
  obtain ⟨s, hs, hi⟩ := reach_regInv hc hreg
  obtain ⟨hreg1, hreg2⟩ := each_cons.1 (hreg.right hs)
  obtain ⟨u, hu, hiu⟩ := step_regInv hi hreg1
  obtain ⟨s', hs', hi'⟩ := always_of_each (fun _ _ hi hr => step_regInv hi hr) hiu (hreg2 u hu) mid
    (List.prefix_append _ _)
  refine ⟨s, s', hs, by rw [run_append hs, run_cons hu, hs'], ?_⟩
  obtain ⟨t, ht, -⟩ := sendMessage_wire s' p'
  have hlt := ((each_cons.1 ((hreg2 u hu).right hs')).1).1 t ht
  have hle := run_count_le hiu (hreg2 u hu).left hs'
  have hu' := sendMessage_count hu
  have ht' := sendMessage_count ht
  have h0 := hi.wire.ids.nonneg
  have hn := short_toNat_ofInt (n := s.currentPacketNumber + 1 + 1) (by omega) (by omega)
  have hn' := short_toNat_ofInt (n := s'.currentPacketNumber + 1 + 1) (by omega) (by omega)
  intro heq
  have heq' : UInt16.ofInt (s.currentPacketNumber + 1 + 1) =
    UInt16.ofInt (s'.currentPacketNumber + 1 + 1) := heq
  rw [heq'] at hn
  omega

/-- What the steps of a session send: a call on a topic without an id keeps its PUBLISH back and
sends a REGISTER, with an id of its own; a REGACK sends the PUBLISH of the call if and only if
it is the first for the REGISTER, and accepted; other packets and calls send no PUBLISH. -/
theorem registered_fired_once (hc : Fresh c) (es : List Event) (hfew : Each step FewIds c es)
    (hack : Each step Acknowledges c es) :
    (∀ pre p mid p' post, es = pre ++ .sendMessage p :: (mid ++ .sendMessage p' :: post) →
      ∃ s s', run step c pre = .ok s ∧ run step c (pre ++ .sendMessage p :: mid) = .ok s' ∧
        s.countPacket.nextId ≠ s'.countPacket.nextId) ∧
    (∀ pre p post, es = pre ++ .sendMessage p :: post →
      ∃ s t, run step c pre = .ok s ∧ step s (.sendMessage p) = .ok t ∧
        (s.topicIdOf p.topicName = 0 → t.wire = s.wire ++ [.queued (s.keptMessage p),
          .sent (registerMessage p.topicName s.countPacket.nextId)]) ∧
        (s.topicIdOf p.topicName ≠ 0 → t.wire = s.wire ++ [.sent (publishMessage
          (p.packet (s.topicIdOf p.topicName) s.countPacket.nextId))])) ∧
    (∀ pre a post, es = pre ++ .receive (.regack a) :: post →
      ∃ s t, run step c pre = .ok s ∧ step s (.receive (.regack a)) = .ok t ∧
        (∀ p, a.code = 0 → Registering c pre a.messageId p →
          t.wire = s.wire ++ [.received (GatewayPacket.regack a).message,
            .sent (publishMessage (p.packet a.topicId s.nextId))]) ∧
        ((a.code = 0 → ∀ p, ¬ Registering c pre a.messageId p) →
          t.wire = s.wire ++ [.received (GatewayPacket.regack a).message])) ∧
    (∀ pre e post, es = pre ++ e :: post → (∀ p, e ≠ .sendMessage p) →
      (∀ a, e ≠ .receive (.regack a)) →
      ∃ s t ws, run step c pre = .ok s ∧ step s e = .ok t ∧ t.wire = s.wire ++ ws ∧
        ∀ w ∈ ws, sentPublish w = none) := by
  have hreg : Each step Regular c es := hfew.and hack
  refine ⟨?_, ?_, ?_, ?_⟩
  · rintro pre p mid p' post rfl
    exact register_ids_ne hc hreg
  · rintro pre p post rfl
    obtain ⟨s, hs, -⟩ := reach_regInv hc hreg
    obtain ⟨t, ht, hwire⟩ := sendMessage_wire s p
    exact ⟨s, t, hs, ht, hwire⟩
  · rintro pre a post rfl
    exact regack_wire hc hreg
  · rintro pre e post rfl hm hr
    obtain ⟨s, hs, hi⟩ := reach_regInv hc hreg
    obtain ⟨t, ht, heff⟩ := step_effect hi (hreg pre e s (by simp) hs).2
    obtain ⟨ws, hwire, hnone⟩ := heff.other_wire hm hr
    exact ⟨s, t, ws, hs, ht, hwire, hnone⟩

/-- A message on the topic `t`, whose REGISTER the gateway accepts. -/
def registerRun : List Event :=
  [.sendMessage ⟨.ofBytes [0x31], .ofBytes [0x74], 1, 0, 0⟩, .receive (.regack ⟨5, 2, 0⟩)]

/-- The PUBLISH goes out with the REGACK, with topic id 5 and message id 3. -/
theorem registered_fired_once_registerRun :
    Each step FewIds (init .anonymous) registerRun ∧
      Each step Acknowledges (init .anonymous) registerRun ∧
      ∃ s t, run step (init .anonymous) (registerRun.take 1) = .ok s ∧
        run step s (registerRun.drop 1) = .ok t ∧
        t.wire = s.wire ++ [.received (GatewayPacket.regack ⟨5, 2, 0⟩).message,
          .sent (publishMessage (Publication.packet
            ⟨.ofBytes [0x31], .ofBytes [0x74], 1, 0, 0⟩ 5 3))] := by
  have hfew : Each step FewIds (init .anonymous) registerRun := by decide
  have hack : Each step Acknowledges (init .anonymous) registerRun := by
    refine each_cons.2 ⟨⟨trivial, trivial⟩, ?_⟩
    rintro _ ⟨⟩
    refine each_cons.2 ⟨⟨⟨_, List.mem_append_right _ (List.mem_singleton.2 rfl)⟩, trivial⟩, ?_⟩
    exact fun _ _ => each_nil
  obtain ⟨-, -, h, -⟩ := registered_fired_once (fresh_init .anonymous) registerRun hfew hack
  obtain ⟨s, t, hs, ht, hfire, -⟩ := h (registerRun.take 1) ⟨5, 2, 0⟩ [] rfl
  have hwire := hfire ⟨.ofBytes [0x31], .ofBytes [0x74], 1, 0, 0⟩ rfl
    ⟨[], [], init .anonymous, rfl, rfl, rfl, rfl, by simp⟩
  cases hs
  exact ⟨hfew, hack, _, t, rfl, (run_cons ht).trans rfl, hwire⟩

end Client

end IotClient.MqttSn
