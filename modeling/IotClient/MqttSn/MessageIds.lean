import IotClient.MqttSn.Session

/-!
# Message ids

A request carries the message id its acknowledgement will carry. `Ids wire count` says that the
requests of `wire`, those kept back included, have different ids, from 1 to `count`; a session
that allocates fewer than 65535 ids keeps it. `Answers` says what a gateway acknowledges.
-/

namespace IotClient.MqttSn

open Mem Machine

/-- The message id of a request. -/
def requestKey (message : SnMessage) : Option UInt16 :=
  match message.packet with
  | .ref (.subscribe s) => some s.messageId
  | .ref (.unsubscribe us) => some us.messageId
  | .ref (.register r) => some r.msgId
  | .ref (.publish sp) => some sp.messageId
  | _ => none

/-- The message id of a request that was sent or kept back. -/
def ownId : Traffic SnMessage → Option UInt16
  | .sent message => requestKey message
  | .queued message => requestKey message
  | .received _ => none

structure Ids (wire : List (Traffic SnMessage)) (count : Int) : Prop where
  nonneg : 0 ≤ count
  given : ∀ w ∈ wire, ∀ k, ownId w = some k → k ≠ 0 ∧ (k.toNat : Int) ≤ count
  unique : ∀ v ∈ wire, ∀ w ∈ wire, ∀ k, ownId v = some k → ownId w = some k → v = w

variable {wire : List (Traffic SnMessage)} {count count' : Int} {w : Traffic SnMessage}
  {k : UInt16}

theorem ids_nil (h : 0 ≤ count) : Ids [] count := ⟨h, by simp, by simp⟩

theorem Ids.mono (h : Ids wire count) (hle : count ≤ count') : Ids wire count' := by
  have h0 := h.nonneg
  refine ⟨by omega, fun v hv l hl => ?_, h.unique⟩
  obtain ⟨hne, hl'⟩ := h.given v hv l hl
  exact ⟨hne, by omega⟩

/-- Traffic without an id. -/
theorem Ids.snoc_none (h : Ids wire count) (hw : ownId w = none) : Ids (wire ++ [w]) count := by
  have hmem : ∀ v ∈ wire ++ [w], ∀ l, ownId v = some l → v ∈ wire := by
    intro v hv l hl
    rw [mem_snoc] at hv
    rcases hv with hv | rfl
    · exact hv
    · exact nomatch hw.symm.trans hl
  exact ⟨h.nonneg, fun v hv l hl => h.given v (hmem v hv l hl) l hl,
    fun v hv v' hv' l hl hl' => h.unique v (hmem v hv l hl) v' (hmem v' hv' l hl') l hl hl'⟩

/-- A request with the next id. -/
theorem Ids.snoc_next (h : Ids wire count) (hcount : count + 1 < 65536)
    (hw : ownId w = some (UInt16.ofInt (count + 1))) : Ids (wire ++ [w]) (count + 1) := by
  have h0 := h.nonneg
  have hnat := short_toNat_ofInt (n := count + 1) (by omega) hcount
  have hold : ∀ v ∈ wire, ownId v ≠ some (UInt16.ofInt (count + 1)) := by
    intro v hv hl
    have hle := (h.given v hv _ hl).2
    omega
  refine ⟨by omega, fun v hv l hl => ?_, fun v hv v' hv' l hl hl' => ?_⟩
  · rw [mem_snoc] at hv
    rcases hv with hv | rfl
    · obtain ⟨hne, hle⟩ := h.given v hv l hl
      exact ⟨hne, by omega⟩
    · obtain rfl := Option.some.inj (hw.symm.trans hl)
      refine ⟨fun hz => ?_, by omega⟩
      rw [hz] at hnat
      simp at hnat
      omega
  · rw [mem_snoc] at hv hv'
    obtain hv | rfl := hv <;> obtain hv' | rfl := hv'
    · exact h.unique v hv v' hv' l hl hl'
    · obtain rfl := Option.some.inj (hw.symm.trans hl')
      exact absurd hl (hold v hv)
    · obtain rfl := Option.some.inj (hw.symm.trans hl)
      exact absurd hl' (hold v' hv')
    · rfl

namespace Client

/-- The step allocates at most the 65534th id. -/
def FewIds (c : Client) (e : Event) : Prop :=
  ∀ t, step c e = .ok t → t.currentPacketNumber < 65535

instance (c : Client) (e : Event) : Decidable (FewIds c e) :=
  have : DecidablePred fun t : Client => t.currentPacketNumber < 65535 :=
    fun t => inferInstanceAs (Decidable (t.currentPacketNumber < 65535))
  decidableNext (step c e)

/-- The gateway acknowledges what was sent, with the matching packet. -/
def Answers (c : Client) : Event → Prop
  | .receive (.regack a) => ∃ topicName, .sent (registerMessage topicName a.messageId) ∈ c.wire
  | .receive (.puback a) => ∃ snPublish, .sent (publishMessage snPublish) ∈ c.wire ∧
    snPublish.messageId = a.messageId ∧ snPublish.topic.qos = .is 1
  | .receive (.pubrec a) => ∃ snPublish, .sent (publishMessage snPublish) ∈ c.wire ∧
    snPublish.messageId = a.messageId ∧ snPublish.topic.qos = .is 2
  | .receive (.pubcomp a) => .sent (pubrelMessage a.messageId) ∈ c.wire
  | .receive (.suback a) => ∃ topic, .sent (subscribeMessage topic a.messageId) ∈ c.wire
  | .receive (.unsuback a) => ∃ topic, .sent (unsubscribeMessage topic a.messageId) ∈ c.wire
  | _ => True

/-- What is behind a message: a PUBLISH that is kept back has topic id 0, a REGISTER belongs to
the one with the id before, a PUBREL to a PUBLISH with QoS 2. -/
def Explained (wire : List (Traffic SnMessage)) : Traffic SnMessage → Prop
  | .queued message => ∃ p messageId, message = publishMessage (Publication.packet p 0 messageId)
  | .sent message =>
    match message.packet with
    | .ref (.register r) =>
      ∃ p, .queued (publishMessage (Publication.packet p 0 (r.msgId - 1))) ∈ wire
    | .ref (.pubrel rel) => ∃ snPublish, .sent (publishMessage snPublish) ∈ wire ∧
      snPublish.messageId = rel.messageId ∧ snPublish.topic.qos = .is 2
    | .ref (.unsubscribe us) => ∃ d topicName, us.topic = .ref (requestTopic d topicName .indet)
    | _ => True
  | .received _ => True

structure WireInv (c : Client) : Prop where
  ids : Ids c.wire c.currentPacketNumber
  explained : ∀ w ∈ c.wire, Explained c.wire w

variable {c t : Client}

theorem Fresh.wireInv (h : Fresh c) : WireInv c := by
  refine ⟨?_, by rw [h.wire]; simp⟩
  rw [h.wire]
  exact ids_nil h.currentPacketNumber

theorem Explained.mono {wire' : List (Traffic SnMessage)} (h : Explained wire w)
    (hsub : ∀ v ∈ wire, v ∈ wire') : Explained wire' w := by
  cases w with
  | queued message => exact h
  | received message => trivial
  | sent message =>
    obtain ⟨type, packet⟩ := message
    cases packet with
    | ref packet =>
      cases packet with
      | register r =>
        obtain ⟨p, hp⟩ := h
        exact ⟨p, hsub _ hp⟩
      | pubrel rel =>
        obtain ⟨snPublish, hp, hid, hqos⟩ := h
        exact ⟨snPublish, hsub _ hp, hid, hqos⟩
      | _ => exact h
    | _ => exact h

theorem explained_snoc (h : ∀ v ∈ wire, Explained wire v) (hw : Explained wire w) :
    ∀ v ∈ wire ++ [w], Explained (wire ++ [w]) v := by
  intro v hv
  have hsub : ∀ u ∈ wire, u ∈ wire ++ [w] := fun u hu => List.mem_append_left _ hu
  rw [mem_snoc] at hv
  rcases hv with hv | rfl
  · exact (h v hv).mono hsub
  · exact hw.mono hsub

/-- Traffic without an id. -/
theorem WireInv.snoc_none (h : WireInv c) (hw : t.wire = c.wire ++ [w])
    (hcount : t.currentPacketNumber = c.currentPacketNumber) (hid : ownId w = none)
    (hexp : Explained c.wire w) : WireInv t := by
  refine ⟨?_, ?_⟩
  · rw [hw, hcount]
    exact h.ids.snoc_none hid
  · rw [hw]
    exact explained_snoc h.explained hexp

/-- A request with the next id. -/
theorem WireInv.snoc_next (h : WireInv c) (hw : t.wire = c.wire ++ [w])
    (hcount : t.currentPacketNumber = c.currentPacketNumber + 1)
    (hlt : t.currentPacketNumber < 65536) (hid : ownId w = some c.nextId)
    (hexp : Explained c.wire w) : WireInv t := by
  refine ⟨?_, ?_⟩
  · rw [hw, hcount]
    exact h.ids.snoc_next (by omega) hid
  · rw [hw]
    exact explained_snoc h.explained hexp

/-- An id without a message. -/
theorem WireInv.countPacket (h : WireInv c) : WireInv c.countPacket :=
  ⟨h.ids.mono (Int.le_of_lt (Int.lt_succ _)), h.explained⟩

/-- The ids that were given out are not the next one. -/
theorem WireInv.ne_next (h : WireInv c) (hlt : c.currentPacketNumber + 1 < 65536)
    {v : Traffic SnMessage} (hv : v ∈ c.wire) : ownId v ≠ some c.nextId := by
  intro hid
  have h0 := h.ids.nonneg
  have hle := (h.ids.given v hv _ hid).2
  have hnat : (c.nextId.toNat : Int) = c.currentPacketNumber + 1 :=
    short_toNat_ofInt (by omega) hlt
  omega

end Client

end IotClient.MqttSn
