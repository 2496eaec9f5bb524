import IotClient.MqttSn.Session

/-!
# The maps between topic names and topic ids

An `Assignment` is what a gateway has given: at most one id to a name, and no id to two names.
REGISTER, an accepted REGACK and an accepted SUBACK each store a name and an id in both maps;
the name is that of the packet, of the PUBLISH kept back, or of the pending SUBSCRIBE, which has
none when it was sent with a topic id. `TopicsKept` says when the name that is found is the
right one.
-/

namespace IotClient.MqttSn

open Mem Machine

structure Assignment where
  id : CString → Option UInt16
  injective : ∀ t u k, id t = some k → id u = some k → t = u

/-- The two maps are inverse to each other. -/
def Client.TopicsInverse (c : Client) : Prop :=
  ∀ topicName topicId,
    c.topicNameMap topicName = some topicId ↔ c.reverseTopicNameMap topicId = some topicName

namespace Assignment

variable (g : Assignment)

/-- The topic of a request has the id. -/
def Names (topic : SnTopic) (topicId : UInt16) : Prop :=
  topic.id = .is topicId ∨ ∃ name, topic.value = .ref name ∧ g.id name = some topicId

/-- The gateway gives each topic its id, and acknowledges only what was sent. -/
def Gives (c : Client) : Event → Prop
  | .receive (.register topicId _ topicName) => g.id topicName = some topicId
  | .receive (.regack a) => a.code = 0 ∧ ∃ topicName,
    Traffic.sent (registerMessage topicName a.messageId) ∈ c.wire ∧
      g.id topicName = some a.topicId
  | .receive (.suback a) => a.code = 0 ∧ ∃ topic,
    Traffic.sent (subscribeMessage topic a.messageId) ∈ c.wire ∧ g.Names topic a.topicId
  | .receive _ => False
  | _ => True

/-- An acknowledgement finds nothing, or a message with the name of the topic. -/
def TopicsKept (c : Client) : Event → Prop
  | .receive (.regack a) => ∀ message, c.messagesMap (a.messageId - 1) = some message →
    ∃ p topicId messageId, message = publishMessage (Publication.packet p topicId messageId) ∧
      g.id p.topicName = some a.topicId
  | .receive (.suback a) => ∀ message, c.messagesMap a.messageId = some message →
    ∃ topic messageId name, message = subscribeMessage topic messageId ∧
      topic.value = .ref name ∧ g.id name = some a.topicId
  | _ => True

/-- The maps are inverse, and hold only what the gateway has given. -/
structure TopicInv (c : Client) : Prop where
  inverse : c.TopicsInverse
  given : ∀ topicName topicId, c.topicNameMap topicName = some topicId →
    g.id topicName = some topicId

variable {g} {c t : Client} {e : Event} {topicName : CString} {topicId : UInt16}

theorem TopicInv.of_same (hc : g.TopicInv c) (hn : t.topicNameMap = c.topicNameMap)
    (hr : t.reverseTopicNameMap = c.reverseTopicNameMap) : g.TopicInv t := by
  refine ⟨fun u k => ?_, fun u k => ?_⟩
  · rw [hn, hr]
    exact hc.inverse u k
  · rw [hn]
    exact hc.given u k

theorem topicInv_of_fresh (h : Client.Fresh c) : g.TopicInv c := by
  refine ⟨fun u k => ?_, fun u k hu => ?_⟩
  · rw [h.topicNameMap, h.reverseTopicNameMap]
    simp
  · rw [h.topicNameMap] at hu
    cases hu

/-- A topic is stored with the id it was given. -/
theorem TopicInv.withTopic (hc : g.TopicInv c) (hg : g.id topicName = some topicId) :
    g.TopicInv (c.withTopic topicName topicId) := by
  refine ⟨fun u k => ?_, fun u k hu => ?_⟩
  · show c.topicNameMap.set topicName topicId u = some k ↔
      c.reverseTopicNameMap.set topicId topicName k = some u
    rw [Table.set_apply, Table.set_apply]
    by_cases hu : u = topicName <;> by_cases hk : k = topicId
    · simp [hu, hk]
    · -- the name had no other id
      rw [if_pos hu, if_neg hk, ← hc.inverse]
      refine iff_of_false (fun h => hk (Option.some.inj h).symm) fun h => hk ?_
      have hgk := hc.given u k h
      rw [hu, hg] at hgk
      exact (Option.some.inj hgk).symm
    · -- the id had no other name
      rw [if_neg hu, if_pos hk]
      refine iff_of_false (fun h => hu ?_) fun h => hu (Option.some.inj h).symm
      have hgu := hc.given u k h
      rw [hk] at hgu
      exact g.injective u topicName topicId hgu hg
    · rw [if_neg hu, if_neg hk]
      exact hc.inverse u k
  · change c.topicNameMap.set topicName topicId u = some k at hu
    rw [Table.set_apply] at hu
    split at hu
    · next heq =>
      rw [heq, hg]
      exact hu
    · exact hc.given u k hu

/-! ### The steps -/

theorem regack_topicInv (hc : g.TopicInv c) {a : SnRegAck} (hcode : a.code = 0)
    (hkept : g.TopicsKept c (.receive (.regack a))) :
    ∃ t, step c (.receive (.regack a)) = .ok t ∧ g.TopicInv t := by
  cases hm : c.messagesMap (a.messageId - 1) with
  | none => exact ⟨_, Client.step_regack_none hm, hc.of_same rfl rfl⟩
  | some message =>
    obtain ⟨p, oldId, messageId, rfl, hg⟩ := hkept message hm
    refine ⟨_, Client.step_regack_accepted hcode hm, ?_⟩
    have hread : g.TopicInv (c.afterRead (GatewayPacket.regack a).message) := hc.of_same rfl rfl
    exact (hread.withTopic hg).of_same rfl rfl

theorem suback_topicInv (hc : g.TopicInv c) {a : SnSuback} (hcode : a.code = 0)
    (hkept : g.TopicsKept c (.receive (.suback a))) :
    ∃ t, step c (.receive (.suback a)) = .ok t ∧ g.TopicInv t := by
  cases hm : c.messagesMap a.messageId with
  | none => exact ⟨_, Client.step_suback_none hm, hc.of_same rfl rfl⟩
  | some message =>
    obtain ⟨topic, messageId, name, rfl, hname, hg⟩ := hkept message hm
    rw [Client.step_suback_accepted hcode hm, hname, Client.addTopic_ref]
    refine ⟨_, rfl, ?_⟩
    have hread : g.TopicInv (c.afterRead (GatewayPacket.suback a).message) := hc.of_same rfl rfl
    exact (hread.withTopic hg).of_same rfl rfl

theorem step_topicInv (hc : g.TopicInv c) (hgives : g.Gives c e) (hkept : g.TopicsKept c e) :
    ∃ t, step c e = .ok t ∧ g.TopicInv t := by
  cases e with
  | sendSubscribe topicName qos => exact ⟨_, Client.step_subscribe, hc.of_same rfl rfl⟩
  | sendUnsubscribe topicName => exact ⟨_, Client.step_unsubscribe, hc.of_same rfl rfl⟩
  | sendMessage p =>
    by_cases h : c.topicIdOf p.topicName = 0
    · exact ⟨_, Client.step_keep h, hc.of_same rfl rfl⟩
    · exact ⟨_, Client.step_publish h, hc.of_same rfl rfl⟩
  | receive p =>
    cases p with
    | register topicId msgId topicName =>
      refine ⟨_, Client.step_register, ?_⟩
      have hread : g.TopicInv (c.afterRead (GatewayPacket.register topicId msgId topicName).message) :=
        hc.of_same rfl rfl
      exact (hread.withTopic hgives).of_same rfl rfl
    | regack a => exact regack_topicInv hc hgives.1 hkept
    | suback a => exact suback_topicInv hc hgives.1 hkept
    | _ => exact hgives.elim

/-- In every run in which each acknowledgement finds the right name, the two maps are inverse
to each other after every step. -/
theorem topicsInverse_of_kept (g : Assignment) (hc : Client.Fresh c) (es : List Event)
    (hgives : Each step g.Gives c es) (hkept : Each step g.TopicsKept c es) :
    Always step Client.TopicsInverse c es :=
  (always_of_each (fun _ _ hi h => step_topicInv hi h.1 h.2) (topicInv_of_fresh hc)
    (hgives.and hkept)).mono fun _ hi => hi.inverse

/-- The topic `t` has the id 5. -/
def five : Assignment where
  id topicName := if topicName = .ofBytes [0x74] then some 5 else none
  injective := by
    intro t u k ht hu
    split at ht
    · split at hu
      · next h1 h2 => rw [h1, h2]
      · cases hu
    · cases ht

/-- A SUBSCRIBE for `t` and its SUBACK. -/
def namedRun : List Event :=
  [.sendSubscribe (.ofBytes [0x74]) 1, .receive (.suback ⟨5, 1, 0, 1⟩)]

theorem topicsInverse_of_kept_namedRun :
    Each step five.Gives (.init .anonymous) namedRun ∧
      Each step five.TopicsKept (.init .anonymous) namedRun ∧
      Always step Client.TopicsInverse (.init .anonymous) namedRun := by
  have hgives : Each step five.Gives (.init .anonymous) namedRun := by
    refine each_cons.2 ⟨trivial, ?_⟩
    rintro _ ⟨⟩
    refine each_cons.2 ⟨⟨rfl, _, List.mem_singleton.2 rfl, .inr ⟨_, rfl, by decide⟩⟩, ?_⟩
    exact fun _ _ => each_nil
  have hkept : Each step five.TopicsKept (.init .anonymous) namedRun := by
    refine each_cons.2 ⟨trivial, ?_⟩
    rintro _ ⟨⟩
    refine each_cons.2 ⟨?_, fun _ _ => each_nil⟩
    rintro message ⟨⟩
    exact ⟨_, _, _, rfl, rfl, by decide⟩
  exact ⟨hgives, hkept, topicsInverse_of_kept five (Client.fresh_init .anonymous) namedRun hgives
    hkept⟩

/-- A REGISTER for `t`, a SUBSCRIBE for it, which has the id, and its SUBACK. -/
def registeredRun : List Event :=
  [.receive (.register 5 1 (.ofBytes [0x74])), .sendSubscribe (.ofBytes [0x74]) 1,
    .receive (.suback ⟨5, 1, 0, 1⟩)]

/-- The SUBACK reads a name that was never stored. -/
theorem registeredRun_not_inverse :
    Each step five.Gives (.init .anonymous) registeredRun ∧
      ¬ Always step Client.TopicsInverse (.init .anonymous) registeredRun := by
  constructor
  · refine each_cons.2 ⟨by show five.id _ = _; decide, ?_⟩
    rintro _ ⟨⟩
    refine each_cons.2 ⟨trivial, ?_⟩
    rintro _ ⟨⟩
    refine each_cons.2 ⟨⟨rfl, _, List.mem_append_right _ (List.mem_singleton.2 rfl), .inl rfl⟩, ?_⟩
    exact fun _ _ => each_nil
  · intro h
    obtain ⟨t, ht, -⟩ := h registeredRun (List.prefix_refl _)
    cases ht

end Assignment

end IotClient.MqttSn
