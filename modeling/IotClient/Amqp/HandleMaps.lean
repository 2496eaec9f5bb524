import IotClient.Amqp.Session

/-!
# The maps between topics and handles

`reverse_topic_name_map` should be the inverse of `topic_name_map` and
`topic_name_map_outgoing` taken together. The client numbers its own links and the peer its
own, and both kinds of handle share the reverse map; DETACH never removes an outgoing handle.
`HandlesKept` says when a step keeps the maps right.
-/

namespace IotClient.Amqp

open Mem Machine

namespace Client

/-- The topic has the handle, as one of the peer or as one of the client. -/
def HasHandle (c : Client) (topicName : CString) (h : UInt16) : Prop :=
  c.topicNameMap topicName = some h ∨ c.topicNameMapOutgoing topicName = some h

def HandlesRight (c : Client) : Prop :=
  ∀ h topicName, c.reverseTopicNameMap h = some topicName ↔ c.HasHandle topicName h

/-- No other topic is recorded under the handle. -/
def FreeFor (c : Client) (topicName : CString) (h : UInt16) : Prop :=
  ∀ other, c.reverseTopicNameMap h = some other → other = topicName

/-- What keeps the maps right. -/
def HandlesKept (c : Client) : Event → Prop
  -- a new handle is free, and does not replace one of the topic
  | .sendTransfer _ topicName _ _ _ => c.handleOf topicName = 0 →
    c.FreeFor topicName (mapKey c.nextHandle) ∧
      (c.topicNameMapOutgoing topicName = none ∨ mapKey c.nextHandle = 0)
  -- a first handle of the peer is free
  | .attach f => f.role = .sender → c.topicNameMap f.name = none →
    c.FreeFor f.name (mapKey f.handle)
  -- a detached handle is not the client's own
  | .detach f => ∀ topicName, c.reverseTopicNameMap (mapKey f.handle) = some topicName →
    c.topicNameMapOutgoing topicName ≠ some (mapKey f.handle)
  | _ => True

/-- The handles of the peer's frames. -/
def HandlesInRange : Event → Prop
  | .attach f => 1 ≤ f.handle ∧ f.handle ≤ 65535
  | .detach f => 1 ≤ f.handle ∧ f.handle ≤ 65535
  | _ => True

instance : (e : Event) → Decidable (HandlesInRange e)
  | .attach f => inferInstanceAs (Decidable (1 ≤ f.handle ∧ f.handle ≤ 65535))
  | .detach f => inferInstanceAs (Decidable (1 ≤ f.handle ∧ f.handle ≤ 65535))
  | .sendTransfer .. | .sendAttach .. | .sendDetach _ | .disposition _ => isTrue trivial

/-- After a DETACH no topic has its handle. -/
def DetachedGone (c : Client) (e : Event) : Prop :=
  ∀ f t, e = .detach f → step c e = .ok t →
    t.reverseTopicNameMap (mapKey f.handle) = none ∧
      ∀ topicName, ¬ t.HasHandle topicName (mapKey f.handle) ∧
        t.handleOf topicName ≠ mapKey f.handle

/-- The peer's handles are not 0, which stands for no handle. -/
structure HandleInv (c : Client) : Prop where
  inv : Inv c
  ne_zero : ∀ topicName, c.topicNameMap topicName ≠ some 0

variable {c t : Client} {content topicName : CString} {qos : Int}

theorem mapKey_ne_zero {n : Int} (h1 : 1 ≤ n) (h : n ≤ 65535) : mapKey n ≠ 0 := by
  have hnat : ((mapKey n).toNat : Int) = n := short_toNat_ofInt (by omega) (by omega)
  intro hz
  rw [hz] at hnat
  simp at hnat
  omega

/-- The maps say what they said before. -/
theorem right_of_sameMaps (hn : t.topicNameMap = c.topicNameMap)
    (ho : t.topicNameMapOutgoing = c.topicNameMapOutgoing)
    (hr : t.reverseTopicNameMap = c.reverseTopicNameMap) (hc : HandlesRight c) :
    HandlesRight t := by
  intro h topicName
  unfold HasHandle
  rw [hn, ho, hr]
  exact hc h topicName

/-! ### A handle recorded for a topic -/

/-- The handle leads to the topic now, so no other topic had it. -/
theorem freeFor_of_right {h : UInt16} (hr : HandlesRight c) (hright : HandlesRight t)
    (hget : t.reverseTopicNameMap h = some topicName)
    (hother : ∀ other, other ≠ topicName → c.HasHandle other h → t.HasHandle other h) :
    c.FreeFor topicName h := by
  intro other hfound
  by_contra hne
  have hhas := (hright h other).2 (hother other hne ((hr h other).1 hfound))
  rw [hget] at hhas
  exact hne (Option.some.inj hhas).symm

/-- A handle that no other topic had leads to the topics that have it. -/
theorem reverse_iff_of_freeFor {h : UInt16} (hr : HandlesRight c) (hfree : c.FreeFor topicName h)
    (hget : t.reverseTopicNameMap h = some topicName) (hself : t.HasHandle topicName h)
    (hother : ∀ other, other ≠ topicName → t.HasHandle other h → c.HasHandle other h)
    (other : CString) : t.reverseTopicNameMap h = some other ↔ t.HasHandle other h := by
  rw [hget]
  constructor
  · rintro ⟨⟩
    exact hself
  · intro hhas
    by_cases hot : other = topicName
    · rw [hot]
    · rw [hfree other ((hr h other).2 (hother other hot hhas))]

/-! ### A transfer that opens a link -/

theorem afterQueue_handles_iff (hc : HandleInv c) (hr : HandlesRight c)
    (h0 : c.handleOf topicName = 0) :
    HandlesRight (c.afterQueue content topicName qos) ↔
      c.FreeFor topicName (mapKey c.nextHandle) ∧
        (c.topicNameMapOutgoing topicName = none ∨ mapKey c.nextHandle = 0) := by
  set h := mapKey c.nextHandle with hh
  have hrev : (c.afterQueue content topicName qos).reverseTopicNameMap =
    c.reverseTopicNameMap.set h topicName := rfl
  have hout : (c.afterQueue content topicName qos).topicNameMapOutgoing =
    c.topicNameMapOutgoing.set topicName h := rfl
  have hname : (c.afterQueue content topicName qos).topicNameMap = c.topicNameMap := rfl
  have hget : (c.afterQueue content topicName qos).reverseTopicNameMap h = some topicName := by
    rw [hrev, Table.set_self]
  have hother : ∀ other, other ≠ topicName →
      ((c.afterQueue content topicName qos).HasHandle other h ↔ c.HasHandle other h) := by
    intro other hne
    rw [HasHandle, HasHandle, hname, hout, Table.set_of_ne hne]
  constructor
  · intro hright
    refine ⟨freeFor_of_right hr hright hget fun other hne => (hother other hne).2, ?_⟩
    · by_contra hcon
      obtain ⟨hsome, hne⟩ := not_or.1 hcon
      obtain ⟨k, hk⟩ := Option.ne_none_iff_exists'.1 hsome
      obtain rfl : k = 0 := (handleOf_some hk).symm.trans h0
      -- the handle 0 of the topic was replaced, but still leads to it
      have hget := (hr 0 topicName).2 (.inr hk)
      have hhas := (hright 0 topicName).1 (by rw [hrev, Table.set_of_ne (Ne.symm hne), hget])
      unfold HasHandle at hhas
      rw [hname, hout, Table.set_self] at hhas
      rcases hhas with hhas | hhas
      · exact hc.ne_zero topicName hhas
      · exact hne (Option.some.inj hhas)
  · rintro ⟨hfree, hold⟩ k other
    by_cases hkh : k = h
    · rw [hkh]
      refine reverse_iff_of_freeFor hr hfree hget ?_ (fun other hne => (hother other hne).1) other
      right
      rw [hout, Table.set_self]
    · rw [hrev, HasHandle, hname, hout, Table.set_of_ne hkh, hr k other, HasHandle]
      by_cases hot : other = topicName
      · subst hot
        rw [Table.set_self]
        refine or_congr_right ?_
        constructor
        · intro hk
          rcases hold with hold | hold
          · rw [hold] at hk
            cases hk
          · obtain rfl : k = 0 := (handleOf_some hk).symm.trans h0
            exact absurd hold.symm hkh
        · intro hk
          exact absurd (Option.some.inj hk).symm hkh
      · rw [Table.set_of_ne hot]

/-! ### An ATTACH with role SENDER -/

/-- The maps after the first handle of a topic was recorded. -/
theorem record_iff {name : CString} {handle : Int} (hnone : c.topicNameMap name = none)
    (hn : t.topicNameMap = c.topicNameMap.set name (mapKey handle))
    (ho : t.topicNameMapOutgoing = c.topicNameMapOutgoing)
    (hrev : t.reverseTopicNameMap = c.reverseTopicNameMap.set (mapKey handle) name)
    (hr : HandlesRight c) : HandlesRight t ↔ c.FreeFor name (mapKey handle) := by
  set h := mapKey handle with hh
  have hget : t.reverseTopicNameMap h = some name := by rw [hrev, Table.set_self]
  have hother : ∀ other, other ≠ name → (t.HasHandle other h ↔ c.HasHandle other h) := by
    intro other hne
    rw [HasHandle, HasHandle, hn, ho, Table.set_of_ne hne]
  constructor
  · intro hright
    exact freeFor_of_right hr hright hget fun other hne => (hother other hne).2
  · intro hfree k other
    by_cases hkh : k = h
    · rw [hkh]
      refine reverse_iff_of_freeFor hr hfree hget ?_ (fun other hne => (hother other hne).1) other
      left
      rw [hn, Table.set_self]
    · rw [hrev, HasHandle, hn, ho, Table.set_of_ne hkh, hr k other, HasHandle]
      by_cases hot : other = name
      · subst hot
        rw [Table.set_self, hnone]
        refine or_congr_left ?_
        constructor
        · intro hk
          cases hk
        · intro hk
          exact absurd (Option.some.inj hk).symm hkh
      · rw [Table.set_of_ne hot]

theorem getHandler_eq_zero_iff (hc : HandleInv c) (name : CString) :
    c.amqpGetHandlerFromMap name = 0 ↔ c.topicNameMap name = none := by
  unfold amqpGetHandlerFromMap
  cases hn : c.topicNameMap name with
  | none => simp
  | some k =>
    have hk : k ≠ 0 := fun h => hc.ne_zero name (h ▸ hn)
    simp [hk]

theorem senderAttach_iff (hc : HandleInv c) (hr : HandlesRight c) (f : AttachFrame) :
    HandlesRight ((c.afterRead f.header).processSenderAttach f.name f.handle) ↔
      (c.topicNameMap f.name = none → c.FreeFor f.name (mapKey f.handle)) := by
  have hzero := getHandler_eq_zero_iff hc f.name
  rw [processSenderAttach_eq]
  by_cases hnone : c.topicNameMap f.name = none
  · have h0 : (c.afterRead f.header).amqpGetHandlerFromMap f.name = 0 := hzero.2 hnone
    rw [if_pos h0, if_pos h0]
    refine (record_iff (c := c) hnone ?_ ?_ ?_ hr).trans ⟨fun h _ => h, fun h => h hnone⟩
    all_goals rfl
  · have h0 : ¬ (c.afterRead f.header).amqpGetHandlerFromMap f.name = 0 := mt hzero.1 hnone
    rw [if_neg h0, if_neg h0]
    exact iff_of_true (right_of_sameMaps (c := c) rfl rfl rfl hr) fun h => absurd h hnone

/-! ### DETACH -/

theorem afterDetach_iff (hr : HandlesRight c) (f : DetachFrame)
    (h : c.reverseTopicNameMap (mapKey f.handle) = some topicName) :
    HandlesRight (c.afterDetach f topicName) ↔
      c.topicNameMapOutgoing topicName ≠ some (mapKey f.handle) := by
  set k := mapKey f.handle with hk
  have hname : (c.afterDetach f topicName).topicNameMap = c.topicNameMap.erase topicName := rfl
  have hout : (c.afterDetach f topicName).topicNameMapOutgoing = c.topicNameMapOutgoing := rfl
  have hrev : (c.afterDetach f topicName).reverseTopicNameMap = c.reverseTopicNameMap.erase k := rfl
  constructor
  · intro hright hown
    have hget := (hright k topicName).2 (.inr hown)
    rw [hrev, Table.erase_self] at hget
    cases hget
  · intro hown l other
    have hpeer : c.topicNameMap topicName = some k := ((hr k topicName).1 h).resolve_right hown
    rw [hrev, HasHandle, hname, hout]
    by_cases hlk : l = k
    · subst hlk
      rw [Table.erase_self]
      constructor
      · intro hget
        cases hget
      · intro hhas
        by_cases hot : other = topicName
        · subst hot
          rw [Table.erase_self] at hhas
          rcases hhas with hhas | hhas
          · cases hhas
          · exact absurd hhas hown
        · rw [Table.erase_of_ne hot] at hhas
          have hget := (hr k other).2 hhas
          rw [h] at hget
          exact absurd (Option.some.inj hget).symm hot
    · rw [Table.erase_of_ne hlk, hr l other, HasHandle]
      by_cases hot : other = topicName
      · subst hot
        rw [Table.erase_self, hpeer]
        refine or_congr_left ?_
        constructor
        · intro hl
          exact absurd (Option.some.inj hl).symm hlk
        · intro hl
          cases hl
      · rw [Table.erase_of_ne hot]

/-! ### Runs -/

theorem HandleInv.of_names (hc : HandleInv c) (ht : Inv t)
    (hn : ∀ topicName, t.topicNameMap topicName = some 0 → c.topicNameMap topicName = some 0) :
    HandleInv t :=
  ⟨ht, fun topicName h => hc.ne_zero topicName (hn topicName h)⟩

theorem step_handleInv {e : Event} (hc : HandleInv c) (hrange : HandlesInRange e)
    (ht : step c e = .ok t) : HandleInv t := by
  have hinv := (effect_of_step hc.inv ht).inv hc.inv
  refine hc.of_names hinv fun topicName h => ?_
  cases e with
  | sendTransfer content name qos retain dup =>
    by_cases h0 : c.handleOf name = 0
    · cases (step_queue h0).symm.trans ht
      exact h
    · cases (step_fire h0).symm.trans ht
      exact h
  | sendAttach name qos =>
    cases ht
    exact h
  | sendDetach name =>
    cases ht
    rw [sendAmqpDetach] at h
    split at h <;> exact h
  | attach f =>
    cases hrole : f.role with
    | sender =>
      cases (step_sender f hrole).symm.trans ht
      rw [processSenderAttach_eq] at h
      dsimp only at h
      split at h
      · rw [Table.set_apply] at h
        split at h
        · exact absurd (Option.some.inj h) (mapKey_ne_zero hrange.1 hrange.2)
        · exact h
      · exact h
    | receiver =>
      obtain ⟨-, hu⟩ | ⟨_, _, _, _, _, -, -, -, -, -, hu⟩ := step_receiver_cases hc.inv f hrole <;>
        cases hu.symm.trans ht <;> exact h
  | detach f =>
    cases hrev : c.reverseTopicNameMap (mapKey f.handle) with
    | none =>
      cases (step_detach_none f hrev).symm.trans ht
      exact h
    | some name =>
      cases (step_detach_some f hrev).symm.trans ht
      change c.topicNameMap.erase name topicName = some 0 at h
      rw [Table.erase_apply] at h
      split at h
      · cases h
      · exact h
  | disposition f =>
    cases (step_disposition f).symm.trans ht
    exact h

theorem step_handles_iff {e : Event} (hc : HandleInv c) (hr : HandlesRight c) :
    (∃ t, step c e = .ok t ∧ HandlesRight t) ↔ HandlesKept c e := by
  cases e with
  | sendTransfer content name qos retain dup =>
    by_cases h0 : c.handleOf name = 0
    · rw [exists_ok_iff (step_queue h0), afterQueue_handles_iff hc hr h0]
      exact ⟨fun h _ => h, fun h => h h0⟩
    · rw [exists_ok_iff (step_fire h0)]
      exact iff_of_true (right_of_sameMaps (c := c) rfl rfl rfl hr) fun h => absurd h h0
  | sendAttach name qos =>
    rw [exists_ok_iff (x := step c (.sendAttach name qos)) rfl]
    exact iff_of_true (right_of_sameMaps (c := c) rfl rfl rfl hr) trivial
  | sendDetach name =>
    rw [exists_ok_iff (x := step c (.sendDetach name)) rfl]
    refine iff_of_true ?_ trivial
    rw [sendAmqpDetach]
    split
    · exact hr
    · exact right_of_sameMaps (c := c) rfl rfl rfl hr
  | attach f =>
    cases hrole : f.role with
    | sender =>
      rw [exists_ok_iff (step_sender f hrole), senderAttach_iff hc hr]
      exact ⟨fun h _ => h, fun h => h hrole⟩
    | receiver =>
      have hkept : HandlesKept c (.attach f) := by
        intro h
        rw [hrole] at h
        cases h
      rcases step_receiver_cases hc.inv f hrole with ⟨-, hu⟩ | ⟨_, _, _, _, _, -, -, -, -, -, hu⟩
      · rw [exists_ok_iff hu]
        exact iff_of_true (right_of_sameMaps (c := c) rfl rfl rfl hr) hkept
      · rw [exists_ok_iff hu]
        exact iff_of_true (right_of_sameMaps (c := c) rfl rfl rfl hr) hkept
  | detach f =>
    cases hrev : c.reverseTopicNameMap (mapKey f.handle) with
    | none =>
      rw [exists_ok_iff (step_detach_none f hrev)]
      refine iff_of_true (right_of_sameMaps (c := c) rfl rfl rfl hr) fun name h => ?_
      rw [hrev] at h
      cases h
    | some name =>
      rw [exists_ok_iff (step_detach_some f hrev), afterDetach_iff hr f hrev]
      constructor
      · intro h other hother
        rw [hrev] at hother
        cases hother
        exact h
      · exact fun h => h name hrev
  | disposition f =>
    rw [exists_ok_iff (step_disposition f)]
    exact iff_of_true (right_of_sameMaps (c := c) rfl rfl rfl hr) trivial

/-- Between states with right maps a DETACH leaves nothing of its handle. -/
theorem detachedGone_of_right {e : Event} (ht : step c e = .ok t) (hright : HandlesRight t)
    (hrange : HandlesInRange e) : DetachedGone c e := by
  rintro f u rfl hu
  obtain rfl : t = u := Except.ok.inj (ht.symm.trans hu)
  have hnone : t.reverseTopicNameMap (mapKey f.handle) = none := by
    cases hrev : c.reverseTopicNameMap (mapKey f.handle) with
    | none =>
      cases (step_detach_none f hrev).symm.trans ht
      exact hrev
    | some name =>
      cases (step_detach_some f hrev).symm.trans ht
      exact Table.erase_self ..
  have hno : ∀ topicName, ¬ t.HasHandle topicName (mapKey f.handle) := by
    intro topicName hhas
    have hget := (hright _ topicName).2 hhas
    rw [hnone] at hget
    cases hget
  refine ⟨hnone, fun topicName => ⟨hno topicName, fun heq => ?_⟩⟩
  have hne : t.handleOf topicName ≠ 0 := by
    rw [heq]
    exact mapKey_ne_zero hrange.1 hrange.2
  exact hno topicName (.inr (heq ▸ outgoing_of_handleOf hne))

theorem Fresh.handleInv (h : Fresh c) : HandleInv c := by
  refine ⟨h.inv, fun topicName hn => ?_⟩
  rw [h.topicNameMap] at hn
  cases hn

theorem Fresh.handlesRight (h : Fresh c) : HandlesRight c := by
  intro k topicName
  unfold HasHandle
  rw [h.topicNameMap, h.topicNameMapOutgoing, h.reverseTopicNameMap]
  simp

/-- The maps agree after every step if and only if every step keeps them right, and then no
topic has a handle after its DETACH. -/
theorem handlesRight_iff_kept (hc : Fresh c) (es : List Event)
    (hrange : ∀ e ∈ es, HandlesInRange e) :
    (Always step HandlesRight c es ↔ Each step HandlesKept c es) ∧
      (Always step HandlesRight c es → Each step DetachedGone c es) := by
  constructor
  · exact always_iff_each (I := HandleInv) (G := fun _ => HandlesInRange)
      (fun _ _ _ hi _ hrange ht _ => step_handleInv hi hrange ht)
      (fun _ _ hi hr _ => step_handles_iff hi hr)
      hc.handleInv hc.handlesRight (each_of_forall fun e he _ => hrange e he)
  · intro h
    have hgone := h.each (C := fun s e => HandlesInRange e → DetachedGone s e)
      fun _ _ _ _ ht hright hr => detachedGone_of_right ht hright hr
    exact fun pre e t hpre ht => hgone pre e t hpre ht (hrange e (hpre.subset (by simp)))

/-- A transfer on the topic `t`, whose link the peer detaches. -/
def detachRun : List Event :=
  [.sendTransfer (.ofBytes [0x31]) (.ofBytes [0x74]) 0 0 0, .detach (.make 1)]

theorem handlesRight_iff_kept_detachRun :
    (∀ e ∈ detachRun, HandlesInRange e) ∧
      (Always step HandlesRight (init .anonymous) detachRun ↔
        Each step HandlesKept (init .anonymous) detachRun) ∧
      (Always step HandlesRight (init .anonymous) detachRun →
        Each step DetachedGone (init .anonymous) detachRun) :=
  ⟨by decide, handlesRight_iff_kept (fresh_init _) detachRun (by decide)⟩

/-- The topic keeps the detached handle in `topic_name_map_outgoing`. -/
theorem detachRun_not_right : ¬ Always step HandlesRight (init .anonymous) detachRun := by
  intro h
  obtain ⟨t, ht, hright⟩ := h _ (List.prefix_refl _)
  obtain rfl := Except.ok.inj ht
  have hget := (hright 1 (.ofBytes [0x74])).2 (.inr (by decide))
  exact absurd hget (by decide)

end Client

end IotClient.Amqp
