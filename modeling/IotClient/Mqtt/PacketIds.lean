import IotClient.Mqtt.Requests

/-!
# Packet ids over long runs

The `send` functions count packets in an `int` and put its low 16 bits into the packet, and
`encode` leaves the id out of a PUBLISH when it is 0. `IdRight c f` is what a call in state `c`
should do: the frame has a non-zero id at `packetIdPosition`, no request that the map holds
has that id, and all of them stay in the map. It holds while fewer than 65535 packets were
counted.
-/

namespace IotClient.Mqtt

open Mem Machine

/-! ### The position of the id in a frame -/

/-- Behind the first byte and the length field, in a PUBLISH behind the topic name too. -/
def packetIdPosition (message : Message) (length : Nat) : Nat :=
  match message.packet with
  | .ref (.publish ⟨⟨.ref topicName, _⟩, _, _, _, _⟩) =>
    1 + (lengthBytes length).length + (stringField topicName).length
  | _ => 1 + (lengthBytes length).length

/-- The two bytes of `id` are written at `pos`. -/
def HasIdAt (frame : Block) (pos : Nat) (id : UInt16) : Prop :=
  (frame.drop pos).take 2 = (shortBytes id).map some

/-- Every frame that `encode` makes of the message has the id in its place. -/
def FrameHasId (message : Message) (id : UInt16) : Prop :=
  ∀ length frame, encode message length = .ok frame →
    HasIdAt frame (packetIdPosition message length) id

theorem hasIdAt_of_emitted {n : Nat} {pre rest : List UInt8} {id : UInt16} {frame : Block}
    (h : emittedBlock n (pre ++ (shortBytes id ++ rest)) = .ok frame) :
    HasIdAt frame pre.length id := by
  unfold emittedBlock at h
  split at h
  · cases h
    unfold HasIdAt Block.part
    rw [List.map_append, List.append_assoc,
      List.drop_left' (List.length_map some), List.map_append, List.append_assoc]
    rfl
  · cases h

theorem frameHasId_of_block {message : Message} {id : UInt16} (pre : Nat → List UInt8)
    (rest : List UInt8)
    (h : ∀ l, encode message l = emittedBlock (l + 2) (pre l ++ (shortBytes id ++ rest)))
    (hpos : ∀ l, packetIdPosition message l = (pre l).length) : FrameHasId message id := by
  intro length frame hframe
  rw [h length] at hframe
  rw [hpos length]
  exact hasIdAt_of_emitted hframe

theorem frameHasId_subscribe (topicName : CString) (qos : Nat) (id : UInt16) :
    FrameHasId (subscribeMessage topicName qos id) id := by
  refine frameHasId_of_block (fun l => 0x82 :: lengthBytes l)
    ([(topicName, qos)].flatMap (fun f => stringField f.1) ++ [UInt8.ofNat qos]) (fun l => ?_)
    (fun l => Nat.add_comm ..)
  have htopics : Ptr.ref [⟨.ref topicName, .is qos⟩] = .ref (filtersOf [(topicName, qos)]) := rfl
  have hblock := encodeSubscribe_block (l := l) (n := l + 2)
    (s := ⟨.ref [⟨.ref topicName, .is qos⟩], 1, id⟩) htopics rfl
  exact (encode_subscribe l _).trans hblock

theorem frameHasId_unsubscribe (topicName : CString) (id : UInt16) :
    FrameHasId (unsubscribeMessage topicName id) id := by
  refine frameHasId_of_block (fun l => 0xa2 :: lengthBytes l)
    ([(topicName, (Cell.indet : Cell Nat))].flatMap fun f => stringField f.1) (fun l => ?_)
    (fun l => Nat.add_comm ..)
  let us : Unsubscribe := ⟨.is 1, .ref [⟨.ref topicName, .indet⟩], id⟩
  have htopics : us.topics = .ref (topicsOf [(topicName, .indet)]) := rfl
  have hblock := encodeUnsubscribe_block (l := l) (n := l + 2) htopics rfl
  exact (encode_unsubscribe l _).trans hblock

/-- A PUBLISH has its id only when that is not 0. -/
theorem frameHasId_publish (content topicName : CString) (qos : Nat) (retain dup : Int)
    {id : UInt16} (hid : id ≠ 0) :
    FrameHasId (publishMessage content topicName qos retain dup id) id := by
  refine frameHasId_of_block (fun l => publishHeader dup retain qos ::
    (lengthBytes l ++ stringField topicName)) content.bytes (fun l => ?_) (fun l => ?_)
  · have hblock := encodePublish_block (l := l) (n := l + 2)
      (p := ⟨⟨.ref topicName, .is qos⟩, .ref content, retain, dup, .is id⟩) rfl rfl rfl
    unfold publishBody at hblock
    rw [if_pos hid] at hblock
    rw [List.cons_append, List.append_assoc]
    exact (encode_publish l _).trans hblock
  · simp only [packetIdPosition, publishMessage, List.length_cons, List.length_append]
    omega

theorem frameHasId_message {f : Call} (hf : f.Allocates) {id : UInt16} (hid : id ≠ 0) :
    FrameHasId (f.message id) id := by
  cases f with
  | sendConnect account => exact hf.elim
  | sendSubscribe topicName qos => exact frameHasId_subscribe topicName qos id
  | sendUnsubscribe topicName => exact frameHasId_unsubscribe topicName id
  | sendPublish content topicName qos retain dup =>
    have hqos : (qos : Nat) ≠ 0 := hf
    rw [Call.message, if_pos hqos]
    exact frameHasId_publish content topicName qos retain dup hid

namespace Client

/-! ### The ids of the calls -/

/-- The call sends a request with an id that is not 0 and that the map does not hold. -/
def IdRight (c : Client) (f : Call) : Prop :=
  ∃ t message id, f.run c = .ok t ∧ t.wire = c.wire ++ [.sent message] ∧
    requestKey message = some id ∧ id ≠ 0 ∧ FrameHasId message id ∧
    ∀ k r, c.m k = some r → requestKey r ≠ some id ∧ t.m k = some r

def IdsRight (c : Client) (e : Event) : Prop := ∀ f, e = .call f → f.Allocates → IdRight c f

/-- Fewer than 65535 packets were counted. -/
def Below (c : Client) (e : Event) : Prop :=
  ∀ f, e = .call f → f.Allocates → c.currentPacketNumber < 65535

/-- Up to the 65535th packet, the map's keys are ids that were allocated. -/
structure IdInv (c : Client) : Prop where
  count : 0 ≤ c.currentPacketNumber
  count_le : c.currentPacketNumber ≤ 65535
  keys : ∀ k r, c.m k = some r → k.toNat ≤ c.currentPacketNumber
  own : ∀ k r id, c.m k = some r → requestKey r = some id → id = k

variable {c t : Client}

theorem idRight_of_lt {f : Call} (hc : IdInv c) (hf : f.Allocates)
    (hlt : c.currentPacketNumber < 65535) : IdRight c f := by
  obtain ⟨t, ht, hadds⟩ := call_adds (c := c) hf
  have hne := nextId_ne_zero hc.count hlt
  refine ⟨t, _, c.nextId, ht, hadds.wire, hadds.key, hne, frameHasId_message hf hne, ?_⟩
  intro k r hr
  have hk : k ≠ c.nextId := by
    rintro rfl
    have hle := hc.keys _ r hr
    have hnat := toNat_nextId hc.count hlt
    omega
  refine ⟨fun hkey => hk (hc.own k r _ hr hkey).symm, ?_⟩
  rw [hadds.m, Table.set_of_ne hk, hr]

/-- The 65536th packet has the id 0. -/
theorem not_idRight_of_eq {f : Call} (hf : f.Allocates) (h : c.currentPacketNumber = 65535) :
    ¬ IdRight c f := by
  rintro ⟨t, message, id, ht, hw, hkey, hid, -⟩
  obtain ⟨u, hu, hadds⟩ := call_adds (c := c) hf
  obtain rfl : u = t := Except.ok.inj (hu.symm.trans ht)
  have hmessage : message = f.message c.nextId := by
    have hsnoc := List.append_cancel_left (hw.symm.trans hadds.wire)
    simpa using hsnoc
  rw [hmessage, hadds.key] at hkey
  apply hid
  rw [← Option.some.inj hkey, nextId, h]
  rfl

theorem idsRight_iff_below {e : Event} (hc : IdInv c) : IdsRight c e ↔ Below c e := by
  constructor
  · intro h f he hf
    by_contra hge
    have hle := hc.count_le
    exact not_idRight_of_eq hf (by omega) (h f he hf)
  · intro h f he hf
    exact idRight_of_lt hc hf (h f he hf)

theorem Adds.idInv {message : Message} (h : Adds c t message) (hc : IdInv c)
    (hlt : c.currentPacketNumber < 65535) : IdInv t := by
  have hcount := h.count
  have h0 := hc.count
  refine ⟨by omega, by omega, ?_, ?_⟩
  · intro k r hr
    rw [h.m, Table.set_apply] at hr
    split at hr
    · next hk =>
      have hnat := toNat_nextId h0 hlt
      rw [hk]
      omega
    · have hle := hc.keys k r hr
      omega
  · intro k r id hr hkey
    rw [h.m, Table.set_apply] at hr
    split at hr
    · next hk =>
      cases hr
      rw [hk]
      exact Option.some.inj (hkey.symm.trans h.key)
    · exact hc.own k r id hr hkey

theorem idInv_of_m (packetId : UInt16) (hc : IdInv c)
    (hm : t.m = c.m ∨ t.m = c.m.erase packetId)
    (hcount : t.currentPacketNumber = c.currentPacketNumber) : IdInv t := by
  have hsub : ∀ k r, t.m k = some r → c.m k = some r := by
    intro k r hr
    rcases hm with hm | hm
    · rwa [hm] at hr
    · rw [hm, Table.erase_apply] at hr
      split at hr
      · cases hr
      · exact hr
  refine ⟨by rw [hcount]; exact hc.count, by rw [hcount]; exact hc.count_le, ?_, ?_⟩
  · intro k r hr
    rw [hcount]
    exact hc.keys k r (hsub k r hr)
  · intro k r id hr hkey
    exact hc.own k r id (hsub k r hr) hkey

/-- A map with one entry under key 0, or with that entry set. -/
theorem idInv_set_zero {message : Message} (hc : IdInv c)
    (hkey : ∀ id, requestKey message = some id → id = 0)
    (hm : t.m = c.m.set 0 message ∨ t.m = (Table.empty.set 0 message : Table UInt16 Message))
    (hcount : t.currentPacketNumber = c.currentPacketNumber) : IdInv t := by
  have hsub : ∀ k r, t.m k = some r → (k = 0 ∧ r = message) ∨ c.m k = some r := by
    intro k r hr
    obtain hm | hm := hm <;> rw [hm, Table.set_apply] at hr <;> split at hr
    · next hk => exact .inl ⟨hk, (Option.some.inj hr).symm⟩
    · exact .inr hr
    · next hk => exact .inl ⟨hk, (Option.some.inj hr).symm⟩
    · cases hr
  refine ⟨by rw [hcount]; exact hc.count, by rw [hcount]; exact hc.count_le, ?_, ?_⟩
  · intro k r hr
    rw [hcount]
    obtain ⟨rfl, rfl⟩ | hr := hsub k r hr
    · exact hc.count
    · exact hc.keys k r hr
  · intro k r id hr hid
    rcases hsub k r hr with ⟨rfl, rfl⟩ | hr
    · exact hkey id hid
    · exact hc.own k r id hr hid

theorem step_idInv {e : Event} (hc : IdInv c) (hb : Below c e) (ht : step c e = .ok t) :
    IdInv t := by
  cases e with
  | receive p =>
    obtain ⟨u, hu, hm, -, hcount⟩ := processRx_eq p fun hp => connecter_of_processRx hp ht
    obtain rfl : u = t := Except.ok.inj (hu.symm.trans ht)
    refine idInv_of_m 0 hc ?_ hcount
    rw [hm]
    split
    · exact .inr rfl
    · exact .inl rfl
  | call f =>
    rcases call_cases f with ⟨account, rfl⟩ | ⟨content, topicName, retain, dup, rfl⟩ | hf
    · cases ht
      have hkey : ∀ id, requestKey (connectMessage account) = some id → id = 0 := by
        intro id hid
        cases hid
        rfl
      exact idInv_set_zero hc hkey (.inr rfl) rfl
    · cases ht
      have hkey : ∀ id,
          requestKey (publishMessage content topicName 0 retain dup 0) = some id → id = 0 := by
        intro id hid
        cases hid
      exact idInv_set_zero hc hkey (.inl rfl) rfl
    · obtain ⟨u, hu, hadds⟩ := call_adds (c := c) hf
      obtain rfl : u = t := Except.ok.inj (hu.symm.trans ht)
      exact hadds.idInv hc (hb f rfl hf)

theorem idInv_init : IdInv init := by
  refine ⟨Int.le_refl 0, by decide, ?_, ?_⟩
  · intro k r hr
    cases hr
  · intro k r id hr
    cases hr

/-- In runs of any length every request goes out with a new id if and only if each allocates
one of the first 65535. -/
theorem idsRight_iff (es : List Event) : Each step IdsRight init es ↔ Each step Below init es :=
  each_iff_each (I := IdInv) (G := fun _ _ => True)
    (fun _ _ _ hc h ht => step_idInv hc ((idsRight_iff_below hc).1 h) ht)
    (fun _ _ hc _ => idsRight_iff_below hc)
    idInv_init (each_of_forall fun _ _ _ => trivial)

/-! ### The 65536th PUBLISH -/

theorem run_replicate {f : Call} (hf : f.Allocates) (n : Nat) :
    ∃ t, run step init (.replicate n (.call f)) = .ok t ∧ t.currentPacketNumber = n := by
  induction n with
  | zero => exact ⟨init, rfl, rfl⟩
  | succ n ih =>
    obtain ⟨c, hc, hn⟩ := ih
    obtain ⟨t, ht, hadds⟩ := call_adds (c := c) hf
    refine ⟨t, ?_, by rw [hadds.count, hn]; rfl⟩
    have hstep : step c (.call f) = .ok t := ht
    rw [List.replicate_succ', run_append hc, run_cons hstep, run_nil]

/-- A sensor that publishes its 65536th value with QoS 1. -/
theorem publishes_not_idsRight :
    ¬ Each step IdsRight init
      (.replicate 65536 (.call (.sendPublish (.ofBytes [0x31]) (.ofBytes [0x74]) 1 0 0))) := by
  intro h
  have hf : (Call.sendPublish (.ofBytes [0x31]) (.ofBytes [0x74]) 1 0 0).Allocates := by
    show ((1 : Fin 3) : Nat) ≠ 0
    decide
  obtain ⟨t, ht, hn⟩ := run_replicate hf 65535
  rw [show 65536 = 65535 + 1 by rfl, List.replicate_succ'] at h
  exact not_idRight_of_eq hf hn (h _ _ t (List.prefix_refl _) ht _ rfl hf)

end Client

end IotClient.Mqtt
