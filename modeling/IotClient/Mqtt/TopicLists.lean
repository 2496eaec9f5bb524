import Mathlib.Algebra.Order.BigOperators.Group.List
import IotClient.Mqtt.FrameSize

/-!
# The bodies of SUBSCRIBE and UNSUBSCRIBE

`TopicRequest.body` is what MQTT 3.1.1 puts behind the fixed header of a SUBSCRIBE or UNSUBSCRIBE:
the packet id, then the topics in order. The QoS byte that `encode` writes does not advance its
cursor, so the next topic overwrites it. `bodyRight_iff`: an UNSUBSCRIBE is right, a SUBSCRIBE
exactly when it has one topic.
-/

namespace IotClient.Mqtt

open Mem

/-- A SUBSCRIBE of topics with their QoS, or an UNSUBSCRIBE, which does not look at the QoS. -/
inductive TopicRequest where
  | subscribe (packetId : UInt16) (topics : List (CString × Nat))
  | unsubscribe (packetId : UInt16) (topics : List (CString × Cell Nat))

/-- A string behind its length. -/
def lengthString (s : CString) : List UInt8 := shortBytes (UInt16.ofNat s.strlen) ++ s.bytes

@[simp] theorem length_lengthString (s : CString) :
    (lengthString s).length = s.bytes.length + 2 := by
  simp only [lengthString, List.length_append, length_shortBytes]
  omega

namespace TopicRequest

def names : TopicRequest → List CString
  | subscribe _ topics => topics.map (·.1)
  | unsubscribe _ topics => topics.map (·.1)

def message : TopicRequest → Message
  | subscribe packetId topics =>
    ⟨.is .subscribe, .ref (.subscribe ⟨.ref (filtersOf topics), topics.length, packetId⟩)⟩
  | unsubscribe packetId topics =>
    ⟨.is .unsubscribe, .ref (.unsubscribe ⟨.is topics.length, .ref (topicsOf topics), packetId⟩)⟩

/-- The variable header and payload. -/
def body : TopicRequest → List UInt8
  | subscribe packetId topics =>
    shortBytes packetId ++ topics.flatMap fun f => lengthString f.1 ++ [UInt8.ofNat f.2]
  | unsubscribe packetId topics => shortBytes packetId ++ topics.flatMap fun f => lengthString f.1

/-- There are topics, and none of them is empty. -/
structure Valid (r : TopicRequest) : Prop where
  names_ne : r.names ≠ []
  named : ∀ s ∈ r.names, s.bytes ≠ []

/-- `encode` fills the `get_length` bytes behind the fixed header with the body. -/
def BodyRight (r : TopicRequest) : Prop :=
  ∃ length buf, getLength r.message = .ok length ∧ encode r.message length = .ok buf ∧
    length = r.body.length ∧ buf.drop 2 = r.body.map some

/-- No SUBSCRIBE of several topics. -/
def SingleFilter : TopicRequest → Prop
  | subscribe _ topics => topics.length = 1
  | unsubscribe .. => True

instance : (r : TopicRequest) → Decidable r.SingleFilter
  | subscribe _ topics => inferInstanceAs (Decidable (topics.length = 1))
  | unsubscribe .. => isTrue trivial

/-! ### Sizes -/

theorem length_body_subscribe (packetId : UInt16) (topics : List (CString × Nat)) :
    (subscribe packetId topics).body.length =
      2 + (topics.map fun f => f.1.bytes.length + 3).sum := by
  simp only [body, List.length_append, length_shortBytes, List.length_flatMap, length_lengthString,
    List.length_singleton, Nat.add_assoc, Nat.reduceAdd]

theorem length_body_unsubscribe (packetId : UInt16) (topics : List (CString × Cell Nat)) :
    (unsubscribe packetId topics).body.length =
      2 + (topics.map fun f => f.1.bytes.length + 2).sum := by
  simp only [body, List.length_append, length_shortBytes, List.length_flatMap, length_lengthString]

theorem getLength_message (r : TopicRequest) : getLength r.message = .ok r.body.length := by
  cases r with
  | subscribe packetId topics =>
    rw [length_body_subscribe]
    exact getLength_subscribe rfl rfl
  | unsubscribe packetId topics =>
    rw [length_body_unsubscribe]
    exact getLength_unsubscribe rfl rfl

/-! ### The frames -/

/-- Names that are not empty are written with their lengths. -/
theorem flatMap_stringField {β : Type} {topics : List (CString × β)}
    (hne : ∀ f ∈ topics, f.1.bytes ≠ []) (hlt : ∀ f ∈ topics, f.1.bytes.length < 65536) :
    (topics.flatMap fun f => stringField f.1) = topics.flatMap fun f => lengthString f.1 := by
  refine List.flatMap_congr fun f hf => ?_
  exact stringField_short (hlt f hf) (hne f hf)

/-- A name is shorter than the body it is part of. -/
theorem name_lt {β : Type} {topics : List (CString × β)} {k n : Nat}
    (h : 2 + (topics.map fun f => f.1.bytes.length + k).sum ≤ n) (hn : n < 65536) :
    ∀ f ∈ topics, f.1.bytes.length < 65536 := by
  intro f hf
  have hmem := List.mem_map_of_mem (f := fun f : CString × β => f.1.bytes.length + k) hf
  have hle := List.le_sum_of_mem hmem
  omega

/-- What is written behind the fixed header decides whether the body is right. -/
theorem bodyRight_of_frame {r : TopicRequest} {x : UInt8} {out : List UInt8}
    (hl : r.body.length ≤ 127)
    (he : ∀ l, encode r.message l = emittedBlock (l + 2) (x :: (lengthBytes l ++ out)))
    (hout : out.length ≤ r.body.length) : r.BodyRight ↔ out = r.body := by
  have hblock : encode r.message r.body.length =
      .ok (Block.part (x :: UInt8.ofNat r.body.length :: out) (r.body.length - out.length)) := by
    rw [he, lengthBytes_short (by omega), emittedBlock, if_pos (by simp; omega)]
    congr 2
    simp only [List.length_cons, List.length_append, List.length_nil]
    omega
  have hdrop : (Block.part (x :: UInt8.ofNat r.body.length :: out)
      (r.body.length - out.length)).drop 2 =
      Block.part out (r.body.length - out.length) := rfl
  constructor
  · rintro ⟨length, buf, hlen, hbuf, rfl, hbody⟩
    rw [hblock] at hbuf
    obtain rfl := Except.ok.inj hbuf
    rw [hdrop] at hbody
    exact (Block.part_eq_map hbody).1
  · intro hright
    refine ⟨_, _, r.getLength_message, hblock, rfl, ?_⟩
    rw [hdrop, hright, Nat.sub_self, Block.part_zero]

theorem unsubscribe_right {packetId : UInt16} {topics : List (CString × Cell Nat)}
    (hne : ∀ f ∈ topics, f.1.bytes ≠ [])
    (hl : (unsubscribe packetId topics).body.length ≤ 127) :
    (unsubscribe packetId topics).BodyRight := by
  have hsize := length_body_unsubscribe packetId topics
  have hnames := flatMap_stringField hne (name_lt (hsize ▸ hl) (by omega))
  have hout : shortBytes packetId ++ (topics.flatMap fun f => stringField f.1) =
      (unsubscribe packetId topics).body := by rw [hnames]; rfl
  have hframe : ∀ l, encode (unsubscribe packetId topics).message l = emittedBlock (l + 2)
      (0xa2 :: (lengthBytes l ++ (shortBytes packetId ++ topics.flatMap fun f => stringField f.1))) :=
    fun l => (encode_unsubscribe l _).trans (encodeUnsubscribe_block rfl rfl)
  exact (bodyRight_of_frame hl hframe (by rw [hout])).2 hout

theorem subscribe_right_iff {packetId : UInt16} {topics : List (CString × Nat)}
    (hne : ∀ f ∈ topics, f.1.bytes ≠ []) (hpos : topics ≠ [])
    (hl : (subscribe packetId topics).body.length ≤ 127) :
    (subscribe packetId topics).BodyRight ↔ topics.length = 1 := by
  have hsize := length_body_subscribe packetId topics
  have hlt := name_lt (hsize ▸ hl) (by omega)
  have hsum := sum_filters topics
  have hwritten : (subscribeBody packetId topics).length =
      3 + (topics.map fun f => f.1.bytes.length + 2).sum := by
    obtain ⟨last, hlast⟩ := Option.ne_none_iff_exists'.1 (mt List.getLast?_eq_none_iff.1 hpos)
    rw [subscribeBody, List.length_append, List.length_append, length_shortBytes,
      length_filters hne (by omega), hlast]
    simp only [Option.map_some, Option.toList_some, List.length_singleton]
    omega
  have htopics := List.length_pos_of_ne_nil hpos
  have hframe : ∀ l, encode (subscribe packetId topics).message l = emittedBlock (l + 2)
      (0x82 :: (lengthBytes l ++ subscribeBody packetId topics)) :=
    fun l => (encode_subscribe l _).trans (encodeSubscribe_block rfl rfl)
  rw [bodyRight_of_frame hl hframe (by omega)]
  constructor
  · intro hout
    have hlen := congrArg List.length hout
    omega
  · intro hone
    obtain ⟨f, rfl⟩ := List.length_eq_one_iff.1 hone
    have hname : stringField f.1 = lengthString f.1 :=
      stringField_short (hlt f List.mem_cons_self) (hne f List.mem_cons_self)
    simp [subscribeBody, body, hname]

end TopicRequest

open TopicRequest

theorem bodyRight_iff (r : TopicRequest) (hv : r.Valid) (hl : r.body.length ≤ 127) :
    r.BodyRight ↔ r.SingleFilter := by
  obtain ⟨hpos, hne⟩ := hv
  cases r with
  | subscribe packetId topics =>
    refine subscribe_right_iff (fun f hf => hne _ (List.mem_map_of_mem hf)) ?_ hl
    exact fun hnil => hpos (hnil ▸ rfl)
  | unsubscribe packetId topics =>
    exact iff_of_true (unsubscribe_right (fun f hf => hne _ (List.mem_map_of_mem hf)) hl) trivial

theorem nulFree_a : (0 : UInt8) ∉ ([0x61] : List UInt8) := by decide

theorem nulFree_b : (0 : UInt8) ∉ ([0x62] : List UInt8) := by decide

/-- The topics `a` with QoS 1 and `b` with QoS 2. -/
def twoFilters : TopicRequest :=
  .subscribe 7 [(⟨[0x61], nulFree_a⟩, 1), (⟨[0x62], nulFree_b⟩, 2)]

theorem twoFilters_valid : twoFilters.Valid := ⟨by decide, by decide⟩

theorem bodyRight_iff_twoFilters :
    twoFilters.Valid ∧ twoFilters.body.length ≤ 127 ∧
      (twoFilters.BodyRight ↔ twoFilters.SingleFilter) :=
  ⟨twoFilters_valid, by decide, bodyRight_iff twoFilters twoFilters_valid (by decide)⟩

/-- The QoS of `a` is overwritten by the length of `b`, and the last byte is not written. -/
theorem twoFilters_not_right :
    twoFilters.Valid ∧ twoFilters.body.length ≤ 127 ∧ ¬ twoFilters.BodyRight := by
  refine ⟨twoFilters_valid, by decide, fun h => ?_⟩
  have hone := (subscribe_right_iff (by decide) (by decide) (by decide)).1 h
  exact absurd hone (by decide)

end IotClient.Mqtt
