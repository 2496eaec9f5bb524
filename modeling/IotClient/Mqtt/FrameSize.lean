import Mathlib.Algebra.BigOperators.Group.List.Basic
import Mathlib.Algebra.Group.Action.Defs
import IotClient.Mqtt.Encoding

/-!
# The three sizes of an MQTT frame

The client hands `get_length(m) + 2` bytes to the socket, `encode` allocates as many, and the
remaining length it writes says how many follow it. `SizesAgree` says that these three agree
with what `encode` really writes. `sizesAgree_iff` says when: the remaining length takes one
byte, a will has content, and a SUBSCRIBE has at most one topic.
-/

namespace IotClient.Mqtt

open Mem

/-- The remaining length at the start of a block: its value and the number of its bytes. -/
def lengthField : Block → Option (Nat × Nat)
  | some x :: b =>
    if x < 128 then some (x.toNat, 1)
    else (lengthField b).map fun (v, k) => (x.toNat - 128 + 128 * v, k + 1)
  | _ => none

/-- `encode` stays inside the `length + 2` bytes it allocates, fills all of them, which are
handed to the socket, and the remaining length counts the bytes that follow it. -/
def SizesAgree (m : Message) : Prop :=
  ∃ length buf, getLength m = .ok length ∧ encode m length = .ok buf ∧
    buf.written = length + 2 ∧
    ∃ v k, lengthField (buf.drop 1) = some (v, k) ∧ buf.written = 1 + k + v

theorem or_high {n : Nat} (h : n < 128) : (UInt8.ofNat n ||| 128).toNat = n + 128 := by
  have hall : ∀ x : UInt8, x < 128 → (x ||| 128).toNat = x.toNat + 128 := by decide +kernel
  have hn : (UInt8.ofNat n).toNat = n := toNat_ofNat_of_lt (by omega)
  rw [hall _ (by rw [UInt8.lt_iff_toNat_lt, hn]; exact h), hn]

theorem lengthField_lengthBytes (l : Nat) (b : Block) :
    lengthField ((lengthBytes l).map some ++ b) = some (l, (lengthBytes l).length) := by
  induction l using Nat.strongRecOn with
  | ind l ih =>
    rcases Nat.lt_or_ge l 128 with h | h
    · have hl : (UInt8.ofNat l).toNat = l := toNat_ofNat_of_lt (by omega)
      have hlt : UInt8.ofNat l < 128 := by rw [UInt8.lt_iff_toNat_lt, hl]; exact h
      rw [lengthBytes_short h]
      simp [lengthField, hlt, hl]
    · have hx : (UInt8.ofNat (l % 128) ||| 128).toNat = l % 128 + 128 := or_high (by omega)
      have hge : ¬ (UInt8.ofNat (l % 128) ||| 128) < 128 := by
        rw [UInt8.lt_iff_toNat_lt, hx]
        show ¬ _ < 128
        omega
      have hsum : l % 128 + 128 - 128 + 128 * (l / 128) = l := by omega
      rw [lengthBytes_long h, List.map_cons, List.cons_append, lengthField, if_neg hge,
        ih (l / 128) (by omega), hx]
      simp only [Option.map_some, hsum, List.length_cons]

/-- A frame whose remaining length is `l` has consistent sizes exactly when that length takes
one byte and is the number of bytes behind it. -/
theorem frame_agrees_iff {x : UInt8} {body : List UInt8} {l : Nat} :
    (∃ buf, emittedBlock (l + 2) (x :: (lengthBytes l ++ body)) = .ok buf ∧
      buf.written = l + 2 ∧
      ∃ v k, lengthField (buf.drop 1) = some (v, k) ∧ buf.written = 1 + k + v) ↔
    l ≤ 127 ∧ body.length = l := by
  have hfield : ∀ k : Nat, lengthField ((Block.part (x :: (lengthBytes l ++ body)) k).drop 1) =
      some (l, (lengthBytes l).length) := by
    intro k
    rw [← lengthField_lengthBytes l (Block.part body k)]
    simp [Block.part]
  have hsize : (x :: (lengthBytes l ++ body)).length = (lengthBytes l).length + body.length + 1 := by
    rw [List.length_cons, List.length_append]
  constructor
  · rintro ⟨buf, hbuf, hwritten, v, k, hvk, htotal⟩
    unfold emittedBlock at hbuf
    split at hbuf
    · cases hbuf
      rw [hfield] at hvk
      cases hvk
      rw [Block.written_part, hsize] at hwritten htotal
      have hone : (lengthBytes l).length = 1 := by omega
      have hlt := length_lengthBytes_eq_one.mp hone
      omega
    · cases hbuf
  · rintro ⟨hl, hbody⟩
    have hone : (lengthBytes l).length = 1 := length_lengthBytes_eq_one.mpr (by omega)
    refine ⟨_, if_pos (by omega), ?_, l, 1, ?_, ?_⟩
    · rw [Block.written_part, hsize]; omega
    · rw [hfield, hone]
    · rw [Block.written_part, hsize]; omega

/-! ### The messages the client sends -/

def IsString (p : Ptr CString) : Prop := ∃ s, p = .ref s

/-- A topic: a string that is not empty. -/
def IsName (p : Ptr CString) : Prop := ∃ s : CString, p = .ref s ∧ s.bytes ≠ []

/-- The length of a string, 0 where there is none. -/
def lengthOf : Ptr CString → Nat
  | .ref s => s.bytes.length
  | _ => 0

@[simp] theorem lengthOf_ref (s : CString) : lengthOf (.ref s) = s.bytes.length := rfl

/-- A message as the client builds it, with any strings and numbers, and topics that are not
empty. -/
def Sendable : Message → Prop
  | ⟨.is .connect, .ref (.connect c)⟩ =>
    IsString c.clientId ∧ IsString c.username ∧ IsString c.password ∧
      (c.willFlag ≠ 0 →
        IsName c.will.topic.topicName ∧ (∃ qos, c.will.topic.qos = .is qos) ∧
          IsString c.will.content)
  | ⟨.is .publish, .ref (.publish p)⟩ =>
    IsName p.topic.topicName ∧ (∃ qos, p.topic.qos = .is qos) ∧ IsString p.content ∧
      ∃ packetId, p.packetId = .is packetId
  | ⟨.is .subscribe, .ref (.subscribe s)⟩ =>
    ∃ fs, s.topics = .ref (filtersOf fs) ∧ s.topicsNumber = fs.length ∧
      ∀ f ∈ fs, f.1.bytes ≠ []
  | ⟨.is .unsubscribe, .ref (.unsubscribe us)⟩ =>
    ∃ fs, us.topics = .ref (topicsOf fs) ∧ us.topicsNumber = .is fs.length ∧
      ∀ f ∈ fs, f.1.bytes ≠ []
  | ⟨.is .puback, .ref (.puback _)⟩ | ⟨.is .pubrec, .ref (.pubrec _)⟩
  | ⟨.is .pubrel, .ref (.pubrel _)⟩ | ⟨.is .pubcomp, .ref (.pubcomp _)⟩
  | ⟨.is .pingreq, .indet⟩ | ⟨.is .disconnect, .indet⟩ => True
  | _ => False

/-- The bytes of the variable header and payload a message needs, from the lengths of its
strings. -/
def bodySize : Message → Nat
  | ⟨.is .connect, .ref (.connect c)⟩ =>
    10 + (lengthOf c.clientId + 2) +
      (if c.willFlag ≠ 0 then lengthOf c.will.content + lengthOf c.will.topic.topicName + 4
        else 0) +
      fieldSize (lengthOf c.username) + fieldSize (lengthOf c.password)
  | ⟨.is .publish, .ref (.publish p)⟩ =>
    (if p.packetId ≠ .is 0 then 2 else 0) + (lengthOf p.topic.topicName + 2) + lengthOf p.content
  | ⟨.is .subscribe, .ref (.subscribe ⟨.ref ts, _, _⟩)⟩ =>
    2 + (ts.map fun t => lengthOf t.topicName + 3).sum
  | ⟨.is .unsubscribe, .ref (.unsubscribe ⟨_, .ref ts, _⟩)⟩ =>
    2 + (ts.map fun t => lengthOf t.topicName + 2).sum
  | ⟨.is .pingreq, _⟩ | ⟨.is .disconnect, _⟩ => 0
  | _ => 2

/-- The one-byte lengths, less a will without content and a SUBSCRIBE of several topics. -/
def FitsOneByte (m : Message) : Prop :=
  bodySize m ≤ 127 ∧
    match m.packet with
    | .ref (.connect c) => c.willFlag ≠ 0 → lengthOf c.will.content ≠ 0
    | .ref (.subscribe s) => s.topicsNumber ≤ 1
    | _ => True

/-- A message of one type: its `get_length` and its frame decide `SizesAgree`. -/
theorem sizesAgree_of_frame {m : Message} {l : Nat} {x : UInt8} {body : List UInt8}
    (hl : getLength m = .ok l)
    (he : encode m l = emittedBlock (l + 2) (x :: (lengthBytes l ++ body))) :
    SizesAgree m ↔ l ≤ 127 ∧ body.length = l := by
  rw [← frame_agrees_iff (x := x)]
  constructor
  · rintro ⟨l', buf, hl', hbuf, h⟩
    obtain rfl : l = l' := by rw [hl] at hl'; cases hl'; rfl
    exact ⟨buf, he ▸ hbuf, h⟩
  · rintro ⟨buf, hbuf, h⟩
    exact ⟨l, buf, hl, he.trans hbuf, h⟩

/-! ### CONNECT -/

theorem connectFlags_ok {c : Connect} (s : ConnectStrings c)
    (hq : c.willFlag ≠ 0 → ∃ qos, c.will.topic.qos = .is qos) : ∃ b, connectFlags c = .ok b := by
  unfold connectFlags
  rw [s.username_eq, s.password_eq]
  by_cases hw : c.willFlag ≠ 0
  · obtain ⟨qos, hqos⟩ := hq hw
    exact ⟨_, by rw [if_pos hw, hqos]; rfl⟩
  · exact ⟨_, by rw [if_neg hw]; rfl⟩

theorem getLength_connect {c : Connect} (s : ConnectStrings c) :
    getLength ⟨.is .connect, .ref (.connect c)⟩ =
      .ok (bodySize ⟨.is .connect, .ref (.connect c)⟩) := by
  simp only [getLength, bodySize, Cell.get_is, Ptr.deref_ref, ok_bind, Packet.asConnect,
    s.clientId_eq, s.username_eq, s.password_eq, strlen_ref, lengthOf_ref, fieldSize]
  by_cases hw : c.willFlag ≠ 0
  · simp only [if_pos hw, s.topicName_eq hw, s.content_eq hw, strlen_ref, ok_bind, pure_eq_ok,
      lengthOf_ref, Nat.add_assoc]
  · simp only [if_neg hw, ok_bind, pure_eq_ok, Nat.add_assoc, Nat.zero_add]

theorem length_connectBody {c : Connect} (s : ConnectStrings c) (contentFlags : UInt8) :
    (connectBody c s contentFlags).length = 12 + s.clientId.bytes.length % 65536 +
      (if c.willFlag ≠ 0 then (stringField s.topicName).length + (stringField s.content).length
        else 0) +
      (stringField s.username).length + (stringField s.password).length := by
  have hmod : (UInt16.ofNat s.clientId.strlen).toNat = s.clientId.bytes.length % 65536 :=
    UInt16.toNat_ofNat
  have hle := Nat.mod_le s.clientId.bytes.length 65536
  simp only [connectBody, hmod, List.length_take, List.length_cons, List.length_append,
    length_shortBytes, PROTOCOL_NAME]
  split <;> simp only [List.length_append, List.length_nil] <;> omega

theorem connect_sizesAgree {c : Connect} (s : ConnectStrings c)
    (hq : c.willFlag ≠ 0 → ∃ qos, c.will.topic.qos = .is qos)
    (hname : c.willFlag ≠ 0 → s.topicName.bytes ≠ []) :
    SizesAgree ⟨.is .connect, .ref (.connect c)⟩ ↔
      FitsOneByte ⟨.is .connect, .ref (.connect c)⟩ := by
  obtain ⟨b, hb⟩ := connectFlags_ok s hq
  rw [sizesAgree_of_frame (getLength_connect s)
    ((encode_connect _ c).trans (encodeConnect_block s hb)), FitsOneByte]
  refine and_congr_right fun hl => ?_
  simp only [bodySize, s.clientId_eq, s.username_eq, s.password_eq, lengthOf_ref] at hl ⊢
  have hu := le_fieldSize s.username.bytes.length
  have hp := le_fieldSize s.password.bytes.length
  rw [length_connectBody s b, Nat.mod_eq_of_lt (show s.clientId.bytes.length < 65536 by omega),
    length_stringField (s := s.username) (by omega),
    length_stringField (s := s.password) (by omega)]
  by_cases hw : c.willFlag ≠ 0
  · have hne : s.topicName.bytes.length ≠ 0 := fun h0 =>
      hname hw (List.eq_nil_of_length_eq_zero h0)
    simp only [s.topicName_eq hw, s.content_eq hw, lengthOf_ref, hw, if_true, true_imp_iff,
      not_false_eq_true, ne_eq] at hl ⊢
    rw [length_stringField (s := s.topicName) (by omega),
      length_stringField (s := s.content) (by omega), fieldSize_of_ne hne]
    by_cases h0 : s.content.bytes.length = 0
    · have hnone : fieldSize 0 = 0 := rfl
      rw [h0, hnone]
      omega
    · rw [fieldSize_of_ne h0]
      omega
  · simp only [if_neg hw]
    simp only [hw, false_imp_iff, iff_true]
    omega

/-! ### PUBLISH -/

theorem getLength_publish_ref {p : Publish} {topicName content : CString} {qos : Nat}
    {packetId : UInt16} (ht : p.topic = ⟨.ref topicName, .is qos⟩) (hc : p.content = .ref content)
    (hid : p.packetId = .is packetId) :
    getLength ⟨.is .publish, .ref (.publish p)⟩ =
      .ok (bodySize ⟨.is .publish, .ref (.publish p)⟩) := by
  simp only [getLength, bodySize, Cell.get_is, Ptr.deref_ref, ok_bind, Packet.asPublish, ht, hc,
    hid, strlen_ref, pure_eq_ok, lengthOf_ref, ne_eq, Cell.is.injEq, Nat.add_assoc]

theorem publish_sizesAgree {p : Publish} (hname : IsName p.topic.topicName)
    (hq : ∃ qos, p.topic.qos = .is qos) (hc : IsString p.content)
    (hid : ∃ packetId, p.packetId = .is packetId) :
    SizesAgree ⟨.is .publish, .ref (.publish p)⟩ ↔
      FitsOneByte ⟨.is .publish, .ref (.publish p)⟩ := by
  obtain ⟨topicName, htopic, hne⟩ := hname
  obtain ⟨qos, hq⟩ := hq
  obtain ⟨content, hc⟩ := hc
  obtain ⟨packetId, hid⟩ := hid
  have ht : p.topic = ⟨.ref topicName, .is qos⟩ := by rw [← htopic, ← hq]
  rw [sizesAgree_of_frame (getLength_publish_ref ht hc hid)
    ((encode_publish _ p).trans (encodePublish_block ht hc hid)), FitsOneByte]
  refine and_congr_right fun hl => ?_
  simp only [bodySize, ht, hc, hid, lengthOf_ref, ne_eq, Cell.is.injEq, iff_true] at hl ⊢
  unfold publishBody
  rw [stringField_short (by omega) hne]
  simp only [List.length_append, length_shortBytes]
  by_cases h0 : packetId = 0
  · simp only [h0, not_true_eq_false, ne_eq, if_false, List.length_nil]
    omega
  · simp only [h0, not_false_eq_true, ne_eq, if_true, length_shortBytes]
    omega

/-! ### Topic lists -/

/-- The loop of `get_length` over topics that take `k` bytes besides their name. -/
theorem foldlM_topics (k : Nat) (fs : List (CString × Cell Nat)) (a : Nat) :
    (topicsOf fs).foldlM (m := Run)
        (fun length t => do pure (length + ((← strlen t.topicName) + k))) a =
      .ok (a + (fs.map fun f => f.1.bytes.length + k).sum) := by
  induction fs generalizing a with
  | nil => rfl
  | cons f fs ih =>
    unfold topicsOf
    rw [List.map_cons, List.foldlM_cons, strlen_ref, ok_bind, pure_eq_ok, ok_bind,
      ← topicsOf, ih, List.map_cons, List.sum_cons, Nat.add_assoc]

/-- Topics that fit into a short frame are written whole. -/
theorem length_flatMap_stringField (k : Nat) (fs : List (CString × Cell Nat))
    (hne : ∀ f ∈ fs, f.1.bytes ≠ [])
    (hl : (fs.map fun f => f.1.bytes.length + k).sum < 65536) :
    (fs.flatMap fun f => stringField f.1).length = (fs.map fun f => f.1.bytes.length + 2).sum := by
  induction fs with
  | nil => rfl
  | cons f fs ih =>
    rw [List.map_cons, List.sum_cons] at hl
    rw [List.flatMap_cons, List.length_append, ih (fun g hg => hne g (List.mem_cons_of_mem f hg))
      (by omega), stringField_short (by omega) (hne f List.mem_cons_self), List.length_append,
      length_shortBytes, List.map_cons, List.sum_cons, Nat.add_comm 2]

theorem elems_topicsOf (fs : List (CString × Cell Nat)) :
    (Ptr.ref (topicsOf fs)).elems fs.length = .ok (topicsOf fs) := by
  have hlen : fs.length = (topicsOf fs).length := by simp [topicsOf]
  rw [hlen]
  exact Ptr.elems_ref _

theorem getLength_unsubscribe {us : Unsubscribe} {fs : List (CString × Cell Nat)}
    (hts : us.topics = .ref (topicsOf fs)) (hn : us.topicsNumber = .is fs.length) :
    getLength ⟨.is .unsubscribe, .ref (.unsubscribe us)⟩ =
      .ok (2 + (fs.map fun f => f.1.bytes.length + 2).sum) := by
  rw [← foldlM_topics]
  simp only [getLength, Cell.get_is, Ptr.deref_ref, ok_bind, Packet.asUnsubscribe, hts, hn,
    elems_topicsOf]

theorem unsubscribe_sizesAgree {us : Unsubscribe} {fs : List (CString × Cell Nat)}
    (hts : us.topics = .ref (topicsOf fs)) (hn : us.topicsNumber = .is fs.length)
    (hne : ∀ f ∈ fs, f.1.bytes ≠ []) :
    SizesAgree ⟨.is .unsubscribe, .ref (.unsubscribe us)⟩ ↔
      FitsOneByte ⟨.is .unsubscribe, .ref (.unsubscribe us)⟩ := by
  have hsize : bodySize ⟨.is .unsubscribe, .ref (.unsubscribe us)⟩ =
      2 + (fs.map fun f => f.1.bytes.length + 2).sum := by
    obtain ⟨n, ts, id⟩ := us
    subst hts
    simp [bodySize, topicsOf, Function.comp_def]
  rw [sizesAgree_of_frame (getLength_unsubscribe hts hn)
    ((encode_unsubscribe _ us).trans (encodeUnsubscribe_block hts hn)), FitsOneByte, hsize]
  refine and_congr_right fun hl => ?_
  rw [List.length_append, length_shortBytes, length_flatMap_stringField 2 _ hne (by omega)]
  simp

theorem getLength_subscribe {s : Subscribe} {fs : List (CString × Nat)}
    (hts : s.topics = .ref (filtersOf fs)) (hn : s.topicsNumber = fs.length) :
    getLength ⟨.is .subscribe, .ref (.subscribe s)⟩ =
      .ok (2 + (fs.map fun f => f.1.bytes.length + 3).sum) := by
  have helems := elems_topicsOf (fs.map fun f => (f.1, .is f.2))
  have hfold := foldlM_topics 3 (fs.map fun f => (f.1, .is f.2)) 2
  rw [List.length_map] at helems
  simp only [List.map_map, Function.comp_def] at hfold
  rw [← hfold]
  simp only [getLength, Cell.get_is, Ptr.deref_ref, ok_bind, Packet.asSubscribe, hts, hn, filtersOf,
    helems]

/-- The names of a SUBSCRIBE that fits into a short frame are written whole. -/
theorem length_filters {fs : List (CString × Nat)} (hne : ∀ f ∈ fs, f.1.bytes ≠ [])
    (hl : (fs.map fun f => f.1.bytes.length + 3).sum < 65536) :
    (fs.flatMap fun f => stringField f.1).length = (fs.map fun f => f.1.bytes.length + 2).sum := by
  have hnames : ∀ f ∈ fs.map fun f => (f.1, Cell.is f.2), f.1.bytes ≠ [] := by
    intro f hf
    obtain ⟨g, hg, rfl⟩ := List.mem_map.mp hf
    exact hne g hg
  have hfields := length_flatMap_stringField 3 (fs.map fun f => (f.1, .is f.2)) hnames
  simp only [List.map_map, Function.comp_def, List.flatMap_map] at hfields
  exact hfields hl

/-- Each topic counts 3 bytes besides its name, and writes 2. -/
theorem sum_filters (fs : List (CString × Nat)) :
    (fs.map fun f => f.1.bytes.length + 3).sum =
      (fs.map fun f => f.1.bytes.length + 2).sum + fs.length := by
  simp only [List.sum_map_add, List.map_const', List.sum_replicate, smul_eq_mul]
  omega

theorem subscribe_sizesAgree {s : Subscribe} {fs : List (CString × Nat)}
    (hts : s.topics = .ref (filtersOf fs)) (hn : s.topicsNumber = fs.length)
    (hne : ∀ f ∈ fs, f.1.bytes ≠ []) :
    SizesAgree ⟨.is .subscribe, .ref (.subscribe s)⟩ ↔
      FitsOneByte ⟨.is .subscribe, .ref (.subscribe s)⟩ := by
  have hsize : bodySize ⟨.is .subscribe, .ref (.subscribe s)⟩ =
      2 + (fs.map fun f => f.1.bytes.length + 3).sum := by
    obtain ⟨ts, n, id⟩ := s
    subst hts
    simp [bodySize, filtersOf, topicsOf, Function.comp_def]
  rw [sizesAgree_of_frame (getLength_subscribe hts hn)
    ((encode_subscribe _ s).trans (encodeSubscribe_block hts hn)), FitsOneByte, hsize]
  refine and_congr_right fun hl => ?_
  rw [subscribeBody, List.length_append, List.length_append, length_shortBytes,
    length_filters hne (by omega), sum_filters]
  simp only [hn]
  rcases List.eq_nil_or_concat fs with rfl | ⟨fs', f, rfl⟩
  · simp
  · simp

/-! ### All messages -/

/-- An acknowledgement: `get_length` is 2, written as one length byte. -/
theorem id_sizesAgree {m : Message} {header : UInt8} {packetId : UInt16}
    (hl : getLength m = .ok 2) (he : encode m 2 = Enc.blockOf 4 (encodeId header packetId 2)) :
    SizesAgree m := by
  have hframe : encode m 2 =
      emittedBlock (2 + 2) (header :: (lengthBytes 2 ++ shortBytes packetId)) := by
    rw [he, encodeId_block, lengthBytes_short (by decide)]
    rfl
  exact (sizesAgree_of_frame hl hframe).mpr ⟨by decide, rfl⟩

theorem empty_sizesAgree {m : Message} {type : MessageType} (hl : getLength m = .ok 0)
    (he : encode m 0 = Enc.blockOf 2 (encodeEmpty type)) : SizesAgree m := by
  have hframe : encode m 0 =
      emittedBlock (0 + 2) ((type.toByte <<< 4 ||| 0x2) :: (lengthBytes 0 ++ [])) := by
    rw [he, encodeEmpty_block, lengthBytes_short (by decide)]
    rfl
  exact (sizesAgree_of_frame hl hframe).mpr ⟨by decide, rfl⟩

theorem sizesAgree_iff (m : Message) (h : Sendable m) : SizesAgree m ↔ FitsOneByte m := by
  unfold Sendable at h
  split at h
  case h_1 c =>
    obtain ⟨⟨clientId, hid⟩, ⟨username, hu⟩, ⟨password, hp⟩, hw⟩ := h
    by_cases hwill : c.willFlag ≠ 0
    · obtain ⟨⟨topicName, ht, hne⟩, hq, ⟨content, hc⟩⟩ := hw hwill
      exact connect_sizesAgree
        ⟨clientId, username, password, topicName, content, hid, hu, hp, fun _ => ht, fun _ => hc⟩
        (fun _ => hq) fun _ => hne
    · exact connect_sizesAgree ⟨clientId, username, password, ∅, ∅, hid, hu, hp,
        fun hw => absurd hw hwill, fun hw => absurd hw hwill⟩
        (fun hw => absurd hw hwill) fun hw => absurd hw hwill
  case h_2 p =>
    obtain ⟨hname, hq, hc, hid⟩ := h
    exact publish_sizesAgree hname hq hc hid
  case h_3 s =>
    obtain ⟨fs, hts, hn, hne⟩ := h
    exact subscribe_sizesAgree hts hn hne
  case h_4 us =>
    obtain ⟨fs, hts, hn, hne⟩ := h
    exact unsubscribe_sizesAgree hts hn hne
  case h_5 pa => exact iff_of_true (id_sizesAgree rfl rfl) ⟨(by decide : 2 ≤ 127), trivial⟩
  case h_6 pr => exact iff_of_true (id_sizesAgree rfl rfl) ⟨(by decide : 2 ≤ 127), trivial⟩
  case h_7 pl => exact iff_of_true (id_sizesAgree rfl rfl) ⟨(by decide : 2 ≤ 127), trivial⟩
  case h_8 pc => exact iff_of_true (id_sizesAgree rfl rfl) ⟨(by decide : 2 ≤ 127), trivial⟩
  case h_9 => exact iff_of_true (empty_sizesAgree rfl rfl) ⟨(by decide : 0 ≤ 127), trivial⟩
  case h_10 => exact iff_of_true (empty_sizesAgree rfl rfl) ⟨(by decide : 0 ≤ 127), trivial⟩
  case h_11 => exact h.elim

/-- A QoS 0 PUBLISH of `n` bytes on the topic `a`. -/
def publishOf (n : Nat) : Message := ⟨.is .publish, .ref (.publish {
  topic := ⟨.ref ⟨[0x61], by decide⟩, .is 0⟩
  content := .ref ⟨List.replicate n 0x62, by simp [List.mem_replicate]⟩
  retain := 0
  dup := 0
  packetId := .is 0 })⟩

theorem publishOf_sendable (n : Nat) : Sendable (publishOf n) :=
  ⟨⟨_, rfl, by decide⟩, ⟨0, rfl⟩, ⟨_, rfl⟩, ⟨0, rfl⟩⟩

theorem bodySize_publishOf (n : Nat) : bodySize (publishOf n) = 3 + n := by
  simp [bodySize, publishOf]

theorem sizesAgree_iff_publishOf :
    Sendable (publishOf 2) ∧ (SizesAgree (publishOf 2) ↔ FitsOneByte (publishOf 2)) ∧
      FitsOneByte (publishOf 2) :=
  ⟨publishOf_sendable 2, sizesAgree_iff _ (publishOf_sendable 2), by decide, trivial⟩

/-- A PUBLISH with a remaining length of 128: the length takes two bytes, and the last byte of
the content is written outside the block. -/
theorem publishOf_overflows : Sendable (publishOf 125) ∧ ¬ SizesAgree (publishOf 125) := by
  refine ⟨publishOf_sendable 125, fun h => ?_⟩
  have hp := (publish_sizesAgree ⟨_, rfl, by decide⟩ ⟨0, rfl⟩ ⟨_, rfl⟩ ⟨0, rfl⟩).mp h
  have hsize := hp.1
  have := bodySize_publishOf 125
  unfold publishOf at this
  omega

end IotClient.Mqtt
