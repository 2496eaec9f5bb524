import IotClient.Amqp.Client
import IotClient.Amqp.PacketFits

/-!
# What the client needs of the packets of a link

The arguments of a TRANSFER, DISPOSITION and DETACH that are read, and for each packet of a link
those whose fields `process_amqp_rx` uses are set.
-/

namespace IotClient.Amqp

open Mem

section Links

variable {list : TlvAmqp} {args : List TlvAmqp}

/-! ### TRANSFER -/

/-- The arguments that are read as a TRANSFER. -/
structure TransferReads (args : List TlvAmqp) : Prop where
  messageFormat : OptionalFits args 3 (·.Is uintTypes)
  rcvSettleMode : OptionalFits args 6 (·.Is [.ubyte])
  state : OptionalFits args 7 fun e => ∃ code, e.Described code

/-- `settled`: not set without its argument, `NULL` for a null. -/
def readSettled (list : TlvAmqp) : Run (Ptr Int) := given list 4 unwrapBool (pure .null) (pure .indet)

theorem readSettled_returns (h : Made list) (ha : Announces list args) :
    Returns (readSettled list) := by
  rcases given_cases h ha unwrapBool (pure .null) (pure .indet) with
    ⟨-, heq⟩ | ⟨e, -, hmade, ⟨-, heq⟩ | ⟨-, heq⟩⟩ <;> unfold readSettled <;> rw [heq]
  · exact returns_ok _
  · exact returns_ok _
  · exact unwrapBool_returns hmade

theorem given_bind {β γ : Type} {k : Nat} {x : TlvAmqp → Run β} {null absent : Run β}
    {f : β → Run γ} : given list k x null absent >>= f =
      given list k (fun e => x e >>= f) (null >>= f) (absent >>= f) := by
  unfold given
  cases list.count.deref with
  | error e => rfl
  | ok n =>
    simp only [ok_bind]
    split
    · cases list.element k with
      | error e => rfl
      | ok e =>
        simp only [ok_bind]
        cases e.code.get with
        | error e => rfl
        | ok code =>
          simp only [ok_bind]
          split <;> rfl
    · rfl

/-- What is read behind `settled`. -/
def readTransferRest (list : TlvAmqp) (handle deliveryId : Ptr Int) (deliveryTag : Ptr (List UInt8))
    (messageFormat : Ptr AmqpMessageFormat) (settled : Ptr Int) : Run (Option Packet) := do
  let more ← optional list 5 unwrapBool
  let rcvSettleMode ← optional list 6 (copied id unwrapUbyte)
  let state ← optional list 7 unwrapState
  let resume ← optional list 8 unwrapBool
  let aborted ← optional list 9 unwrapBool
  let batchable ← optional list 10 unwrapBool
  pure (some (.transfer { handle, deliveryId, deliveryTag, deliveryTagLength := .indet,
                          messageFormat, settled, more, rcvSettleMode, state, resume, aborted,
                          batchable, sections := .indet, sectionNumber := .indet }))

theorem readTransfer_eq : readTransfer list = (do
    let handle ← required list 0 unwrapUint
    let deliveryId ← optional list 1 unwrapUint
    let deliveryTag ← optional list 2 unwrapBinary
    let messageFormat ← optional list 3 (copied (fun m => ⟨.is m⟩) unwrapUint)
    let settled ← readSettled list
    readTransferRest list handle deliveryId deliveryTag messageFormat settled) := by
  simp only [readSettled, given_bind]
  rfl

theorem gives_readTransfer (h : Made list) :
    Gives (readTransfer list) ↔ ∃ args, Announces list args ∧ TransferReads args := by
  refine exists_announces_iff (fun ⟨p, hp⟩ => ?_) fun args ha => ?_
  · obtain ⟨handle, hhandle, -⟩ := bind_eq_ok.1 hp
    exact exists_announces_of_required h ⟨handle, hhandle⟩
  · rw [readTransfer_eq]
    refine Iff.trans (gives_skip (required_uint h ha) fun _ _ =>
      gives_skip (optional_uint h ha) fun _ _ => gives_skip (optional_binary h ha) fun _ _ =>
      gives_field (optional_uintCopy h ha) fun _ _ =>
      gives_skip (readSettled_returns h ha) fun _ _ =>
      gives_skip (optional_bool h ha) fun _ _ => gives_field (optional_ubyteCopy h ha) fun _ _ =>
      gives_field (optional_state h ha) fun _ _ => gives_skip (optional_bool h ha) fun _ _ =>
      gives_skip (optional_bool h ha) fun _ _ => gives_skip (optional_bool h ha) fun _ _ =>
      iff_true_intro (gives_some _)) ?_
    exact ⟨fun ⟨h3, h6, h7, _⟩ => ⟨h3, h6, h7⟩, fun ⟨h3, h6, h7⟩ => ⟨h3, h6, h7, trivial⟩⟩

/-- The fields of a TRANSFER that `process_amqp_rx` looks at, and one that nothing is assigned to. -/
theorem readTransfer_ok {p : Option Packet} (hp : readTransfer list = .ok p) : ∃ transfer,
    p = some (.transfer transfer) ∧ optional list 1 unwrapUint = .ok transfer.deliveryId ∧
      readSettled list = .ok transfer.settled ∧ transfer.deliveryTagLength = .indet := by
  rw [readTransfer_eq] at hp
  obtain ⟨handle, -, hp⟩ := bind_eq_ok.1 hp
  obtain ⟨deliveryId, hdelivery, hp⟩ := bind_eq_ok.1 hp
  obtain ⟨_, -, hp⟩ := bind_eq_ok.1 hp
  obtain ⟨_, -, hp⟩ := bind_eq_ok.1 hp
  obtain ⟨settled, hsettled, hp⟩ := bind_eq_ok.1 hp
  obtain ⟨_, -, hp⟩ := bind_eq_ok.1 hp
  obtain ⟨_, -, hp⟩ := bind_eq_ok.1 hp
  obtain ⟨_, -, hp⟩ := bind_eq_ok.1 hp
  obtain ⟨_, -, hp⟩ := bind_eq_ok.1 hp
  obtain ⟨_, -, hp⟩ := bind_eq_ok.1 hp
  obtain ⟨_, -, hp⟩ := bind_eq_ok.1 hp
  cases hp
  exact ⟨_, rfl, hdelivery, hsettled, rfl⟩

/-! ### DISPOSITION and DETACH -/

/-- The arguments that are read as a DISPOSITION. -/
structure DispositionReads (args : List TlvAmqp) : Prop where
  role : RequiredFits args 0 fun e => e.IsTrue ∨ e.IsFalse
  state : OptionalFits args 4 fun e => e.Is listTypes ∧ ∃ code, e.Described code

theorem nullFirst_eq_given :
    nullFirst list = given list 0 (fun _ => pure false) (pure true) (pure false) := by
  unfold nullFirst given
  cases list.count.deref with
  | error e => rfl
  | ok n =>
    simp only [ok_bind]
    split
    case isFalse hle => exact (if_neg (show ¬ n > ((0 : Nat) : Int) from hle)).symm
    case isTrue hgt =>
      rw [if_pos (show n > ((0 : Nat) : Int) from hgt)]
      cases list.element 0 with
      | error e => rfl
      | ok e =>
        simp only [ok_bind]
        cases e.code.get with
        | error e => rfl
        | ok code =>
          by_cases hnull : code = nullCode <;> simp [hnull]

/-- A null in the first place makes the function return early. -/
theorem gives_nullFirst {α : Type} {x : Run (Option α)} (h : Made list) (ha : Announces list args) :
    Gives (do if ← nullFirst list then pure none else x) ↔
      RequiredFits args 0 (¬ ·.Is [.amqpNull]) ∧ Gives x := by
  rw [nullFirst_eq_given]
  rcases given_cases h ha (fun _ => pure false) (pure true) (pure false) with
    ⟨hnone, heq⟩ | ⟨e, he, hmade, ⟨hnull, heq⟩ | ⟨hnull, heq⟩⟩ <;> rw [heq]
  · exact (and_iff_right (requiredFits_none hnone)).symm
  · rw [requiredFits_some he]
    exact iff_of_false not_gives_none fun hf => hf.1 hnull
  · rw [requiredFits_some he]
    exact (and_iff_right hnull).symm

theorem exists_announces_of_nullFirst (h : Made list) (hr : Returns (nullFirst list)) :
    ∃ args, Announces list args := by
  rw [nullFirst_eq_given] at hr
  exact exists_announces_of_first h hr

theorem gives_readDisposition (h : Made list) :
    Gives (readDisposition list) ↔ ∃ args, Announces list args ∧ DispositionReads args := by
  refine exists_announces_iff (fun ⟨p, hp⟩ => ?_) fun args ha => ?_
  · obtain ⟨b, hb, -⟩ := bind_eq_ok.1 hp
    exact exists_announces_of_nullFirst h ⟨b, hb⟩
  · have hstate : Gives (optionalList list 4 fun element => some <$> unwrapState element) ↔
        OptionalFits args 4 fun e => e.Is listTypes ∧ ∃ code, e.Described code := by
      refine given_iff (Q := Gives) h ha (gives_some _) fun e hmade => ?_
      rw [gives_ifList hmade, gives_map, unwrapState_returns]
    unfold readDisposition
    rw [gives_nullFirst h ha]
    refine Iff.trans (and_congr_right fun _ => gives_field (required_boolCopy h ha) fun _ _ =>
      gives_skip (required_uint h ha) fun _ _ => gives_skip (optional_uint h ha) fun _ _ =>
      gives_skip (optional_bool h ha) fun _ _ => gives_nested hstate fun _ _ =>
      gives_skip (optional_bool h ha) fun _ _ => iff_true_intro (gives_some _)) ?_
    exact ⟨fun ⟨_, h0, h4, _⟩ => ⟨h0, h4⟩, fun ⟨h0, h4⟩ =>
      ⟨fun e he => bool_ne_null (h0 e he), h0, h4, trivial⟩⟩

theorem readDisposition_ok {p : Packet} (hp : readDisposition list = .ok (some p)) :
    ∃ disposition, p = .disposition disposition ∧
      required list 1 unwrapUint = .ok disposition.first := by
  obtain ⟨-, hp⟩ := unless_eq_ok hp
  obtain ⟨_, -, hp⟩ := bind_eq_ok.1 hp
  obtain ⟨first, hfirst, hp⟩ := bind_eq_ok.1 hp
  obtain ⟨_, -, hp⟩ := bind_eq_ok.1 hp
  obtain ⟨_, -, hp⟩ := bind_eq_ok.1 hp
  obtain ⟨state, -, hp⟩ := nested_eq_ok hp
  obtain ⟨_, -, hp⟩ := bind_eq_ok.1 hp
  cases hp
  exact ⟨_, rfl, hfirst⟩

theorem Announces.list_eq (ha : Announces list args) (hne : args ≠ []) : list.list = .ref args := by
  obtain ⟨n, -, -, rfl | hlist⟩ := ha
  · exact absurd rfl hne
  · exact hlist

/-- The arguments of an error are looked up beyond the three of the DETACH. -/
theorem readError_returns (ha : Announces list args) (hlen : args.length = 3) {e : TlvAmqp}
    (he : args[2]? = some e) : Returns (readError list) ↔ ∃ n, e.count = .ref n ∧ n ≤ 0 := by
  obtain ⟨hlt, rfl⟩ := List.getElem?_eq_some_iff.1 he
  have hlist := ha.list_eq (List.ne_nil_of_length_pos (by omega))
  have hbeyond : list.element 5 = .error .readOut := by
    unfold TlvAmqp.element
    rw [hlist, Ptr.deref_ref, ok_bind, List.getElem?_eq_none (by omega)]
  have hargument {α : Type} {n : Int} (hn : args[2].count = .ref n) (k : Nat)
      (unwrap : TlvAmqp → Run (Ptr α)) : errorArgument list k unwrap =
        if n > k then .error .readOut else .ok .indet := by
    unfold errorArgument
    rw [ha.element hlt, ok_bind, hn, Ptr.deref_ref, ok_bind]
    split
    · rw [hbeyond]
      rfl
    · rfl
  unfold readError
  cases hcount : args[2].count with
  | indet | null =>
    refine iff_of_false ?_ fun ⟨n, hn, _⟩ => by cases hn
    refine not_returns_bind ?_
    unfold errorArgument
    rw [ha.element hlt, ok_bind, hcount]
    exact not_returns_error _
  | ref n =>
    simp only [Ptr.ref.injEq, exists_eq_left']
    rw [hargument hcount, hargument hcount, hargument hcount]
    by_cases hpos : n > 0
    · rw [if_pos (show n > ((0 : Nat) : Int) from hpos)]
      exact iff_of_false (not_returns_error _) (by omega)
    · rw [if_neg (by omega), if_neg (by omega), if_neg (by omega)]
      exact iff_of_true (returns_ok _) (by omega)

theorem gives_readDetachError (h : Made list) (ha : Announces list args) (hlen : args.length ≤ 3) :
    Gives (readDetachError list) ↔ RequiredFits args 2 fun e => OptionalFits args 1 fun closed =>
      closed.Is listTypes ∧ ∃ n, e.count = .ref n ∧ n ≤ 0 := by
  obtain ⟨n, hn, hgt⟩ := ha.count_gt 2
  by_cases hthree : 2 < args.length
  · have he : args[2]? = some args[2] := List.getElem?_eq_getElem hthree
    have heq : readDetachError list = given list 1 (fun element => do
        if ← element.isList then (fun error => some (.ref error)) <$> readError list
        else pure none) (pure (some .indet)) (pure (some .indet)) := by
      unfold readDetachError given
      rw [hn, Ptr.deref_ref, ok_bind, ok_bind, if_pos (show n > 2 by omega),
        if_pos (show n > ((1 : Nat) : Int) by omega)]
    rw [heq, requiredFits_some he]
    refine given_iff (Q := Gives) h ha (gives_some _) fun closed hmade => ?_
    rw [gives_ifList hmade, ← readError_returns ha (by omega) he]
    refine and_congr_right fun _ => ?_
    cases readError list with
    | error f => exact iff_of_false (fun ⟨_, hp⟩ => by cases hp) (not_returns_error f)
    | ok error => exact iff_of_true ⟨_, rfl⟩ (returns_ok error)
  · unfold readDetachError
    rw [hn, Ptr.deref_ref, ok_bind, if_neg (show ¬ n > 2 by omega)]
    exact iff_of_true (gives_some _) (requiredFits_none (List.getElem?_eq_none (by omega)))

/-- A DETACH that was read has at most three arguments. -/
theorem readDetach_ok {p : Packet} (hp : readDetach list = .ok (some p)) :
    ∃ detach, p = .detach detach ∧ required list 0 unwrapUint = .ok detach.handle ∧
      readDetachError list = .ok (some detach.error) ∧ ∃ n, list.count = .ref n ∧ n ≤ 3 := by
  obtain ⟨n, hn, hrange, hp⟩ := counted_eq_ok hp
  obtain ⟨-, hp⟩ := unless_eq_ok hp
  obtain ⟨handle, hhandle, hp⟩ := bind_eq_ok.1 hp
  obtain ⟨_, -, hp⟩ := bind_eq_ok.1 hp
  obtain ⟨error, herror, hp⟩ := nested_eq_ok hp
  cases hp
  exact ⟨_, rfl, hhandle, herror, n, hn, by omega⟩

/-- The arguments of a DETACH whose handle was read. An error is looked for when `closed` is a list,
in the third argument, which must then be empty. -/
structure DetachFits (args : List TlvAmqp) : Prop where
  length_le : args.length ≤ 3
  handle : ∃ e ∈ args[0]?, e.Is uintTypes
  error : RequiredFits args 2 fun e => OptionalFits args 1 fun closed =>
    closed.Is listTypes ∧ ∃ n, e.count = .ref n ∧ n ≤ 0

/-- A required unsigned integer that was read. -/
theorem required_uint_deref (h : Made list) (ha : Announces list args) {k : Nat} {p : Ptr Int}
    (hp : required list k unwrapUint = .ok p) :
    Returns p.deref ↔ ∃ e ∈ args[k]?, e.Is uintTypes :=
  required_deref h ha (fun _ => unwrapUint_deref) hp

theorem uint_ne_null {e : TlvAmqp} (his : e.Is uintTypes) : ¬ e.Is [.amqpNull] := by
  obtain ⟨t, ht, hcode⟩ := his
  intro hnull
  rw [is_singleton, hcode, Cell.is.injEq] at hnull
  simp only [uintTypes, List.mem_cons, List.not_mem_nil, or_false] at ht
  rcases ht with rfl | rfl | rfl <;> exact absurd hnull (by decide)

theorem gives_readDetach (h : Made list) (ha : Announces list args) (hpos : 0 < args.length) :
    Gives (readDetach list) ↔ args.length ≤ 3 ∧ RequiredFits args 0 (¬ ·.Is [.amqpNull]) ∧
      RequiredFits args 2 fun e => OptionalFits args 1 fun closed =>
        closed.Is listTypes ∧ ∃ n, e.count = .ref n ∧ n ≤ 0 := by
  obtain ⟨n, hn, hlen, -⟩ := id ha
  unfold readDetach
  rw [hn, Ptr.deref_ref, ok_bind]
  by_cases hle : args.length ≤ 3
  · rw [if_neg (by omega), gives_nullFirst h ha, and_iff_right hle]
    exact and_congr_right fun _ => Iff.trans (gives_skip (required_uint h ha) fun _ _ =>
      gives_skip (optional_bool h ha) fun _ _ =>
      gives_nested (gives_readDetachError h ha hle) fun _ _ => iff_true_intro (gives_some _))
        (iff_of_eq (and_true _))
  · rw [if_pos (by omega)]
    exact iff_of_false not_gives_none fun hf => hle hf.1

/-- A DETACH with a handle. -/
theorem readDetach_handle (h : Made list) :
    (∃ detach, readDetach list = .ok (some (.detach detach)) ∧ Returns detach.handle.deref) ↔
      ∃ args, Announces list args ∧ DetachFits args := by
  constructor
  · rintro ⟨detach, hd, hhandle⟩
    obtain ⟨args, ha⟩ : ∃ args, Announces list args := by
      obtain ⟨n, -, -, hp⟩ := counted_eq_ok hd
      obtain ⟨hb, -⟩ := unless_eq_ok hp
      exact exists_announces_of_nullFirst h ⟨false, hb⟩
    obtain ⟨_, heq, hrequired, -⟩ := readDetach_ok hd
    cases heq
    obtain ⟨e, he, his⟩ := (required_uint_deref h ha hrequired).1 hhandle
    obtain ⟨hpos, -⟩ := List.getElem?_eq_some_iff.1 he
    obtain ⟨hle, -, herror⟩ := (gives_readDetach h ha hpos).1 ⟨_, hd⟩
    exact ⟨args, ha, hle, ⟨e, he, his⟩, herror⟩
  · rintro ⟨args, ha, hle, ⟨e, he, his⟩, herror⟩
    obtain ⟨hpos, -⟩ := List.getElem?_eq_some_iff.1 he
    obtain ⟨p, hp⟩ := (gives_readDetach h ha hpos).2
      ⟨hle, (requiredFits_some he).2 (uint_ne_null his), herror⟩
    obtain ⟨detach, rfl, hrequired, -⟩ := readDetach_ok hp
    exact ⟨detach, hp, (required_uint_deref h ha hrequired).2 ⟨e, he, his⟩⟩

/-! ### What `process_amqp_rx` looks at -/

structure DispositionFits (args : List TlvAmqp) : Prop extends DispositionReads args where
  first : ∃ e ∈ args[1]?, e.Is uintTypes

/-- A DISPOSITION with a first delivery id. -/
theorem readDisposition_first (h : Made list) :
    (∃ disposition, readDisposition list = .ok (some (.disposition disposition)) ∧
        Returns disposition.first.deref) ↔
      ∃ args, Announces list args ∧ DispositionFits args := by
  constructor
  · rintro ⟨disposition, hd, hfirst⟩
    obtain ⟨args, ha, hreads⟩ := (gives_readDisposition h).1 ⟨_, hd⟩
    obtain ⟨_, heq, hrequired⟩ := readDisposition_ok hd
    cases heq
    exact ⟨args, ha, hreads, (required_uint_deref h ha hrequired).1 hfirst⟩
  · rintro ⟨args, ha, hreads, hfirst⟩
    obtain ⟨p, hp⟩ := (gives_readDisposition h).2 ⟨args, ha, hreads⟩
    obtain ⟨disposition, rfl, hrequired⟩ := readDisposition_ok hp
    exact ⟨disposition, hp, (required_uint_deref h ha hrequired).2 hfirst⟩

/-- The name of an ATTACH is used whatever its role is, the handle of a sender only. -/
structure AttachFits (args : List TlvAmqp) : Prop extends AttachReads args where
  shortName : RequiredFits args 0 (·.Is [.string8])
  handle : RequiredFits args 2 fun e => e.IsFalse → RequiredFits args 1 (·.Is uintTypes)

/-- The fields of an ATTACH are set that the client uses. -/
structure AttachSet (attach : AmqpAttach) : Prop where
  role : ∃ role, attach.role = .ref role
  name : Returns attach.name.deref
  handle : attach.role = .ref .sender → Returns attach.handle.deref

theorem readAttach_set (h : Made list) :
    (∃ attach, readAttach list = .ok (some (.attach attach)) ∧ AttachSet attach) ↔
      ∃ args, Announces list args ∧ AttachFits args := by
  have hset {args attach} (ha : Announces list args) (hreads : AttachReads args)
      (hp : readAttach list = .ok (some (.attach attach))) : AttachSet attach ↔
        RequiredFits args 0 (·.Is [.string8]) ∧
          RequiredFits args 2 fun e => e.IsFalse → RequiredFits args 1 (·.Is uintTypes) := by
    obtain ⟨_, heq, hname, hhandle, hrole, -⟩ := readAttach_ok hp
    cases heq
    have hlen := hreads.length_ge
    have h0 : args[0]? = some args[0] := List.getElem?_eq_getElem (by omega)
    have h1 : args[1]? = some args[1] := List.getElem?_eq_getElem (by omega)
    have h2 : args[2]? = some args[2] := List.getElem?_eq_getElem (by omega)
    have hnamed : Returns attach.name.deref ↔ RequiredFits args 0 (·.Is [.string8]) := by
      rw [required_deref h ha (fun _ => unwrapString_deref) hname, requiredFits_some h0,
        mem_argument_some h0]
    have hhandled : Returns attach.handle.deref ↔ RequiredFits args 1 (·.Is uintTypes) := by
      rw [required_uint_deref h ha hhandle, requiredFits_some h1, mem_argument_some h1]
    rw [← hnamed, requiredFits_some h2, ← hhandled]
    rcases role_cases h ha h2 hrole with ⟨hreceiver, -, hfalse⟩ | ⟨hsender, hfalse, -⟩
    · refine ⟨fun hs => ⟨hs.name, fun hf => absurd hf hfalse⟩, fun hs => ⟨⟨_, hreceiver⟩, hs.1, ?_⟩⟩
      intro hsender
      rw [hreceiver] at hsender
      cases hsender
    · exact ⟨fun hs => ⟨hs.name, fun _ => hs.handle hsender⟩,
        fun hs => ⟨⟨_, hsender⟩, hs.1, fun _ => hs.2 hfalse⟩⟩
  constructor
  · rintro ⟨attach, hp, hs⟩
    obtain ⟨args, ha, hreads⟩ := (gives_readAttach h).1 ⟨_, hp⟩
    obtain ⟨hname, hhandle⟩ := (hset ha hreads hp).1 hs
    exact ⟨args, ha, hreads, hname, hhandle⟩
  · rintro ⟨args, ha, hreads, hname, hhandle⟩
    obtain ⟨p, hp⟩ := (gives_readAttach h).2 ⟨args, ha, hreads⟩
    obtain ⟨attach, rfl, -⟩ := readAttach_ok hp
    exact ⟨attach, hp, (hset ha hreads hp).2 ⟨hname, hhandle⟩⟩

/-- An optional unsigned integer that was read. -/
theorem optional_uint_deref (h : Made list) (ha : Announces list args) {k : Nat} {p : Ptr Int}
    (hp : optional list k unwrapUint = .ok p) :
    Returns p.deref ↔ ∃ e ∈ args[k]?, e.Is uintTypes := by
  rw [optional_eq_given] at hp
  rcases given_cases (k := k) h ha unwrapUint (pure .indet) (pure .indet) with
    ⟨hnone, heq⟩ | ⟨e, he, hmade, hrest⟩
  · rw [heq] at hp
    cases hp
    exact iff_of_false (not_returns_error _) (not_mem_argument_none hnone)
  · rw [mem_argument_some he]
    rcases hrest with ⟨hnull, heq⟩ | ⟨-, heq⟩ <;> rw [heq] at hp
    · cases hp
      exact iff_of_false (not_returns_error _) fun his => uint_ne_null his hnull
    · rw [← unwrapUint_deref hmade, hp]
      exact Iff.rfl

/-- A TRANSFER that says whether it is settled; one that is not has a delivery id. -/
structure TransferFits (args : List TlvAmqp) : Prop extends TransferReads args where
  length_gt : 4 < args.length
  answer : (∃ e ∈ args[4]?, e.IsTrue) ∨ ∃ e ∈ args[1]?, e.Is uintTypes

/-- The fields of a TRANSFER are set that the client looks at to answer it. -/
structure Answerable (transfer : AmqpTransfer) : Prop where
  settled : Returns (isSettled transfer)
  deliveryId : isSettled transfer = .ok false → Returns transfer.deliveryId.deref

/-- Whether the TRANSFER that was read is settled. -/
theorem isSettled_cases (h : Made list) (ha : Announces list args) {transfer : AmqpTransfer}
    (hs : readSettled list = .ok transfer.settled) :
    ¬ 4 < args.length ∧ ¬ Returns (isSettled transfer) ∨
      4 < args.length ∧ (∃ e ∈ args[4]?, e.IsTrue) ∧ isSettled transfer = .ok true ∨
      4 < args.length ∧ ¬ (∃ e ∈ args[4]?, e.IsTrue) ∧ isSettled transfer = .ok false := by
  unfold readSettled at hs
  unfold isSettled
  rcases given_cases (k := 4) h ha unwrapBool (pure .null) (pure .indet) with
    ⟨hnone, heq⟩ | ⟨e, he, hmade, hrest⟩
  · rw [heq] at hs
    left
    rw [← Except.ok.inj hs]
    exact ⟨by have := List.getElem?_eq_none_iff.1 hnone; omega, not_returns_error _⟩
  · obtain ⟨hlt, -⟩ := List.getElem?_eq_some_iff.1 he
    rw [mem_argument_some he]
    right
    rcases hrest with ⟨hnull, heq⟩ | ⟨-, heq⟩ <;> rw [heq] at hs
    · rw [← Except.ok.inj hs]
      exact .inr ⟨hlt, fun ht => bool_ne_null (.inl ht) hnull, rfl⟩
    · rcases unwrapBool_cases hmade with ⟨ht, -, hb⟩ | ⟨-, ht, hb⟩ | ⟨ht, -, hb⟩ <;>
        rw [hb] at hs <;> rw [← Except.ok.inj hs]
      · exact .inl ⟨hlt, ht, rfl⟩
      · exact .inr ⟨hlt, ht, rfl⟩
      · exact .inr ⟨hlt, ht, rfl⟩

theorem answerable_iff (h : Made list) (ha : Announces list args) {transfer : AmqpTransfer}
    (hid : optional list 1 unwrapUint = .ok transfer.deliveryId)
    (hs : readSettled list = .ok transfer.settled) : Answerable transfer ↔
      4 < args.length ∧ ((∃ e ∈ args[4]?, e.IsTrue) ∨ ∃ e ∈ args[1]?, e.Is uintTypes) := by
  rw [← optional_uint_deref h ha hid]
  rcases isSettled_cases h ha hs with ⟨hlt, hfault⟩ | ⟨hlt, ht, hset⟩ | ⟨hlt, hf, hset⟩
  · exact iff_of_false (fun hr => hfault hr.settled) fun hr => hlt hr.1
  · refine iff_of_true ⟨⟨true, hset⟩, fun hfalse => ?_⟩ ⟨hlt, .inl ht⟩
    rw [hset] at hfalse
    cases hfalse
  · exact ⟨fun hr => ⟨hlt, .inr (hr.deliveryId hset)⟩,
      fun hr => ⟨⟨false, hset⟩, fun _ => hr.2.resolve_left hf⟩⟩

/-- A TRANSFER that the client can answer. -/
theorem readTransfer_answerable (h : Made list) :
    (∃ transfer, readTransfer list = .ok (some (.transfer transfer)) ∧ Answerable transfer) ↔
      ∃ args, Announces list args ∧ TransferFits args := by
  constructor
  · rintro ⟨transfer, hp, hanswer⟩
    obtain ⟨args, ha, hreads⟩ := (gives_readTransfer h).1 ⟨_, hp⟩
    obtain ⟨_, heq, hid, hs, -⟩ := readTransfer_ok hp
    cases heq
    obtain ⟨hlt, hor⟩ := (answerable_iff h ha hid hs).1 hanswer
    exact ⟨args, ha, hreads, hlt, hor⟩
  · rintro ⟨args, ha, hreads, hlt, hor⟩
    obtain ⟨p, hp⟩ := (gives_readTransfer h).2 ⟨args, ha, hreads⟩
    obtain ⟨transfer, heq, hid, hs, -⟩ := readTransfer_ok hp
    cases heq
    exact ⟨transfer, hp, (answerable_iff h ha hid hs).2 ⟨hlt, hor⟩⟩

end Links

end IotClient.Amqp
