import IotClient.Amqp.Decoded

/-!
# What is asked of the list of a frame

`CodeFits` is what the client needs of a list to do nothing undefined with it, by the code of the list:
arguments that `init_header` can read, those that `process_amqp_rx` looks at, and behind a TRANSFER
one section with a binary of 8-bit length. `listHandled_iff` and `transfer_handled_iff` say that it
needs nothing else.
-/

namespace IotClient.Amqp

open Mem

/-! ### Sections -/

/-- A constructor is one byte at least. -/
theorem Node.length_pos {out : List UInt8} {tlv : TlvAmqp} (h : Node out tlv) : 0 < out.length := by
  cases h with
  | mk head body =>
    have hpos := head.reads.1
    rw [List.length_append]
    omega

/-- A section whose contents can be copied. -/
def SectionEntry.Copyable (entry : SectionEntry) : Prop :=
  ∃ data bytes n, entry.sectionData = .ref data ∧ data.data = .ref bytes ∧ data.dataLength = .is n ∧
    Returns (copyOut bytes 0 n)

/-- One section of data in a binary of 8-bit length. -/
def SectionFits (rest : List UInt8) : Prop :=
  ∃ list, Node rest list ∧ list.Described SectionCode.data.toByte ∧ list.Is [.binary8]

section Sections

variable {data out s : List UInt8} {list : TlvAmqp} {i j fuel : Nat} {entry : SectionEntry}
  {p : Ptr SectionEntry}

/-- What is found is a `DATA` section. -/
theorem getSection_eq_ok : getSection data i = .ok (.ref entry, j) ↔
    ∃ out s list d, data.drop i = out ++ s ∧ j = i + out.length ∧ Node out list ∧
      list.Described SectionCode.data.toByte ∧ unwrapBinary list = .ok d ∧
      entry = ⟨SectionCode.data.toByte, .ref ⟨d, list.length⟩⟩ := by
  constructor
  · intro h
    obtain ⟨⟨list, k⟩, hlist, h⟩ := bind_eq_ok.1 h
    obtain ⟨out, s, hd, rfl, hnode⟩ := getTlv_iff.1 hlist
    obtain ⟨code, hcode, h⟩ := bind_eq_ok.1 h
    split at h
    case h_1 hdata =>
      obtain ⟨d, hd', h⟩ := bind_eq_ok.1 h
      cases h
      obtain rfl : SectionCode.data.toByte = code := by
        have hfound := List.find?_some hdata
        exact beq_iff_eq.1 hfound
      exact ⟨out, s, list, d, hd, rfl, hnode, descriptorCode_eq_ok.1 hcode, hd', rfl⟩
    case h_2 => cases h
  · rintro ⟨out, s, list, d, hd, rfl, hnode, hcode, hbinary, rfl⟩
    unfold getSection
    rw [getTlv_iff.2 ⟨out, s, hd, rfl, hnode⟩, ok_bind]
    simp only [descriptorCode_eq_ok.2 hcode, ok_bind]
    have hread : (do
        let data ← unwrapBinary list
        pure (.ref ⟨SectionCode.data.toByte, .ref ⟨data, list.length⟩⟩, i + out.length) :
          Run (Ptr SectionEntry × Nat)) = .ok (.ref ⟨SectionCode.data.toByte, .ref ⟨d, list.length⟩⟩,
            i + out.length) := by
      rw [hbinary]
      rfl
    exact hread

/-- A binary of 32-bit length has no length, another value no contents. -/
theorem copyable_iff (h : Made list) {d : Ptr (List UInt8)} (hd : unwrapBinary list = .ok d)
    {code : UInt8} : SectionEntry.Copyable ⟨code, .ref ⟨d, list.length⟩⟩ ↔ list.Is [.binary8] := by
  by_cases his : list.Is VariableKind.binary.types
  · obtain ⟨bytes, hvalue⟩ := unwrapBinary_value h his
    have heq : unwrapBinary list = .ref <$> list.valueArray.deref := unwrapCodes_is his
    rw [heq, hvalue] at hd
    cases hd
    have hshort : list.Is [.binary8] ↔ Returns (stringValue list) :=
      (is_short .binary h).symm.trans (and_iff_right his)
    rw [hshort]
    unfold SectionEntry.Copyable stringValue
    rw [hvalue]
    cases list.length with
    | indet =>
      refine iff_of_false ?_ (not_returns_error _)
      rintro ⟨_, _, n, hdata, -, hn, -⟩
      cases hdata
      cases hn
    | is n =>
      rw [Cell.get_is, ok_bind, Ptr.deref_ref, ok_bind]
      refine Iff.trans ?_ (returns_bind_ok fun _ => returns_ok _).symm
      constructor
      · rintro ⟨_, _, _, hdata, hbytes, hn, hr⟩
        cases hdata
        cases hbytes
        cases hn
        exact hr
      · exact fun hr => ⟨_, bytes, n, rfl, rfl, rfl, hr⟩
  · have heq : unwrapBinary list = .ok .null := unwrapCodes_not h his
    rw [heq] at hd
    cases hd
    refine iff_of_false ?_ fun hshort => his ((is_short .binary h).2 hshort).1
    rintro ⟨_, _, _, hdata, hbytes, -⟩
    cases hdata
    cases hbytes

/-- A second section is never stored. -/
theorem readSections_full {stop : Int} {number n : Cell Int} {sections : List SectionEntry}
    (h : readSections data stop fuel i number [entry] = .ok (n, sections)) :
    stop ≤ i ∧ sections = [entry] := by
  cases fuel with
  | zero =>
    unfold readSections at h
    split at h
    · cases h
    · cases h
      exact ⟨by omega, rfl⟩
  | succ fuel =>
    unfold readSections at h
    split at h
    case isTrue =>
      obtain ⟨⟨p, j⟩, -, h⟩ := bind_eq_ok.1 h
      obtain ⟨e, -, h⟩ := bind_eq_ok.1 h
      cases h
    case isFalse =>
      cases h
      exact ⟨by omega, rfl⟩

/-- The loop leaves a section that can be copied exactly when there is one section that fits. -/
theorem readSections_copyable (hi : i ≤ data.length) :
    (∃ number entry sections, readSections data data.length data.length i .indet [] =
      .ok (number, entry :: sections) ∧ entry.Copyable) ↔ SectionFits (data.drop i) := by
  constructor
  · rintro ⟨number, entry, sections, h, hcopy⟩
    cases hlen : data.length with
    | zero =>
      rw [hlen] at h
      unfold readSections at h
      rw [if_neg (by omega)] at h
      cases h
    | succ fuel =>
      rw [hlen] at h
      unfold readSections at h
      split at h
      case isFalse => cases h
      case isTrue =>
        obtain ⟨⟨p, j⟩, hsection, h⟩ := bind_eq_ok.1 h
        obtain ⟨e, he, h⟩ := bind_eq_ok.1 h
        obtain rfl := Ptr.deref_eq_ok.1 he
        obtain ⟨hle, hsections⟩ := readSections_full h
        cases hsections
        obtain ⟨out, s, list, d, hd, rfl, hnode, hcode, hbinary, rfl⟩ := getSection_eq_ok.1 hsection
        have hdrop := congrArg List.length hd
        rw [List.length_drop, List.length_append] at hdrop
        obtain rfl : s = [] := List.eq_nil_of_length_eq_zero (by omega)
        rw [List.append_nil] at hd
        exact ⟨list, hd ▸ hnode, hcode, (copyable_iff hnode.made hbinary).1 hcopy⟩
  · rintro ⟨list, hnode, hcode, hshort⟩
    obtain ⟨d, hd⟩ := unwrapBinary_returns hnode.made
    have hsection : getSection data i = .ok (.ref ⟨SectionCode.data.toByte, .ref ⟨d, list.length⟩⟩,
        i + (data.drop i).length) :=
      getSection_eq_ok.2 ⟨_, [], list, d, (List.append_nil _).symm, rfl, hnode, hcode, hd, rfl⟩
    refine ⟨.is 0, ⟨SectionCode.data.toByte, .ref ⟨d, list.length⟩⟩, [], ?_,
      (copyable_iff hnode.made hd).2 hshort⟩
    have hpos := hnode.length_pos
    rw [List.length_drop] at hpos hsection
    obtain ⟨fuel, hfuel⟩ : ∃ fuel, data.length = fuel + 1 := ⟨data.length - 1, by omega⟩
    rw [hfuel, readSections, if_pos (by omega), hsection]
    exact readSections_end (by omega) _ _

end Sections

/-! ### Lists -/

/-- What is asked of the list of a frame, and of what follows it, by the code of the list. -/
def CodeFits (account : Account) (list : TlvAmqp) (rest : List UInt8) : Option HeaderCode → Prop
  | some .open => ∃ args, Announces list args ∧ OpenFits args
  | some .begin => ∃ args, Announces list args ∧ BeginFits args
  | some .attach => ∃ args, Announces list args ∧ AttachFits args
  | some .transfer => (∃ args, Announces list args ∧ TransferFits args) ∧ SectionFits rest
  | some .disposition => ∃ args, Announces list args ∧ DispositionFits args
  | some .detach => ∃ args, Announces list args ∧ DetachFits args
  | some .mechanisms => account.username ≠ none ∧ account.password ≠ none ∧
      ∃ args, Announces list args ∧ MechanismsFits args
  | some .init => InitFits list
  | some .challenge => ChallengeFits list
  | some .outcome => ∃ args, Announces list args ∧ OutcomeFits args
  | some .proto => False
  | some .flow | some .amqpEnd | some .close | some .response | some .ping | none => True

section Lists

variable {c : Client} {list : TlvAmqp} {code doff type : UInt8} {channel : Int} {rest : List UInt8}

/-- The header of the list is made and handled. -/
def ListHandled (c : Client) (list : TlvAmqp) (code doff type : UInt8) (channel : Int) : Prop :=
  ∃ r, initPacket code list = .ok r ∧ Handled c (.decoded code doff type channel (.ofRead r))

/-- A packet is needed. -/
theorem listHandled_gives {k : HeaderCode} (read : TlvAmqp → Run (Option Packet))
    (hread : initPacket k.toByte list = read list)
    (hnone : ¬ Handled c (.decoded k.toByte doff type channel .indet)) :
    ListHandled c list k.toByte doff type channel ↔ ∃ p, read list = .ok (some p) ∧
      Handled c (.decoded k.toByte doff type channel (.ref p)) := by
  unfold ListHandled
  rw [hread]
  constructor
  · rintro ⟨r, hr, hh⟩
    cases r with
    | none => exact absurd hh hnone
    | some p => exact ⟨p, hr, hh⟩
  · rintro ⟨p, hp, hh⟩
    exact ⟨some p, hp, hh⟩

/-- Any packet will do. -/
theorem listHandled_unanswered (hk : HeaderCode.ofByte code ∈ unanswered) :
    ListHandled c list code doff type channel ↔ Returns (initPacket code list) := by
  refine exists_congr fun r => and_iff_left_of_imp fun hr => handled_unanswered rfl hk ?_
  intro p hp
  cases r with
  | none => cases hp
  | some q =>
    obtain rfl : q = p := Ptr.ref.inj hp
    exact initPacket_code hr

/-- The packets without data. -/
theorem listHandled_bare {p : Packet} (hinit : initPacket code list = .ok (some p))
    (hh : Handled c (.decoded code doff type channel (.ref p))) :
    ListHandled c list code doff type channel :=
  ⟨some p, hinit, hh⟩

theorem listHandled_open (h : Made list) :
    ListHandled c list HeaderCode.open.toByte doff type channel ↔
      ∃ args, Announces list args ∧ OpenFits args := by
  rw [listHandled_gives readOpen rfl not_handled_open, ← gives_readOpen h]
  refine exists_congr fun p => and_iff_left_of_imp fun hp => ?_
  have hcode := readOpen_gives list p hp
  cases p
  case «open» => exact handled_open
  all_goals cases hcode

theorem listHandled_begin (h : Made list) :
    ListHandled c list HeaderCode.begin.toByte doff type channel ↔
      ∃ args, Announces list args ∧ BeginFits args := by
  rw [listHandled_gives readBegin rfl not_handled_begin, ← gives_readBegin h]
  refine exists_congr fun p => and_iff_left_of_imp fun hp => ?_
  have hcode := readBegin_gives list p hp
  cases p
  case begin => exact handled_begin
  all_goals cases hcode

theorem listHandled_outcome (h : Made list) :
    ListHandled c list HeaderCode.outcome.toByte doff type channel ↔
      ∃ args, Announces list args ∧ OutcomeFits args := by
  rw [listHandled_gives readOutcome rfl (not_handled_inspected (by decide)),
    ← gives_readOutcome h]
  refine exists_congr fun p => and_iff_left_of_imp fun hp => ?_
  obtain ⟨outcomeCode, data, rfl⟩ := readOutcome_code hp
  exact handled_outcome

/-- The role of an ATTACH that was read is set. -/
theorem readAttach_role (h : Made list) {attach : AmqpAttach}
    (hp : readAttach list = .ok (some (.attach attach))) : ∃ role, attach.role = .ref role := by
  obtain ⟨args, ha, hreads⟩ := (gives_readAttach h).1 ⟨_, hp⟩
  obtain ⟨_, heq, -, -, hrole, -⟩ := readAttach_ok hp
  cases heq
  have hlen := hreads.length_ge
  have he : args[2]? = some args[2] := List.getElem?_eq_getElem (by omega)
  rcases role_cases h ha he hrole with ⟨hr, -, -⟩ | ⟨hr, -, -⟩ <;> exact ⟨_, hr⟩

theorem listHandled_attach (hc : Client.Inv c) (h : Made list) :
    ListHandled c list HeaderCode.attach.toByte doff type channel ↔
      ∃ args, Announces list args ∧ AttachFits args := by
  rw [listHandled_gives readAttach rfl (not_handled_inspected (by decide)),
    ← readAttach_set h]
  constructor
  · rintro ⟨p, hp, hh⟩
    obtain ⟨attach, rfl, -⟩ := readAttach_ok hp
    obtain ⟨role, hrole⟩ := readAttach_role h hp
    exact ⟨attach, hp, (handled_attach hc hrole).1 hh⟩
  · rintro ⟨attach, hp, hset⟩
    obtain ⟨role, hrole⟩ := readAttach_role h hp
    exact ⟨_, hp, (handled_attach hc hrole).2 hset⟩

theorem listHandled_disposition (h : Made list) :
    ListHandled c list HeaderCode.disposition.toByte doff type channel ↔
      ∃ args, Announces list args ∧ DispositionFits args := by
  rw [listHandled_gives readDisposition rfl (not_handled_inspected (by decide)),
    ← readDisposition_first h]
  constructor
  · rintro ⟨p, hp, hh⟩
    obtain ⟨disposition, rfl, -⟩ := readDisposition_ok hp
    exact ⟨disposition, hp, handled_disposition.1 hh⟩
  · rintro ⟨disposition, hp, hfirst⟩
    exact ⟨_, hp, handled_disposition.2 hfirst⟩

theorem listHandled_detach (h : Made list) :
    ListHandled c list HeaderCode.detach.toByte doff type channel ↔
      ∃ args, Announces list args ∧ DetachFits args := by
  rw [listHandled_gives readDetach rfl (not_handled_inspected (by decide)),
    ← readDetach_handle h]
  constructor
  · rintro ⟨p, hp, hh⟩
    obtain ⟨detach, rfl, -⟩ := readDetach_ok hp
    exact ⟨detach, hp, handled_detach.1 hh⟩
  · rintro ⟨detach, hp, hhandle⟩
    exact ⟨_, hp, handled_detach.2 hhandle⟩

theorem listHandled_mechanisms (h : Made list) :
    ListHandled c list HeaderCode.mechanisms.toByte doff type channel ↔
      c.account.username ≠ none ∧ c.account.password ≠ none ∧
        ∃ args, Announces list args ∧ MechanismsFits args := by
  rw [listHandled_gives readMechanisms rfl (not_handled_inspected (by decide)),
    ← readMechanisms_symbol h]
  constructor
  · rintro ⟨p, hp, hh⟩
    have hcode := readMechanisms_gives list p hp
    cases p
    case mechanisms m =>
      obtain ⟨husername, hpassword, s, rfl⟩ := handled_mechanisms.1 hh
      exact ⟨husername, hpassword, s, hp⟩
    all_goals cases hcode
  · rintro ⟨husername, hpassword, s, hp⟩
    exact ⟨_, hp, handled_mechanisms.2 ⟨husername, hpassword, s, rfl⟩⟩

theorem listHandled_iff (doff type : UInt8) (channel : Int) (hc : Client.Inv c) (h : Made list)
    (hne : code ≠ HeaderCode.transfer.toByte) :
    ListHandled c list code doff type channel ↔
      CodeFits c.account list rest (HeaderCode.ofByte code) := by
  cases hcode : HeaderCode.ofByte code with
  | none =>
    refine (listHandled_unanswered (by rw [hcode]; decide)).trans (iff_of_true ?_ trivial)
    unfold initPacket
    rw [hcode]
    exact returns_ok _
  | some k =>
    obtain rfl := HeaderCode.toByte_of_ofByte hcode
    cases k
    case transfer => exact absurd rfl hne
    case «open» => exact listHandled_open h
    case begin => exact listHandled_begin h
    case attach => exact listHandled_attach hc h
    case disposition => exact listHandled_disposition h
    case detach => exact listHandled_detach h
    case mechanisms => exact listHandled_mechanisms h
    case outcome => exact listHandled_outcome h
    case init => exact (listHandled_unanswered (by decide)).trans (readInit_returns h)
    case challenge => exact (listHandled_unanswered (by decide)).trans (readChallenge_returns h)
    case flow | response | ping =>
      exact (listHandled_unanswered (by decide)).trans (iff_of_true (returns_ok _) trivial)
    case amqpEnd =>
      exact iff_of_true (listHandled_bare rfl
        ((handled_of_ref (k := .amqpEnd) rfl rfl (by decide)).2 (returns_ok _))) trivial
    case close =>
      exact iff_of_true (listHandled_bare rfl
        ((handled_of_ref (k := .close) rfl rfl (by decide)).2 (returns_ok _))) trivial
    case proto =>
      refine iff_of_false ?_ id
      rintro ⟨r, hr, hh⟩
      cases hr
      exact not_handled_inspected (k := .proto) (by decide) hh

end Lists

/-! ### Transfers -/

section Transfers

variable {c : Client} {list : TlvAmqp} {data out rest : List UInt8} {doff type : UInt8}
  {channel readableBytes : Int}

/-- The end of `processTransfer`. -/
def copySection (t : AmqpTransfer) (c : Client) : Run Client := do
  match ← t.sections.deref with
  | [] => .error .readOut
  | entry :: _ => do
    let amqpData ← entry.sectionData.deref
    let _ ← copyOut (← amqpData.data.deref) 0 (← amqpData.dataLength.get)
    pure c

/-- The copy changes nothing. -/
theorem copySection_ok {t : AmqpTransfer} {u v : Client} (h : copySection t u = .ok v) : v = u := by
  obtain ⟨sections, -, h⟩ := bind_eq_ok.1 h
  cases sections with
  | nil => cases h
  | cons entry others =>
    obtain ⟨amqpData, -, h⟩ := bind_eq_ok.1 h
    obtain ⟨bytes, -, h⟩ := bind_eq_ok.1 h
    obtain ⟨n, -, h⟩ := bind_eq_ok.1 h
    obtain ⟨copy, -, h⟩ := bind_eq_ok.1 h
    exact (Except.ok.inj h).symm

/-- Copying the contents of a section. -/
theorem copyable_returns {α : Type} {entry : SectionEntry} (a : α) : Returns (do
    let amqpData ← entry.sectionData.deref
    let _ ← copyOut (← amqpData.data.deref) 0 (← amqpData.dataLength.get)
    pure a) ↔ entry.Copyable := by
  constructor
  · rintro ⟨b, h⟩
    obtain ⟨amqpData, hdata, h⟩ := bind_eq_ok.1 h
    obtain ⟨bytes, hbytes, h⟩ := bind_eq_ok.1 h
    obtain ⟨n, hn, h⟩ := bind_eq_ok.1 h
    obtain ⟨value, hvalue, -⟩ := bind_eq_ok.1 h
    refine ⟨amqpData, bytes, n, Ptr.deref_eq_ok.1 hdata, Ptr.deref_eq_ok.1 hbytes, ?_, value, hvalue⟩
    cases hlength : amqpData.dataLength with
    | indet =>
      rw [hlength] at hn
      cases hn
    | is m =>
      rw [hlength] at hn
      exact congrArg Cell.is (Except.ok.inj hn)
  · rintro ⟨amqpData, bytes, n, hdata, hbytes, hn, hcopy⟩
    rw [hdata, Ptr.deref_ref, ok_bind, hbytes, Ptr.deref_ref, ok_bind, hn, Cell.get_is, ok_bind]
    exact (returns_bind_ok fun _ => returns_ok a).2 hcopy

theorem copySection_returns {t : AmqpTransfer} {sections : List SectionEntry}
    (hsections : t.sections = .ref sections) (u : Client) : Returns (copySection t u) ↔
      ∃ entry others, sections = entry :: others ∧ entry.Copyable := by
  unfold copySection
  rw [hsections, Ptr.deref_ref, ok_bind]
  cases sections with
  | nil =>
    refine iff_of_false (not_returns_error _) ?_
    rintro ⟨_, _, hnil, -⟩
    cases hnil
  | cons entry others =>
    refine (copyable_returns u).trans ⟨fun h => ⟨entry, others, rfl, h⟩, ?_⟩
    rintro ⟨_, _, hcons, h⟩
    cases hcons
    exact h

/-- A TRANSFER is answered, and the first of its sections copied. -/
theorem handled_transfer {t : AmqpTransfer} {sections : List SectionEntry}
    (hsections : t.sections = .ref sections) :
    Handled c (.decoded HeaderCode.transfer.toByte doff type channel (.ref (.transfer t))) ↔
      Answerable t ∧ ∃ entry others, sections = entry :: others ∧ entry.Copyable := by
  refine (handled_of_ref (k := .transfer) rfl rfl (by decide)).trans ?_
  generalize hheader : AmqpHeader.decoded HeaderCode.transfer.toByte doff type channel
    (.ref (.transfer t)) = header
  have heq : c.processAmqpRx header = (do
      let c ← if ← isSettled t then pure (c.afterRead header)
        else do pure ((c.afterRead header).sendAmqpDisposition (← t.deliveryId.deref))
      copySection t c) := by
    rw [← hheader]
    rfl
  have hcopy (u : Client) := copySection_returns hsections u
  rw [heq]
  cases hs : isSettled t with
  | error e =>
    refine iff_of_false (not_returns_error e) fun h => ?_
    exact not_returns_error e (hs ▸ h.1.settled)
  | ok b =>
    cases b with
    | true =>
      have hanswer : Answerable t := ⟨⟨true, hs⟩, fun hfalse => by rw [hs] at hfalse; cases hfalse⟩
      exact (hcopy _).trans (and_iff_right hanswer).symm
    | false =>
      have hanswer : Answerable t ↔ Returns t.deliveryId.deref :=
        ⟨fun h => h.deliveryId hs, fun h => ⟨⟨false, hs⟩, fun _ => h⟩⟩
      rw [hanswer]
      cases t.deliveryId.deref with
      | error e => exact iff_of_false (not_returns_error e) fun h => not_returns_error e h.1
      | ok id => exact (hcopy _).trans (and_iff_right (returns_ok id)).symm

/-- A frame with a TRANSFER. -/
theorem transfer_handled_iff (hd : data.drop 8 = out ++ rest) (hnode : Node out list)
    (hcode : list.Described HeaderCode.transfer.toByte) (hlen : readableBytes + 8 = data.length) :
    (∃ header, decodeFrame data readableBytes doff type channel = .ok header ∧ Handled c header) ↔
      (∃ args, Announces list args ∧ TransferFits args) ∧ SectionFits rest := by
  have hrest : data.drop (8 + out.length) = rest := drop_add hd
  have hi : 8 + out.length ≤ data.length := by
    have hdrop := congrArg List.length hd
    have hpos := hnode.length_pos
    rw [List.length_drop, List.length_append] at hdrop
    omega
  rw [← readTransfer_answerable hnode.made, ← hrest, ← readSections_copyable hi,
    decodeFrame_transfer_node hd hnode hcode, hlen]
  constructor
  · rintro ⟨header, hheader, hh⟩
    obtain ⟨r, hr, hheader⟩ := bind_eq_ok.1 hheader
    obtain ⟨transfer, htransfer, hheader⟩ := bind_eq_ok.1 hheader
    obtain ⟨⟨number, sections⟩, hsections, hheader⟩ := bind_eq_ok.1 hheader
    cases hheader
    have hread : readTransfer list = .ok r := hr
    obtain ⟨t, rfl, -⟩ := readTransfer_ok hread
    cases htransfer
    obtain ⟨hanswer, entry, others, rfl, hcopy⟩ := (handled_transfer rfl).1 hh
    exact ⟨⟨transfer, hr, ⟨hanswer.settled, hanswer.deliveryId⟩⟩, number, entry, others, hsections, hcopy⟩
  · rintro ⟨⟨t, hr, hanswer⟩, number, entry, others, hsections, hcopy⟩
    have hinit : initPacket HeaderCode.transfer.toByte list = .ok (some (.transfer t)) := hr
    refine ⟨.decoded HeaderCode.transfer.toByte doff type channel (.ref (.transfer
      { t with sectionNumber := .ref number, sections := .ref (entry :: others) })), ?_,
      (handled_transfer rfl).2 ⟨⟨hanswer.settled, hanswer.deliveryId⟩, entry, others, rfl, hcopy⟩⟩
    rw [hinit, ok_bind]
    exact bind_eq_ok.2 ⟨t, rfl, bind_eq_ok.2 ⟨(number, entry :: others), hsections, rfl⟩⟩

end Transfers

end IotClient.Amqp
