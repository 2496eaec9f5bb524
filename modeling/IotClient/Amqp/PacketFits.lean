import IotClient.Amqp.Fields

/-!
# What `init_header` needs of a packet

For each performative the arguments that its function reads without a fault (`…Fits`). `Gives`
says that the packet is assigned: the functions return early on a wrong number of arguments, on a
nested node that is no list, or where `dynamic` is not set.
-/

namespace IotClient.Amqp

open Mem

/-! ### OPEN and BEGIN -/

structure OpenFits (args : List TlvAmqp) : Prop where
  present : args ≠ []
  containerId : RequiredFits args 0 (¬ ·.Is [.string32])
  hostname : OptionalFits args 1 (¬ ·.Is [.string32])
  outgoingLocales : OptionalFits args 5 HeadUnwraps
  incomingLocales : OptionalFits args 6 HeadUnwraps
  offeredCapabilities : OptionalFits args 7 HeadUnwraps
  desiredCapabilities : OptionalFits args 8 HeadUnwraps

structure BeginFits (args : List TlvAmqp) : Prop where
  offeredCapabilities : OptionalFits args 5 HeadUnwraps
  desiredCapabilities : OptionalFits args 6 HeadUnwraps

section Performatives

variable {list : TlvAmqp} {args : List TlvAmqp}

/-- A packet whose list is looked at. -/
theorem exists_announces_iff {α : Type} {x : Run (Option α)} {F : List TlvAmqp → Prop}
    (hfirst : Gives x → ∃ args, Announces list args)
    (hfits : ∀ args, Announces list args → (Gives x ↔ F args)) :
    Gives x ↔ ∃ args, Announces list args ∧ F args := by
  constructor
  · intro hg
    obtain ⟨args, ha⟩ := hfirst hg
    exact ⟨args, ha, (hfits args ha).1 hg⟩
  · rintro ⟨args, ha, hf⟩
    exact (hfits args ha).2 hf

theorem readOpen_fits (h : Made list) (ha : Announces list args) :
    Gives (readOpen list) ↔ OpenFits args := by
  obtain ⟨n, hn, hgt⟩ := ha.count_gt 0
  unfold readOpen
  rw [hn, Ptr.deref_ref, ok_bind]
  by_cases h0 : n = 0
  · rw [if_pos h0]
    refine iff_of_false not_gives_none fun hf => hf.present ?_
    exact List.eq_nil_of_length_eq_zero (by omega)
  rw [if_neg h0]
  by_cases hpos : 0 < args.length
  · have hcontainer : RequiredFits args 0 (¬ ·.Is [.string32]) ↔
        Returns (unwrapString args[0]) := by
      rw [unwrapString_returns (ha.made h _ (List.getElem_mem hpos))]
      unfold RequiredFits
      rw [List.getElem?_eq_getElem hpos]
      simp only [Option.mem_def, Option.some.injEq, forall_eq']
    rw [ha.element hpos, ok_bind]
    refine Iff.trans (gives_field hcontainer.symm fun _ _ => gives_field (optional_string h ha) fun _ _ =>
      gives_skip (optional_uint h ha) fun _ _ => gives_skip (optional_ushort h ha) fun _ _ =>
      gives_skip (optional_uint h ha) fun _ _ => gives_field (optional_arrayHead h ha) fun _ _ =>
      gives_field (optional_arrayHead h ha) fun _ _ =>
      gives_field (optional_arrayHead h ha) fun _ _ =>
      gives_field (optional_arrayHead h ha) fun _ _ =>
      gives_skip (optional_nothing h ha) fun _ _ => iff_true_intro (gives_some _)) ?_
    constructor
    · rintro ⟨h1, h2, h3, h4, h5, h6, -⟩
      exact ⟨List.ne_nil_of_length_pos hpos, h1, h2, h3, h4, h5, h6⟩
    · rintro ⟨-, h1, h2, h3, h4, h5, h6⟩
      exact ⟨h1, h2, h3, h4, h5, h6, trivial⟩
  · refine iff_of_false ?_ fun hf => hpos (List.length_pos_of_ne_nil hf.present)
    rintro ⟨p, hp⟩
    obtain ⟨e, he, -⟩ := bind_eq_ok.1 hp
    obtain ⟨args', ha', hne⟩ := exists_announces_of_element h hn ⟨e, he⟩
    obtain rfl := ha.unique ha'
    exact hpos (List.length_pos_of_ne_nil hne)

theorem gives_readOpen (h : Made list) :
    Gives (readOpen list) ↔ ∃ args, Announces list args ∧ OpenFits args := by
  refine exists_announces_iff (fun ⟨p, hp⟩ => ?_) fun args ha => readOpen_fits h ha
  obtain ⟨n, hn, -, hrest⟩ := counted_eq_ok hp
  obtain ⟨e, he, -⟩ := bind_eq_ok.1 hrest
  obtain ⟨args, ha, -⟩ := exists_announces_of_element h hn ⟨e, he⟩
  exact ⟨args, ha⟩

theorem gives_readBegin (h : Made list) :
    Gives (readBegin list) ↔ ∃ args, Announces list args ∧ BeginFits args := by
  refine exists_announces_iff (fun ⟨p, hp⟩ => ?_) fun args ha => ?_
  · obtain ⟨channel, hchannel, -⟩ := bind_eq_ok.1 hp
    exact exists_announces_of_optional h ⟨channel, hchannel⟩
  · refine Iff.trans (gives_skip (optional_ushort h ha) fun _ _ => gives_skip (required_uint h ha) fun _ _ =>
      gives_skip (required_uint h ha) fun _ _ => gives_skip (required_uint h ha) fun _ _ =>
      gives_skip (optional_uint h ha) fun _ _ => gives_field (optional_arrayHead h ha) fun _ _ =>
      gives_field (optional_arrayHead h ha) fun _ _ =>
      gives_skip (optional_nothing h ha) fun _ _ => iff_true_intro (gives_some _)) ?_
    exact ⟨fun ⟨h5, h6, _⟩ => ⟨h5, h6⟩, fun hb => ⟨hb.1, hb.2, trivial⟩⟩

/-! ### SASL -/

/-- The one argument of a challenge is stored, if there is no other. -/
def ChallengeFits (list : TlvAmqp) : Prop :=
  ∃ n, list.count = .ref n ∧ (n = 1 → ∃ args, Announces list args)

/-- Up to three arguments of an INIT are read. -/
def InitFits (list : TlvAmqp) : Prop :=
  ∃ n, list.count = .ref n ∧ (1 ≤ n → n ≤ 3 → ∃ args, Announces list args ∧
    RequiredFits args 0 (¬ ·.Is [.symbol32]) ∧ OptionalFits args 2 (¬ ·.Is [.string32]))

/-- The first mechanism is a symbol. -/
def MechanismsFits (args : List TlvAmqp) : Prop :=
  ∃ e ∈ args[0]?, e.Is arrayTypes ∧ Unwraps e ∧
    ∃ v vs, e.list = .ref (v :: vs) ∧ v.Is [.symbol8]

structure OutcomeFits (args : List TlvAmqp) : Prop where
  length_le : args.length ≤ 2
  code : ∃ e ∈ args[0]?, e.Is [.ubyte]

theorem readChallenge_returns (h : Made list) : Returns (readChallenge list) ↔ ChallengeFits list := by
  unfold readChallenge ChallengeFits
  cases hcount : list.count with
  | indet => exact iff_of_false (not_returns_error _) fun ⟨_, hn, _⟩ => by cases hn
  | null => exact iff_of_false (not_returns_error _) fun ⟨_, hn, _⟩ => by cases hn
  | ref n =>
    simp only [Ptr.ref.injEq, exists_eq_left']
    rw [Ptr.deref_ref, ok_bind]
    by_cases hone : n = 1
    · subst hone
      rw [if_neg (by decide), forall_prop_of_true rfl]
      refine (returns_bind_ok fun _ => returns_ok _).trans ?_
      constructor
      · exact exists_announces_of_required h
      · rintro ⟨args, ha⟩
        exact required_always ha fun e he => unwrapBinary_returns (ha.made h e he)
    · refine iff_of_true ?_ fun h1 => absurd h1 hone
      split
      · exact returns_ok _
      · rw [required_beyond hcount (by omega)]
        exact returns_ok _

theorem readInit_returns (h : Made list) : Returns (readInit list) ↔ InitFits list := by
  unfold readInit InitFits
  cases hcount : list.count with
  | indet => exact iff_of_false (not_returns_error _) fun ⟨_, hn, _⟩ => by cases hn
  | null => exact iff_of_false (not_returns_error _) fun ⟨_, hn, _⟩ => by cases hn
  | ref n =>
    simp only [Ptr.ref.injEq, exists_eq_left']
    rw [Ptr.deref_ref, ok_bind]
    by_cases hrange : 1 ≤ n ∧ n ≤ 3
    · rw [if_neg (by omega), forall_prop_of_true hrange.1, forall_prop_of_true hrange.2]
      have hchain : Returns (do
          let mechanism ← required list 0 unwrapSymbol
          let initialResponse ← optional list 1 unwrapBinary
          let hostName ← optional list 2 unwrapString
          pure (some (Packet.init
            { mechanism, initialResponse, initialResponseLength := .indet, hostName }))) ↔
          Returns (required list 0 unwrapSymbol) ∧ Returns (optional list 1 unwrapBinary) ∧
            Returns (optional list 2 unwrapString) :=
        returns_bind fun _ _ => returns_bind fun _ _ => returns_bind_ok fun _ => returns_ok _
      have hfits {args} (ha : Announces list args) : Returns (required list 0 unwrapSymbol) ↔
          RequiredFits args 0 (¬ ·.Is [.symbol32]) :=
        required_returns ha fun e he => unwrapSymbol_returns (ha.made h e he)
      rw [hchain]
      constructor
      · rintro ⟨hfirst, -, hhost⟩
        obtain ⟨args, ha⟩ := exists_announces_of_required h hfirst
        exact ⟨args, ha, (hfits ha).1 hfirst, (optional_string h ha).1 hhost⟩
      · rintro ⟨args, ha, hfirst, hhost⟩
        exact ⟨(hfits ha).2 hfirst, optional_binary h ha, (optional_string h ha).2 hhost⟩
    · refine iff_of_true ?_ fun h1 h3 => absurd ⟨h1, h3⟩ hrange
      split
      · exact returns_ok _
      · rw [required_beyond hcount (by omega), optional_beyond hcount (by omega),
          optional_beyond hcount (by omega)]
        exact returns_ok _

theorem array_ne_null {e : TlvAmqp} (his : e.Is arrayTypes) : ¬ e.Is [.amqpNull] := by
  obtain ⟨t, ht, hcode⟩ := his
  intro hnull
  rw [is_singleton, hcode, Cell.is.injEq] at hnull
  simp only [arrayTypes, List.mem_cons, List.not_mem_nil, or_false] at ht
  rcases ht with rfl | rfl <;> exact absurd hnull (by decide)

/-- The mechanism that `send_amqp_sasl_init` takes for a symbol is one. -/
theorem readMechanisms_symbol (h : Made list) :
    (∃ s, readMechanisms list = .ok (some (.mechanisms ⟨.ref (.symbol s)⟩))) ↔
      ∃ args, Announces list args ∧ MechanismsFits args := by
  have hread (s : AmqpSymbol) : readMechanisms list = .ok (some (.mechanisms ⟨.ref (.symbol s)⟩)) ↔
      optional list 0 unwrapArrayHead = .ok (.ref (.symbol s)) := by
    unfold readMechanisms
    cases optional list 0 unwrapArrayHead with
    | error e => exact iff_of_false (fun hs => by cases hs) fun hs => by cases hs
    | ok p =>
      simp only [ok_bind, pure_eq_ok, Except.ok.injEq, Option.some.injEq, Packet.mechanisms.injEq,
        SaslMechanisms.mk.injEq]
  simp only [hread]
  constructor
  · rintro ⟨s, hs⟩
    obtain ⟨args, ha⟩ := exists_announces_of_optional h ⟨_, hs⟩
    refine ⟨args, ha, ?_⟩
    rw [optional_eq_given] at hs
    rcases given_cases h ha unwrapArrayHead (pure .indet) (pure .indet) with
      ⟨-, heq⟩ | ⟨e, he, hmade, ⟨-, heq⟩ | ⟨-, heq⟩⟩ <;> rw [heq] at hs
    · cases hs
    · cases hs
    · obtain ⟨his, hu, v, vs, hlist, hv⟩ := (unwrapArrayHead_eq_ok hmade).1 hs
      have hsymbol := unwrap_eq_symbol (hmade.elements his hlist v List.mem_cons_self)
      exact ⟨e, he, his, hu, v, vs, hlist, hsymbol.1 ⟨s, hv⟩⟩
  · rintro ⟨args, ha, e, he, his, hu, v, vs, hlist, hv⟩
    have hmade := ha.made h e (List.mem_of_getElem? he)
    have hsymbol := unwrap_eq_symbol (hmade.elements his hlist v List.mem_cons_self)
    obtain ⟨s, hs⟩ := hsymbol.2 hv
    refine ⟨s, ?_⟩
    rw [optional_eq_given]
    rcases given_cases h ha unwrapArrayHead (pure .indet) (pure .indet) with
      ⟨hnone, -⟩ | ⟨e', he', -, ⟨hnull, -⟩ | ⟨-, heq⟩⟩
    · rw [hnone] at he
      cases he
    · rw [he] at he'
      cases he'
      exact absurd hnull (array_ne_null his)
    · rw [he] at he'
      cases he'
      rw [heq]
      exact (unwrapArrayHead_eq_ok hmade).2 ⟨his, hu, v, vs, hlist, hs⟩

/-- The code of an outcome is always stored. -/
theorem readOutcome_code {p : Packet} (hp : readOutcome list = .ok (some p)) :
    ∃ code data, p = .outcome ⟨.is code, data⟩ := by
  obtain ⟨n, -, -, hp⟩ := counted_eq_ok hp
  obtain ⟨q, -, hp⟩ := bind_eq_ok.1 hp
  obtain ⟨code, -, hp⟩ := bind_eq_ok.1 hp
  split at hp
  case isTrue =>
    obtain ⟨data, -, hp⟩ := bind_eq_ok.1 hp
    cases hp
    exact ⟨code, data, rfl⟩
  case isFalse =>
    cases hp
    exact ⟨code, .indet, rfl⟩

theorem gives_readOutcome (h : Made list) :
    Gives (readOutcome list) ↔ ∃ args, Announces list args ∧ OutcomeFits args := by
  refine exists_announces_iff (fun ⟨p, hp⟩ => ?_) fun args ha => ?_
  · obtain ⟨n, -, -, hp⟩ := counted_eq_ok hp
    obtain ⟨q, hq, -⟩ := bind_eq_ok.1 hp
    exact exists_announces_of_required h ⟨q, hq⟩
  · obtain ⟨n, hn, hlen, hlist⟩ := id ha
    unfold readOutcome
    rw [hn, Ptr.deref_ref, ok_bind]
    by_cases hrange : n = 0 ∨ n > 2
    · rw [if_pos hrange]
      refine iff_of_false not_gives_none fun hf => ?_
      obtain ⟨e, he, -⟩ := hf.code
      obtain ⟨hlt, -⟩ := List.getElem?_eq_some_iff.1 he
      have hle := hf.length_le
      omega
    · rw [if_neg hrange]
      have hrest (code : Int) : Gives (do
          let additionalData ← if n > 1 then optional list 0 unwrapBinary else pure .indet
          pure (some (Packet.outcome { outcomeCode := .is code, additionalData }))) := by
        split
        · exact (gives_skip (optional_binary h ha) fun _ _ =>
            iff_true_intro (gives_some _)).2 trivial
        · exact gives_some _
      have hread : Returns (required list 0 unwrapUbyte) :=
        required_always ha fun e he => unwrapUbyte_returns (ha.made h e he)
      refine Iff.trans (gives_skip hread fun p hp =>
        gives_last (required_deref h ha (fun _ => unwrapUbyte_deref) hp) hrest) ?_
      exact ⟨fun hcode => ⟨by omega, hcode⟩, OutcomeFits.code⟩

/-! ### Termini -/

/-- What source and target have in common. -/
structure TerminusFits (args : List TlvAmqp) : Prop where
  address : OptionalFits args 0 (¬ ·.Is [.string32])
  durable : OptionalFits args 1 (·.Is uintTypes)
  expiryPeriod : OptionalFits args 2 (·.Is [.symbol8])
  dynamicNodeProperties : OptionalFits args 5 fun _ => ∃ e ∈ args[4]?, e.IsTrue

structure SourceFits (args : List TlvAmqp) : Prop extends TerminusFits args where
  distributionMode : OptionalFits args 6 (·.Is [.symbol8])
  defaultOutcome : OptionalFits args 8 fun e => e.Is listTypes ∧ ∃ code, e.Described code
  outcomes : OptionalFits args 9 fun e => e.Is arrayTypes → Unwraps e
  capabilities : OptionalFits args 10 fun e => e.Is arrayTypes → Unwraps e

structure TargetFits (args : List TlvAmqp) : Prop extends TerminusFits args where
  capabilities : OptionalFits args 6 fun e => e.Is arrayTypes → Unwraps e

theorem bool_ne_null {e : TlvAmqp} (h : e.IsTrue ∨ e.IsFalse) : ¬ e.Is [.amqpNull] := by
  intro hnull
  rw [is_singleton] at hnull
  unfold TlvAmqp.IsTrue TlvAmqp.IsFalse at h
  simp only [is_singleton, hnull, Cell.is.injEq] at h
  revert h
  simp [AmqpType.toByte]

/-- The flag `dynamic` that was read is set. -/
theorem dynamic_iff (h : Made list) (ha : Announces list args) {k : Nat} {dynamic : Ptr Int}
    (hd : optional list k unwrapBool = .ok dynamic) :
    (∃ v, dynamic = .ref v ∧ v ≠ 0) ↔ ∃ e ∈ args[k]?, e.IsTrue := by
  rw [optional_eq_given] at hd
  rcases given_cases h ha unwrapBool (pure .indet) (pure .indet) with
    ⟨hnone, heq⟩ | ⟨e, he, hmade, ⟨hnull, heq⟩ | ⟨-, heq⟩⟩ <;> rw [heq] at hd
  · cases hd
    exact iff_of_false (fun ⟨_, hv, _⟩ => by cases hv) (not_mem_argument_none hnone)
  · cases hd
    rw [mem_argument_some he]
    exact iff_of_false (fun ⟨_, hv, _⟩ => by cases hv) fun ht => bool_ne_null (.inl ht) hnull
  · rw [mem_argument_some he]
    rcases unwrapBool_cases hmade with ⟨ht, -, hb⟩ | ⟨-, ht, hb⟩ | ⟨ht, -, hb⟩ <;>
      rw [hb] at hd <;> cases hd
    · exact iff_of_true ⟨1, rfl, by decide⟩ ht
    · refine iff_of_false (fun ⟨_, hv, hne⟩ => ?_) ht
      cases hv
      exact hne rfl
    · exact iff_of_false (fun ⟨_, hv, _⟩ => by cases hv) ht

theorem gives_readNodeProperties (h : Made list) (ha : Announces list args) {dynamic : Ptr Int}
    (hd : optional list 4 unwrapBool = .ok dynamic) :
    Gives (readNodeProperties list dynamic) ↔
      OptionalFits args 5 fun _ => ∃ e ∈ args[4]?, e.IsTrue := by
  refine given_iff (Q := Gives) h ha (gives_some _) fun e hmade => ?_
  rw [← dynamic_iff h ha hd]
  cases dynamic with
  | indet => exact iff_of_false (fun ⟨_, hp⟩ => by cases hp) fun ⟨_, hv, _⟩ => by cases hv
  | null => exact iff_of_false (fun ⟨_, hp⟩ => by cases hp) fun ⟨_, hv, _⟩ => by cases hv
  | ref v =>
    rw [Ptr.nonNull_ref, ok_bind, if_pos rfl, Ptr.deref_ref, ok_bind]
    simp only [Ptr.ref.injEq, exists_eq_left']
    split
    case isTrue hne => exact iff_of_true (gives_map.2 (unwrapNothing_returns hmade)) hne
    case isFalse heq => exact iff_of_false not_gives_none heq

theorem gives_ifList {α : Type} {e : TlvAmqp} {x : Run (Option α)} (hmade : Made e) :
    Gives (do if ← e.isList then x else pure none) ↔ e.Is listTypes ∧ Gives x := by
  obtain ⟨b, hb, hiff⟩ := isList_eq hmade
  rw [hb, ok_bind, ← hiff]
  cases b with
  | true => exact (and_iff_right rfl).symm
  | false => exact iff_of_false not_gives_none fun hf => absurd hf.1 Bool.false_ne_true

theorem gives_readDefaultOutcome (h : Made list) (ha : Announces list args) :
    Gives (readDefaultOutcome list) ↔
      OptionalFits args 8 fun e => e.Is listTypes ∧ ∃ code, e.Described code := by
  refine given_iff (Q := Gives) h ha (gives_some _) fun e hmade => ?_
  rw [gives_ifList hmade, gives_map, getOutcome_returns]

theorem gives_readSource (h : Made list) :
    Gives (readSource list) ↔ ∃ args, Announces list args ∧ SourceFits args := by
  refine exists_announces_iff (fun ⟨p, hp⟩ => ?_) fun args ha => ?_
  · obtain ⟨address, haddress, -⟩ := bind_eq_ok.1 hp
    exact exists_announces_of_optional h ⟨address, haddress⟩
  · unfold readSource
    refine Iff.trans (gives_field (optional_string h ha) fun _ _ =>
      gives_field (optional_uintCopy h ha) fun _ _ =>
      gives_field (optional_symbolChars h ha) fun _ _ =>
      gives_skip (optional_uint h ha) fun _ _ => gives_skip (optional_bool h ha) fun _ hd =>
      gives_nested (gives_readNodeProperties h ha hd) fun _ _ =>
      gives_field (optional_symbolChars h ha) fun _ _ =>
      gives_skip (optional_nothing h ha) fun _ _ =>
      gives_nested (gives_readDefaultOutcome h ha) fun _ _ =>
      gives_field (optional_array h ha) fun _ _ =>
      gives_last (optional_array h ha) fun _ => gives_some _) ?_
    constructor
    · rintro ⟨h0, h1, h2, h5, h6, h8, h9, h10⟩
      exact ⟨⟨h0, h1, h2, h5⟩, h6, h8, h9, h10⟩
    · rintro ⟨⟨h0, h1, h2, h5⟩, h6, h8, h9, h10⟩
      exact ⟨h0, h1, h2, h5, h6, h8, h9, h10⟩

theorem gives_readTarget (h : Made list) :
    Gives (readTarget list) ↔ ∃ args, Announces list args ∧ TargetFits args := by
  refine exists_announces_iff (fun ⟨p, hp⟩ => ?_) fun args ha => ?_
  · obtain ⟨address, haddress, -⟩ := bind_eq_ok.1 hp
    exact exists_announces_of_optional h ⟨address, haddress⟩
  · unfold readTarget
    refine Iff.trans (gives_field (optional_string h ha) fun _ _ =>
      gives_field (optional_uintCopy h ha) fun _ _ =>
      gives_field (optional_symbolChars h ha) fun _ _ =>
      gives_skip (optional_uint h ha) fun _ _ => gives_skip (optional_bool h ha) fun _ hd =>
      gives_nested (gives_readNodeProperties h ha hd) fun _ _ =>
      gives_last (optional_array h ha) fun _ => gives_some _) ?_
    constructor
    · rintro ⟨h0, h1, h2, h5, h6⟩
      exact ⟨⟨h0, h1, h2, h5⟩, h6⟩
    · rintro ⟨⟨h0, h1, h2, h5⟩, h6⟩
      exact ⟨h0, h1, h2, h5, h6⟩

/-! ### ATTACH -/

/-- The arguments that are read as an ATTACH. A null in the place of the delivery count is taken
of a receiver only. -/
structure AttachReads (args : List TlvAmqp) : Prop where
  length_ge : 3 ≤ args.length
  length_le : args.length ≤ 14
  name : RequiredFits args 0 (¬ ·.Is [.string32])
  role : RequiredFits args 2 fun e => e.IsTrue ∨ e.IsFalse
  sndSettleMode : OptionalFits args 3 (·.Is [.ubyte])
  rcvSettleMode : OptionalFits args 4 (·.Is [.ubyte])
  source : OptionalFits args 5 fun e => e.Is listTypes ∧
    ∃ inner, Announces e inner ∧ SourceFits inner
  target : OptionalFits args 6 fun e => ∃ inner, Announces e inner ∧ TargetFits inner
  initialDeliveryCount : RequiredFits args 9 fun e => e.Is [.amqpNull] →
    RequiredFits args 2 TlvAmqp.IsTrue
  maxMessageSize : OptionalFits args 10 (¬ ·.Is [.ulong])
  offeredCapabilities : OptionalFits args 11 fun e => e.Is arrayTypes → Unwraps e
  desiredCapabilities : OptionalFits args 12 fun e => e.Is arrayTypes → Unwraps e

theorem gives_readAttachSource (h : Made list) (ha : Announces list args) :
    Gives (readAttachSource list) ↔ OptionalFits args 5 fun e => e.Is listTypes ∧
      ∃ inner, Announces e inner ∧ SourceFits inner := by
  refine given_iff (Q := Gives) h ha (gives_some _) fun e hmade => ?_
  rw [gives_ifList hmade, ← gives_readSource hmade]
  refine and_congr_right fun _ => Iff.trans (gives_nested Iff.rfl fun _ _ =>
    iff_true_intro (gives_some _)) (iff_of_eq (and_true _))

theorem gives_readAttachTarget (h : Made list) (ha : Announces list args) :
    Gives (readAttachTarget list) ↔ OptionalFits args 6 fun e =>
      ∃ inner, Announces e inner ∧ TargetFits inner := by
  refine given_iff (Q := Gives) h ha (gives_some _) fun e hmade => ?_
  rw [← gives_readTarget hmade]
  exact Iff.trans (gives_nested Iff.rfl fun _ _ => iff_true_intro (gives_some _))
    (iff_of_eq (and_true _))

/-- The role that was read. -/
theorem role_cases (h : Made list) (ha : Announces list args) {e : TlvAmqp} (he : args[2]? = some e)
    {role : Ptr RoleCode} (hr : required list 2 (copied RoleCode.ofInt unwrapBool) = .ok role) :
    role = .ref .receiver ∧ e.IsTrue ∧ ¬ e.IsFalse ∨
      role = .ref .sender ∧ e.IsFalse ∧ ¬ e.IsTrue := by
  rcases required_cases ha (copied RoleCode.ofInt unwrapBool) with
    ⟨hnone, -⟩ | ⟨e', he', heq⟩
  · rw [he] at hnone
    cases hnone
  · rw [he] at he'
    cases he'
    rw [heq] at hr
    unfold copied at hr
    rcases unwrapBool_cases (ha.made h e (List.mem_of_getElem? he)) with
      ⟨ht, hf, hb⟩ | ⟨hf, ht, hb⟩ | ⟨-, -, hb⟩ <;> rw [hb] at hr <;> cases hr
    · exact .inl ⟨rfl, ht, hf⟩
    · exact .inr ⟨rfl, hf, ht⟩

theorem copied_bool {β : Type} {f : Int → β} {e : TlvAmqp} (h : Made e) :
    Returns (copied f unwrapBool e) ↔ e.IsTrue ∨ e.IsFalse := by
  unfold copied
  rcases unwrapBool_cases h with ⟨ht, -, hb⟩ | ⟨hf, -, hb⟩ | ⟨ht, hf, hb⟩ <;> rw [hb]
  · exact iff_of_true (returns_ok _) (.inl ht)
  · exact iff_of_true (returns_ok _) (.inr hf)
  · exact iff_of_false (not_returns_error _) (not_or.2 ⟨ht, hf⟩)

theorem gives_readDeliveryCount (h : Made list) (ha : Announces list args) {e : TlvAmqp}
    (he : args[2]? = some e) {role : Ptr RoleCode}
    (hr : required list 2 (copied RoleCode.ofInt unwrapBool) = .ok role) :
    Gives (readDeliveryCount list role) ↔ RequiredFits args 9 fun e => e.Is [.amqpNull] →
      RequiredFits args 2 TlvAmqp.IsTrue := by
  have hgiven : readDeliveryCount list role = given list 9 (fun element => some <$> unwrapUint element)
      (do if (← role.deref) = .sender then pure none else pure (some .indet))
      (pure (some .indet)) := rfl
  rw [hgiven]
  rcases given_cases h ha (fun element => some <$> unwrapUint element)
      (do if (← role.deref) = .sender then pure none else pure (some .indet))
      (pure (some .indet)) with
    ⟨hnone, heq⟩ | ⟨e', he', hmade, ⟨hnull, heq⟩ | ⟨hnull, heq⟩⟩ <;> rw [heq]
  · exact iff_of_true (gives_some _) (requiredFits_none hnone)
  · rw [requiredFits_some he', requiredFits_some he, forall_prop_of_true hnull]
    rcases role_cases h ha he hr with ⟨rfl, ht, -⟩ | ⟨rfl, -, hf⟩
    · exact iff_of_true (gives_some _) ht
    · exact iff_of_false not_gives_none hf
  · rw [requiredFits_some he']
    exact iff_of_true (gives_map.2 (unwrapUint_returns hmade)) fun his => absurd his hnull

theorem required_string (h : Made list) (ha : Announces list args) {k : Nat} :
    Returns (required list k unwrapString) ↔ RequiredFits args k (¬ ·.Is [.string32]) :=
  required_returns ha fun e he => unwrapString_returns (ha.made h e he)

theorem required_boolCopy {β : Type} {f : Int → β} (h : Made list) (ha : Announces list args)
    {k : Nat} : Returns (required list k (copied f unwrapBool)) ↔
      RequiredFits args k fun e => e.IsTrue ∨ e.IsFalse :=
  required_returns ha fun e he => copied_bool (ha.made h e he)

theorem optional_ulong (h : Made list) (ha : Announces list args) {k : Nat} :
    Returns (optional list k unwrapUlong) ↔ OptionalFits args k (¬ ·.Is [.ulong]) :=
  optional_returns ha h fun _ => unwrapUlong_returns

theorem gives_readAttach (h : Made list) :
    Gives (readAttach list) ↔ ∃ args, Announces list args ∧ AttachReads args := by
  refine exists_announces_iff (fun ⟨p, hp⟩ => ?_) fun args ha => ?_
  · obtain ⟨n, -, -, hp⟩ := counted_eq_ok hp
    obtain ⟨name, hname, -⟩ := bind_eq_ok.1 hp
    exact exists_announces_of_required h ⟨name, hname⟩
  · obtain ⟨n, hn, hlen, -⟩ := id ha
    unfold readAttach
    rw [hn, Ptr.deref_ref, ok_bind]
    by_cases hrange : n < 3 ∨ n > 14
    · rw [if_pos hrange]
      refine iff_of_false not_gives_none fun hf => ?_
      have hge := hf.length_ge
      have hle := hf.length_le
      omega
    · rw [if_neg hrange]
      have he : args[2]? = some args[2] := List.getElem?_eq_getElem (by omega)
      refine Iff.trans (gives_field (required_string h ha) fun _ _ =>
        gives_skip (required_uint h ha) fun _ _ => gives_field (required_boolCopy h ha) fun _ hr =>
        gives_field (optional_ubyteCopy h ha) fun _ _ =>
        gives_field (optional_ubyteCopy h ha) fun _ _ =>
        gives_nested (gives_readAttachSource h ha) fun _ _ =>
        gives_nested (gives_readAttachTarget h ha) fun _ _ =>
        gives_skip (optional_nothing h ha) fun _ _ => gives_skip (optional_bool h ha) fun _ _ =>
        gives_nested (gives_readDeliveryCount h ha he hr) fun _ _ =>
        gives_field (optional_ulong h ha) fun _ _ => gives_field (optional_array h ha) fun _ _ =>
        gives_field (optional_array h ha) fun _ _ =>
        gives_skip (optional_nothing h ha) fun _ _ => iff_true_intro (gives_some _)) ?_
      constructor
      · rintro ⟨h0, h2, h3, h4, h5, h6, h9, h10, h11, h12, -⟩
        exact ⟨by omega, by omega, h0, h2, h3, h4, h5, h6, h9, h10, h11, h12⟩
      · rintro ⟨-, -, h0, h2, h3, h4, h5, h6, h9, h10, h11, h12⟩
        exact ⟨h0, h2, h3, h4, h5, h6, h9, h10, h11, h12, trivial⟩

/-- The fields of an ATTACH that `process_amqp_rx` looks at, and the target. -/
theorem readAttach_ok {p : Packet} (hp : readAttach list = .ok (some p)) : ∃ attach,
    p = .attach attach ∧ required list 0 unwrapString = .ok attach.name ∧
      required list 1 unwrapUint = .ok attach.handle ∧
      required list 2 (copied RoleCode.ofInt unwrapBool) = .ok attach.role ∧
      readAttachTarget list = .ok (some attach.target) := by
  obtain ⟨n, -, -, hp⟩ := counted_eq_ok hp
  obtain ⟨name, hname, hp⟩ := bind_eq_ok.1 hp
  obtain ⟨handle, hhandle, hp⟩ := bind_eq_ok.1 hp
  obtain ⟨role, hrole, hp⟩ := bind_eq_ok.1 hp
  obtain ⟨_, -, hp⟩ := bind_eq_ok.1 hp
  obtain ⟨_, -, hp⟩ := bind_eq_ok.1 hp
  obtain ⟨source, -, hp⟩ := nested_eq_ok hp
  obtain ⟨target, htarget, hp⟩ := nested_eq_ok hp
  obtain ⟨_, -, hp⟩ := bind_eq_ok.1 hp
  obtain ⟨_, -, hp⟩ := bind_eq_ok.1 hp
  obtain ⟨count, -, hp⟩ := nested_eq_ok hp
  obtain ⟨_, -, hp⟩ := bind_eq_ok.1 hp
  obtain ⟨_, -, hp⟩ := bind_eq_ok.1 hp
  obtain ⟨_, -, hp⟩ := bind_eq_ok.1 hp
  obtain ⟨_, -, hp⟩ := bind_eq_ok.1 hp
  cases hp
  exact ⟨_, rfl, hname, hhandle, hrole, htarget⟩

end Performatives

end IotClient.Amqp
