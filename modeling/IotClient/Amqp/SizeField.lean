import IotClient.Amqp.Integers
import IotClient.Amqp.Sendable

/-!
# The size field of a list

`SizeRight tlv`: the list's size field counts the bytes that follow it. `sizeRight_iff`: of all
lists that the client encodes those of END and CLOSE have such a field; the others leave out the
count, or all but one byte of it.
-/

namespace IotClient.Amqp

open Mem

/-- A list that the client encodes. -/
inductive AmqpList where
  | performative (header : AmqpHeader)
  | source (s : AmqpSource)
  | target (t : AmqpTarget)

namespace AmqpList

def encode : AmqpList → Run (Ptr TlvAmqp)
  | performative header => Ptr.map TlvList.node <$> addArguments header
  | source s => wrapAmqpSource s
  | target t => wrapAmqpTarget t

/-- The performatives without arguments. -/
def NoArguments : AmqpList → Prop
  | performative header =>
    header.code = .is HeaderCode.amqpEnd.toByte ∨ header.code = .is HeaderCode.close.toByte
  | source _ | target _ => False

end AmqpList

/-- The size field counts the bytes behind it; so a narrow one is taken only when they are few. -/
def SizeRight (tlv : TlvAmqp) : Prop :=
  ∃ code w sizeBytes rest, Fills tlv ((listConstructor code w).map some ++
    (sizeBytes.map some ++ rest)) ∧ sizeBytes.length = w.bytes ∧ bigEndian sizeBytes = rest.length

theorem listConstructor_inj {code code' : UInt8} {w w' : Width}
    (h : listConstructor code w = listConstructor code' w') : w = w' := by
  cases w <;> cases w' <;> simp [listConstructor, Width.listType, AmqpType.toByte] at h ⊢

/-- A list has one size field. -/
theorem listCells_size {code code' : UInt8} {w w' : Width} {size count : Nat} {values rest : Block}
    {sizeBytes : List UInt8} (hlen : sizeBytes.length = w'.bytes)
    (h : listCells (listConstructor code w) w size count values =
      (listConstructor code' w').map some ++ (sizeBytes.map some ++ rest)) :
    w = w' ∧ sizeBytes = w.field size ∧ rest.length = w.bytes + values.length := by
  have hsome := Option.some_injective UInt8
  obtain ⟨hconstructor, htail⟩ := List.append_inj h rfl
  obtain rfl := listConstructor_inj (List.map_injective_iff.2 hsome hconstructor)
  obtain ⟨hsize, hrest⟩ := List.append_inj htail
    (by rw [List.length_map, List.length_map, hlen, Width.length_field])
  refine ⟨rfl, (List.map_injective_iff.2 hsome hsize).symm, ?_⟩
  rw [← hrest, List.length_append, List.length_map, Width.length_field]

/-- The size that `calculate_bytes` writes is smaller than the number of bytes behind it. -/
theorem Positional.not_sizeRight {code : UInt8} {ts : List Slot} {tlv : TlvAmqp}
    (h : Positional code ts tlv) : ¬ SizeRight tlv := by
  obtain ⟨cs, -, hfills⟩ := h
  rintro ⟨code', w, sizeBytes, rest, hfills', hlen, hsize⟩
  have hcells := hfills.unique hfills'
  unfold calculatedCells at hcells
  split at hcells
  case isTrue hle =>
    obtain ⟨rfl, rfl, hrest⟩ := listCells_size hlen hcells
    rw [hrest, Width.field, bigEndian_singleton, toNat_ofNat_of_lt (by omega), Width.bytes] at hsize
    omega
  case isFalse =>
    obtain ⟨rfl, rfl, hrest⟩ := listCells_size hlen hcells
    rw [hrest, Width.field, bigEndian_intBytes, UInt32.toNat_ofNat', Width.bytes] at hsize
    omega

/-- The count of an END or CLOSE is counted. -/
theorem emptyArguments_sizeRight {code : HeaderCode} {l : TlvList}
    (h : emptyArguments code = .ok (.ref l)) : SizeRight l.node := by
  obtain ⟨l', hl', hholds⟩ := emptyArguments_holds code
  obtain rfl : l = l' := Ptr.ref.inj (Except.ok.inj (h.symm.trans hl'))
  exact ⟨code.toByte, .narrow, [2], [some 1, some AmqpType.amqpNull.toByte], hholds.fills, rfl, rfl⟩

theorem listArguments_not_sizeRight {code : UInt8} {ts : List Slot} {l : TlvList}
    (hts : NodesFill ts) (h : listArguments code ts = .ok l) : ¬ SizeRight l.node :=
  (listArguments_ok code hts h).1.not_sizeRight

theorem not_sizeRight_fresh : ¬ SizeRight TlvList.fresh.node := by
  rintro ⟨code, w, sizeBytes, rest, hfills, -⟩
  exact nomatch hfills.length

theorem noArguments_iff {header : AmqpHeader} {b : UInt8} (hb : header.code = .is b) :
    (AmqpList.performative header).NoArguments ↔
      HeaderCode.ofByte b = some .amqpEnd ∨ HeaderCode.ofByte b = some .close := by
  have hcode : ∀ c : HeaderCode, header.code = .is c.toByte ↔ HeaderCode.ofByte b = some c := by
    intro c
    rw [hb, Cell.is.injEq]
    constructor
    · rintro rfl
      exact HeaderCode.ofByte_toByte c
    · exact fun h => (HeaderCode.toByte_of_ofByte h).symm
  exact or_congr (hcode .amqpEnd) (hcode .close)

theorem addArguments_sizeRight {header : AmqpHeader} {l : TlvList}
    (h : addArguments header = .ok (.ref l)) :
    SizeRight l.node ↔ (AmqpList.performative header).NoArguments := by
  obtain ⟨b, hb, h⟩ := bind_eq_ok.1 h
  have hcode : header.code = .is b := by
    cases hheader : header.code with
    | indet =>
      rw [hheader] at hb
      cases hb
    | is b' =>
      rw [hheader] at hb
      rw [Except.ok.inj hb]
  rw [noArguments_iff hcode]
  split at h <;> rename_i hof <;> rw [hof]
  -- the lists of arguments
  case h_1 =>
    obtain ⟨p, -, h⟩ := bind_eq_ok.1 h
    exact iff_of_false (initArguments_ok h).1.not_sizeRight (by simp)
  case h_2 =>
    obtain ⟨p, -, h⟩ := bind_eq_ok.1 h
    exact iff_of_false (listArguments_not_sizeRight p.nodesFill (openArguments_ok h)) (by simp)
  case h_3 =>
    obtain ⟨p, -, h⟩ := bind_eq_ok.1 h
    exact iff_of_false (listArguments_not_sizeRight p.nodesFill (beginArguments_ok h)) (by simp)
  case h_4 =>
    obtain ⟨p, -, h⟩ := bind_eq_ok.1 h
    exact iff_of_false (listArguments_not_sizeRight p.nodesFill (attachArguments_ok h)) (by simp)
  case h_5 =>
    obtain ⟨p, -, h⟩ := bind_eq_ok.1 h
    exact iff_of_false (listArguments_not_sizeRight p.nodesFill (transferArguments_ok h)) (by simp)
  case h_6 =>
    obtain ⟨p, -, h⟩ := bind_eq_ok.1 h
    exact iff_of_false (listArguments_not_sizeRight p.nodesFill (dispositionArguments_ok h)) (by simp)
  case h_7 =>
    obtain ⟨p, -, h⟩ := bind_eq_ok.1 h
    exact iff_of_false (listArguments_not_sizeRight p.nodesFill (detachArguments_ok h)) (by simp)
  -- the performatives without arguments
  case h_8 => exact iff_of_true (emptyArguments_sizeRight h) (.inr rfl)
  case h_9 => exact iff_of_true (emptyArguments_sizeRight h) (.inl rfl)
  -- codes without a case
  all_goals
    obtain rfl := Ptr.ref.inj (Except.ok.inj h)
    exact iff_of_false not_sizeRight_fresh (by simp)

/-- The size fields of END and CLOSE are right, those of the other lists are not. -/
theorem sizeRight_iff (x : AmqpList) {tlv : TlvAmqp} (h : x.encode = .ok (.ref tlv)) :
    SizeRight tlv ↔ x.NoArguments := by
  cases x with
  | performative header =>
    obtain ⟨l, hl, rfl⟩ := ptrMap_ok h
    exact addArguments_sizeRight hl
  | source s => exact iff_of_false (wrapAmqpSource_positional h).not_sizeRight id
  | target t => exact iff_of_false (wrapAmqpTarget_positional h).not_sizeRight id

/-- The list of a CLOSE. -/
theorem sizeRight_iff_close :
    ∃ tlv, (AmqpList.performative
        ⟨.is HeaderCode.close.toByte, .is 2, .is 0, .is 0, .ref .close⟩).encode = .ok (.ref tlv) ∧
      (SizeRight tlv ↔ (AmqpList.performative
        ⟨.is HeaderCode.close.toByte, .is 2, .is 0, .is 0, .ref .close⟩).NoArguments) :=
  ⟨_, rfl, sizeRight_iff _ rfl⟩

/-- The size field of a DETACH of handle 0 is 1, and 2 bytes follow it. -/
theorem detach_size_wrong :
    ∃ tlv, (AmqpList.performative ⟨.is HeaderCode.detach.toByte, .is 2, .is 0, .is 1,
        .ref (.detach ⟨.ref 0, .null, .null⟩)⟩).encode = .ok (.ref tlv) ∧ ¬ SizeRight tlv := by
  have hsendable : (AmqpDetach.mk (.ref 0) .null .null).Sendable fun _ => True :=
    ⟨trivial, trivial, rfl⟩
  have hencode : ∀ p : AmqpDetach, (AmqpList.performative ⟨.is HeaderCode.detach.toByte, .is 2,
      .is 0, .is 1, .ref (.detach p)⟩).encode = Ptr.map TlvList.node <$> detachArguments p :=
    fun _ => rfl
  obtain ⟨l, hl, hpositional, -⟩ := detachArguments_makes hsendable
  refine ⟨l.node, ?_, hpositional.not_sizeRight⟩
  rw [hencode, hl]
  rfl

end IotClient.Amqp
