import Mathlib.Data.List.DropRight
import IotClient.Amqp.Encoding

/-!
# Lists of fields

A slot is the encoding of a field, or `none` when the field is absent. `add_arguments` writes a
null for an absent field, and no field behind the last one that is present (`trim`).
`Filled a cs` says what the locals `a` are after the slots `cs`; each field extends it by one
slot, and `Args.finish_fills` gives the cells of the finished list. `Collected` and
`Args.finish_calculated` are the same for slots that are written whole.
-/

namespace IotClient.Amqp

open Mem

/-! ### Slots -/

def slotBytes : Option (List UInt8) → List UInt8
  | none => [AmqpType.amqpNull.toByte]
  | some out => out

/-- The bytes of consecutive slots. -/
def slotsBytes (ts : List (Option (List UInt8))) : List UInt8 := (ts.map slotBytes).flatten

def slotCells : Option Block → Block
  | none => [some AmqpType.amqpNull.toByte]
  | some cells => cells

/-- The cells of consecutive slots. -/
def slotsCells (cs : List (Option Block)) : Block := (cs.map slotCells).flatten

/-- Slots that are written whole, as cells. -/
def cellSlots (ts : List (Option (List UInt8))) : List (Option Block) :=
  ts.map (Option.map (List.map some))

theorem slotsCells_cellSlots (ts : List (Option (List UInt8))) :
    slotsCells (cellSlots ts) = (slotsBytes ts).map some := by
  have hslot : slotCells ∘ Option.map (List.map some) = List.map some ∘ slotBytes := by
    funext t
    cases t <;> rfl
  unfold slotsCells cellSlots slotsBytes
  rw [List.map_map, hslot, List.map_flatten, List.map_map]

/-- The slots up to the last one that is present. -/
def trim {α : Type} (ts : List (Option α)) : List (Option α) := ts.rdropWhile Option.isNone

section Trim

variable {α : Type} (ts : List (Option α))

@[simp] theorem trim_nil : trim ([] : List (Option α)) = [] := rfl

@[simp] theorem trim_none : trim (ts ++ [none]) = trim ts :=
  List.rdropWhile_concat_pos _ _ _ rfl

@[simp] theorem trim_some (x : α) : trim (ts ++ [some x]) = ts ++ [some x] :=
  List.rdropWhile_concat_neg _ _ _ (by simp)

/-- Behind the trimmed slots there are absent ones only. -/
theorem trim_append : ∃ k, ts = trim ts ++ List.replicate k none := by
  induction ts using List.reverseRecOn with
  | nil => exact ⟨0, rfl⟩
  | append_singleton ts t ih =>
    cases t with
    | none =>
      obtain ⟨k, hk⟩ := ih
      refine ⟨k + 1, ?_⟩
      rw [trim_none, List.replicate_succ', ← List.append_assoc, ← hk]
    | some x => exact ⟨0, by simp⟩

theorem trim_append_none (k : Nat) : trim (ts ++ List.replicate k none) = trim ts := by
  induction k with
  | zero => rw [List.replicate_zero, List.append_nil]
  | succ k ih => rw [List.replicate_succ', ← List.append_assoc, trim_none, ih]

theorem trim_map_some (xs : List α) : trim (xs.map some) = xs.map some := by
  rcases List.eq_nil_or_concat xs with rfl | ⟨ys, x, rfl⟩
  · rfl
  · rw [List.concat_eq_append, List.map_append, List.map_singleton, trim_some]

theorem trim_map {β : Type} (f : α → β) :
    trim (ts.map (Option.map f)) = (trim ts).map (Option.map f) := by
  induction ts using List.reverseRecOn with
  | nil => rfl
  | append_singleton ts t ih =>
    rw [List.map_append, List.map_singleton]
    cases t with
    | none => rw [Option.map_none, trim_none, trim_none, ih]
    | some x => rw [Option.map_some, trim_some, trim_some, List.map_append, List.map_singleton,
        Option.map_some]

end Trim

theorem slotsCells_append (cs ds : List (Option Block)) :
    slotsCells (cs ++ ds) = slotsCells cs ++ slotsCells ds := by
  simp [slotsCells]

/-- An absent slot that is not trimmed takes one byte. -/
theorem length_slotsCells_trim (cs : List (Option Block)) :
    (slotsCells cs).length + (trim cs).length = (slotsCells (trim cs)).length + cs.length := by
  obtain ⟨k, hk⟩ := trim_append cs
  have hnone : (slotsCells (List.replicate k none)).length = k := by
    simp [slotsCells, slotCells]
  have hcells := congrArg (fun ds => (slotsCells ds).length) hk
  have hlen := congrArg List.length hk
  simp only [slotsCells_append, List.length_append, hnone, List.length_replicate] at hcells hlen
  omega

/-! ### Collecting fields -/

/-- The locals after the slots `cs`. -/
structure Filled (a : Args) (cs : List (Option Block)) : Prop where
  fills : List.Forall₂ Fills a.list (cs.map slotCells)
  size : a.size + cs.length = a.countNotNull + (slotsCells cs).length
  count : a.count = if trim cs = [] then .indet else .is (trim cs).length

theorem Filled.empty : Filled .empty [] :=
  ⟨.nil, rfl, rfl⟩

theorem forall₂_snoc {α β : Type} {R : α → β → Prop} {xs : List α} {ys : List β} {x : α} {y : β}
    (h : List.Forall₂ R xs ys) (hxy : R x y) : List.Forall₂ R (xs ++ [x]) (ys ++ [y]) := by
  induction h with
  | nil => exact .cons hxy .nil
  | cons h _ ih => exact .cons h ih

theorem Filled.skip {a : Args} {cs : List (Option Block)} (h : Filled a cs) :
    Filled a.skip (cs ++ [none]) := by
  refine ⟨?_, ?_, ?_⟩
  · rw [List.map_append, List.map_singleton]
    exact forall₂_snoc h.fills wrapNull_holds.fills
  · have hsize := h.size
    rw [slotsCells_append]
    simp only [Args.skip, List.length_append, List.length_singleton, slotsCells, List.map_singleton,
      slotCells, List.flatten_singleton] at hsize ⊢
    omega
  · rw [trim_none]; exact h.count

theorem Filled.add {a : Args} {cs : List (Option Block)} {tlv : TlvAmqp} {cells : Block} {k : Int}
    (h : Filled a cs) (ht : Fills tlv cells) (hk : k = cs.length + 1) :
    ∃ a', a.add k tlv = .ok a' ∧ Filled a' (cs ++ [some cells]) := by
  rw [Args.add, ht.length, Cell.get_is, ok_bind]
  refine ⟨_, rfl, ?_, ?_, ?_⟩
  · rw [List.map_append, List.map_singleton]
    exact forall₂_snoc h.fills ht
  · have hsize := h.size
    rw [slotsCells_append]
    simp only [List.length_append, List.length_singleton, slotsCells, List.map_singleton,
      slotCells, List.flatten_singleton] at hsize ⊢
    omega
  · rw [trim_some, if_neg (by simp), hk]
    simp

/-- The locals after slots that are written whole. -/
def Collected (a : Args) (ts : List (Option (List UInt8))) : Prop := Filled a (cellSlots ts)

/-- `c` adds a slot. -/
def Collects (c : Args → Run Args) (k : Int) (t : Option (List UInt8)) : Prop :=
  ∀ a ts, Collected a ts → k = ts.length + 1 → ∃ a', c a = .ok a' ∧ Collected a' (ts ++ [t])

theorem Collected.empty : Collected .empty [] := Filled.empty

theorem Collected.filled_snoc {a : Args} {ts : List (Option (List UInt8))}
    {t : Option (List UInt8)} (h : Filled a (cellSlots ts ++ [t.map (List.map some)])) :
    Collected a (ts ++ [t]) := by
  unfold Collected cellSlots
  rw [List.map_append, List.map_singleton]
  exact h

theorem Collected.skip {a : Args} {ts : List (Option (List UInt8))} (h : Collected a ts) :
    Collected a.skip (ts ++ [none]) := Collected.filled_snoc (Filled.skip h)

theorem field_ref {α : Type} {x : α} {wrap : α → Run TlvAmqp} {out : List UInt8} (k : Int)
    (hw : ∃ tlv, wrap x = .ok tlv ∧ Holds tlv out) :
    Collects (field k (.ref x) wrap) k (some out) := by
  intro a ts h hk
  obtain ⟨tlv, htlv, hholds⟩ := hw
  obtain ⟨a', ha', hfilled⟩ := Filled.add h hholds.fills
    (k := k) (by unfold cellSlots; rw [List.length_map, hk])
  refine ⟨a', ?_, Collected.filled_snoc hfilled⟩
  rw [field, Ptr.nonNull_ref, ok_bind, if_pos rfl, Ptr.deref_ref, ok_bind, htlv, ok_bind, ha']

theorem field_null {α : Type} {wrap : α → Run TlvAmqp} (k : Int) :
    Collects (field k .null wrap) k none :=
  fun _ _ h _ => ⟨_, rfl, h.skip⟩

theorem fieldPtr_ref {α : Type} {x : α} {wrap : α → Run (Ptr TlvAmqp)} {out : List UInt8} (k : Int)
    (hw : ∃ tlv, wrap x = .ok (.ref tlv) ∧ Holds tlv out) :
    Collects (fieldPtr k (.ref x) wrap) k (some out) := by
  obtain ⟨tlv, htlv, hholds⟩ := hw
  refine field_ref k ⟨tlv, ?_, hholds⟩
  rw [htlv, ok_bind, Ptr.deref_ref]

theorem fieldPtr_null {α : Type} {wrap : α → Run (Ptr TlvAmqp)} (k : Int) :
    Collects (fieldPtr k .null wrap) k none := field_null k

/-! ### The finished list -/

theorem widthBytes_eq (w : Width) (n : Nat) : widthBytes w.bytes n = .ok (w.field n) := by
  unfold widthBytes
  rw [if_neg (by omega), if_neg (by cases w <;> decide), int_ofInt_natCast]
  cases w with
  | narrow =>
    show Except.ok [(UInt32.ofNat n).toUInt8] = Except.ok [UInt8.ofNat n]
    rw [int_toByte]
  | wide => rfl

theorem copyValues_fills {list : List TlvAmqp} {css : List Block}
    (h : List.Forall₂ Fills list css) :
    ∀ (pre : Block) (room : Nat), css.flatten.length ≤ room →
      copyValues list (pre ++ .malloc room) pre.length =
        .ok (pre ++ css.flatten ++ .malloc (room - css.flatten.length),
          ((pre ++ css.flatten).length : Int)) := by
  induction h with
  | nil => intro pre room _; simp [copyValues]
  | @cons tlv cells list css ht _ ih =>
    intro pre room hroom
    obtain ⟨tail, htail⟩ := ht.bytes
    rw [List.flatten_cons, List.length_append] at hroom
    have hcopy := Block.copyIn_room pre cells tail room (i := (pre.length : Int).toNat)
      (n := cells.length) (by simp) rfl (by omega)
    have hpos : (pre.length : Int) + cells.length = ((pre ++ cells).length : Nat) := by simp
    unfold copyValues
    rw [htail, Ptr.deref_ref, ok_bind, ht.length, Cell.get_is, ok_bind, hcopy, ok_bind,
      hpos, ih _ _ (by omega)]
    simp [Nat.sub_sub]

/-- The cells of a list with a constructor: fields of width `w`, and the values. -/
def listCells (constructor : List UInt8) (w : Width) (size count : Nat) (values : Block) : Block :=
  constructor.map some ++ ((w.field size).map some ++ ((w.field count).map some ++ values))

/-- The bytes of a list with a constructor: fields of width `w`, and the values. -/
def listBytes (constructor : List UInt8) (w : Width) (size count : Nat) (values : List UInt8) :
    List UInt8 :=
  constructor ++ (w.field size ++ (w.field count ++ values))

theorem listCells_map (constructor : List UInt8) (w : Width) (size count : Nat)
    (values : List UInt8) : listCells constructor w size count (values.map some) =
      (listBytes constructor w size count values).map some := by
  simp [listCells, listBytes]

/-- `get_bytes` writes the values, also when `size` is a little larger than they are. -/
theorem getBytes_fills {list : List TlvAmqp} {css : List Block} {constructor : List UInt8}
    {w : Width} {size count : Nat} {length : Cell Int} {bytes : Ptr Block}
    (h : List.Forall₂ Fills (list.take count) css) (hcount : count ≤ list.length)
    (hc : 0 < constructor.length) (hpos : 0 < size) (hlow : css.flatten.length ≤ size)
    (hhigh : size ≤ css.flatten.length + 3) :
    ∃ l, getBytes ⟨list, constructor, .is w.bytes, .is size, .is count, length, bytes⟩ = .ok l ∧
      Fills l.node (listCells constructor w size count css.flatten) := by
  have helems : (Ptr.ref list).elems count = .ok (list.take count) := by
    unfold Ptr.elems
    split
    case isTrue h0 => rw [h0, List.take_zero]
    case isFalse => rw [Ptr.deref_ref, ok_bind, if_pos hcount]
  obtain ⟨extra, hextra⟩ : ∃ extra, size = css.flatten.length + extra :=
    ⟨size - css.flatten.length, by omega⟩
  have hvalues := copyValues_fills h [] (size * pointerSize)
    (by rw [pointerSize]; omega)
  have hroom : size * pointerSize - css.flatten.length = extra + 7 * size := by
    rw [pointerSize]; omega
  rw [List.nil_append, List.nil_append, List.length_nil, Nat.cast_zero, hroom,
    Block.malloc_add, ← List.append_assoc] at hvalues
  have hlength : (constructor.length : Int) + w.bytes + w.bytes + css.flatten.length =
      ((listCells constructor w size count css.flatten).length : Nat) := by
    simp [listCells]; omega
  have hc0 := Block.copyIn_all [] (constructor.map some)
    ((listCells constructor w size count css.flatten).length * pointerSize)
    (i := 0) (n := constructor.length) rfl (by simp)
    (by simp [listCells, pointerSize]; omega)
  have hc1 := Block.copyIn_all (constructor.map some) ((w.field size).map some)
    ((listCells constructor w size count css.flatten).length * pointerSize - constructor.length)
    (i := constructor.length) (n := w.bytes) (by simp) (by simp)
    (by simp [listCells, pointerSize]; omega)
  have hc2 := Block.copyIn_all (constructor.map some ++ (w.field size).map some)
    ((w.field count).map some)
    ((listCells constructor w size count css.flatten).length * pointerSize - constructor.length -
      w.bytes) (i := constructor.length + w.bytes) (n := w.bytes) (by simp) (by simp)
    (by simp [listCells, pointerSize]; omega)
  have hc3 := Block.copyIn_room
    (constructor.map some ++ (w.field size).map some ++ (w.field count).map some)
    (css.flatten ++ Block.malloc extra) (Block.malloc (7 * size))
    ((listCells constructor w size count css.flatten).length * pointerSize - constructor.length -
      w.bytes - w.bytes) (i := constructor.length + w.bytes + w.bytes) (n := size) (by simp; omega)
    (by rw [List.length_append, Block.length_malloc, hextra])
    (by rw [List.length_append, Block.length_malloc]
        simp only [listCells, List.length_append, List.length_map, Width.length_field, pointerSize]
        omega)
  simp only [List.nil_append, List.length_map, Width.length_field] at hc0 hc1 hc2
  simp only [getBytes, Cell.get_is, ok_bind, widthBytes_eq, Block.mallocPtrs_natCast, helems,
    hvalues, hlength, hc0, if_pos (by omega : (0 : Int) < size), Int.toNat_natCast, hc1, hc2, hc3]
  refine ⟨_, rfl, rfl, ?_, ?_⟩
  · simp only [TlvList.node, listCells, List.append_assoc]
    exact ⟨_, rfl⟩
  · simp only [listCells, List.length_append, List.length_map]; omega

/-- The constructor of a list with a descriptor. -/
def listConstructor (code : UInt8) (w : Width) : List UInt8 :=
  [0, AmqpType.smallUlong.toByte, code, w.listType.toByte]

/-- The list that `calculate_bytes` makes of values. -/
def calculatedCells (code : UInt8) (count : Nat) (values : Block) : Block :=
  if values.length ≤ 255 then
    listCells (listConstructor code .narrow) .narrow values.length count values
  else listCells (listConstructor code .wide) .wide (values.length + 3) count values

/-- The list that `calculate_bytes` makes of values. -/
def calculatedBytes (code : UInt8) (count : Nat) (values : List UInt8) : List UInt8 :=
  if values.length ≤ 255 then
    listBytes [0, AmqpType.smallUlong.toByte, code, AmqpType.list8.toByte] .narrow values.length
      count values
  else
    listBytes [0, AmqpType.smallUlong.toByte, code, AmqpType.list32.toByte] .wide
      (values.length + 3) count values

theorem calculatedCells_map (code : UInt8) (count : Nat) (values : List UInt8) :
    calculatedCells code count (values.map some) = (calculatedBytes code count values).map some := by
  unfold calculatedCells calculatedBytes
  rw [List.length_map, listCells_map, listCells_map]
  split <;> rfl

theorem calculateBytes_fills {list : TlvList} {css : List Block} {count : Nat}
    (code : UInt8) (h : List.Forall₂ Fills (list.list.take count) css)
    (hle : count ≤ list.list.length) (hwidth : list.width = .is 1)
    (hsize : list.size = .is css.flatten.length) (hcount : list.count = .is count)
    (hpos : 0 < css.flatten.length) :
    ∃ l, calculateBytes list code = .ok l ∧
      Fills l.node (calculatedCells code count css.flatten) := by
  unfold calculateBytes
  rw [hsize, Cell.get_is, ok_bind, calculatedCells]
  by_cases hnarrow : css.flatten.length ≤ 255
  · rw [if_neg (by omega), if_pos hnarrow]
    simp only [hwidth, hsize, hcount]
    exact getBytes_fills (w := .narrow) h hle (List.length_pos_of_ne_nil (List.cons_ne_nil _ _)) hpos
      (Nat.le_refl _) (Nat.le_add_right _ _)
  · rw [if_pos (by omega), if_neg hnarrow]
    simp only [hcount]
    exact getBytes_fills (w := .wide) h hle (List.length_pos_of_ne_nil (List.cons_ne_nil _ _))
      (Nat.lt_of_lt_of_le hpos (Nat.le_add_right _ 3)) (Nat.le_add_right _ _) (Nat.le_refl _)

theorem calculateBytes_holds {list : TlvList} {outs : List (List UInt8)} {count : Nat}
    (code : UInt8) (h : List.Forall₂ Holds (list.list.take count) outs)
    (hle : count ≤ list.list.length) (hwidth : list.width = .is 1)
    (hsize : list.size = .is outs.flatten.length) (hcount : list.count = .is count)
    (hpos : 0 < outs.flatten.length) :
    ∃ l, calculateBytes list code = .ok l ∧
      Holds l.node (calculatedBytes code count outs.flatten) := by
  have hflat : (outs.map (List.map some)).flatten = outs.flatten.map some := List.map_flatten.symm
  have hfills : List.Forall₂ Fills (list.list.take count) (outs.map (List.map some)) :=
    List.forall₂_map_right_iff.2 (h.imp fun _ _ => Holds.fills)
  obtain ⟨l, hl, hcells⟩ := calculateBytes_fills code hfills hle hwidth
    (by rw [hflat, List.length_map]; exact hsize) hcount (by rw [hflat, List.length_map]; exact hpos)
  rw [hflat, calculatedCells_map] at hcells
  exact ⟨l, hl, hcells.holds⟩

theorem slotsCells_pos {cs : List (Option Block)} {list : List TlvAmqp} (hne : cs ≠ [])
    (h : List.Forall₂ Fills list (cs.map slotCells)) : 0 < (slotsCells cs).length := by
  cases cs with
  | nil => exact absurd rfl hne
  | cons c cs =>
    cases h with
    | cons ht _ => simp [slotsCells, ht.pos]

/-- The list of the fields that were collected. -/
theorem Args.finish_fills {a : Args} {cs : List (Option Block)} (code : UInt8)
    (h : Filled a cs) (hne : trim cs ≠ []) :
    ∃ l, a.finish code = .ok l ∧
      Fills l.node (calculatedCells code (trim cs).length (slotsCells (trim cs))) := by
  have hcount := h.count
  have hcells := length_slotsCells_trim cs
  have hsum := h.size
  rw [if_neg hne] at hcount
  have hsizes : a.size + (((trim cs).length : Int) - a.countNotNull) =
      ((slotsCells (trim cs)).length : Nat) := by omega
  obtain ⟨n, hn⟩ := trim_append cs
  have htake := List.forall₂_take (trim cs).length h.fills
  have hslots : (cs.map slotCells).take (trim cs).length = (trim cs).map slotCells := by
    rw [← List.map_take]
    exact congrArg _ (List.prefix_iff_eq_take.mp ⟨_, hn.symm⟩).symm
  rw [hslots] at htake
  have hle : (trim cs).length ≤ a.list.length := by
    have hlen := congrArg List.length hn
    rw [List.length_append] at hlen
    rw [h.fills.length_eq, List.length_map]
    omega
  have hpos : 0 < (slotsCells (trim cs)).length := slotsCells_pos hne htake
  unfold finish
  rw [hcount, Cell.get_is, ok_bind, hsizes]
  exact calculateBytes_fills code htake hle rfl rfl rfl hpos

theorem Args.finish_calculated {a : Args} {ts : List (Option (List UInt8))} (code : UInt8)
    (h : Collected a ts) (hne : trim ts ≠ []) :
    ∃ l, a.finish code = .ok l ∧
      Holds l.node (calculatedBytes code (trim ts).length (slotsBytes (trim ts))) := by
  have htrim : trim (cellSlots ts) = cellSlots (trim ts) := trim_map ts _
  have hlen : (cellSlots (trim ts)).length = (trim ts).length := List.length_map _
  obtain ⟨l, hl, hcells⟩ := Args.finish_fills code h
    (by rw [htrim]; exact fun hnil => hne (List.map_eq_nil_iff.1 hnil))
  rw [htrim, hlen, slotsCells_cellSlots, calculatedCells_map] at hcells
  exact ⟨l, hl, hcells.holds⟩

end IotClient.Amqp
