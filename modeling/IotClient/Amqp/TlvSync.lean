import IotClient.Amqp.TlvFactory
import IotClient.Amqp.Value

/-!
# `get_tlv` stays in sync

`ReadsAs f need out a` says that `f` reads `out` at any position of any buffer, returns `a` and
stops behind `out`, given fuel `need`. There is one rule for each kind of constructor and body,
so what a decoder makes of a frame is read off the way the frame is put together. The induction
over `Val.Ok` needs two statements at once: a value is read by `getTlvFuel`, and the body of
one with a bare format code by `getElement`, which is how the elements of arrays are read.
-/

namespace IotClient.Amqp

open Mem

/-- With fuel `need`, `f` reads `out` as `a`. -/
def ReadsAs {α : Type} (f : Nat → List UInt8 → Nat → Run (α × Nat)) (need : Nat)
    (out : List UInt8) (a : α) : Prop :=
  ∀ fuel buf i s, need ≤ fuel → buf.drop i = out ++ s → f fuel buf i = .ok (a, i + out.length)

/-- `out` is the encoding of a node. -/
def Reads (out : List UInt8) (tlv : TlvAmqp) : Prop :=
  ReadsAs getTlvFuel (2 * out.length + 1) out tlv

/-- `out` is the encoding of a constructor. -/
def ReadsConstructor (out : List UInt8) (c : TlvConstructor TlvAmqp) : Prop :=
  0 < out.length ∧ ReadsAs getConstructor (2 * out.length) out c

/-- `out` is the body of a node whose constructor has the code `code`. -/
def ReadsElement (code : UInt8) (out : List UInt8) (tlv : TlvAmqp) : Prop :=
  ReadsAs (fun fuel => getElement fuel code) (2 * out.length + 1) out tlv

/-! ### Loops -/

section Loops

variable {α : Type} {f : Nat → Run (α × Nat)} {buf : List UInt8}

theorem times_drop {outs : List (List UInt8)} {xs : List α}
    (h : List.Forall₂ (fun out x => ∀ i s, buf.drop i = out ++ s → f i = .ok (x, i + out.length))
      outs xs) :
    ∀ {i s}, buf.drop i = outs.flatten ++ s →
      times f xs.length i = .ok (xs, i + outs.flatten.length) := by
  induction h with
  | nil => intro i s _; rfl
  | @cons out x outs xs hx _ ih =>
    intro i s hd
    rw [List.flatten_cons, List.append_assoc] at hd
    rw [List.length_cons, times, hx i _ hd, ok_bind]
    simp only [ih (drop_add hd), ok_bind, pure_eq_ok, List.flatten_cons, List.length_append,
      Nat.add_assoc]

theorem entriesBelow_stop {stop i room : Nat} (h : stop ≤ i) :
    entriesBelow f stop room i = .ok ([], i) := by
  cases room with
  | zero => rw [entriesBelow, if_neg (by omega)]; rfl
  | succ room => rw [entriesBelow, if_neg (by omega)]; rfl

/-- Reading up to a position gives all entries when they end there, none of them is empty and
the array has room for them. -/
theorem entriesBelow_drop {outs : List (List UInt8 × List UInt8)} {es : List (α × α)}
    (h : List.Forall₂ (fun out e => 0 < out.1.length ∧
        (∀ i s, buf.drop i = out.1 ++ s → f i = .ok (e.1, i + out.1.length)) ∧
        (∀ i s, buf.drop i = out.2 ++ s → f i = .ok (e.2, i + out.2.length))) outs es) :
    ∀ {i s room stop}, buf.drop i = (outs.map fun out => out.1 ++ out.2).flatten ++ s →
      es.length ≤ room → stop = i + (outs.map fun out => out.1 ++ out.2).flatten.length →
      entriesBelow f (stop : Nat) room i = .ok (es, stop) := by
  induction h with
  | nil =>
    intro i s room stop _ _ hstop
    rw [entriesBelow_stop (by rw [hstop]; exact Nat.le_refl _), hstop]; rfl
  | @cons out e outs es he _ ih =>
    intro i s room stop hd hroom hstop
    obtain ⟨hpos, hk, hv⟩ := he
    simp only [List.map_cons, List.flatten_cons, List.append_assoc] at hd hstop
    simp only [List.length_append] at hstop
    obtain ⟨room, rfl⟩ : ∃ r, room = r + 1 := ⟨room - 1, by rw [List.length_cons] at hroom; omega⟩
    have hrest := ih (drop_add (drop_add hd)) (Nat.le_of_succ_le_succ hroom)
      (show stop = i + out.1.length + out.2.length + _ by omega)
    unfold entriesBelow
    rw [if_pos (by omega), hk i _ hd, ok_bind]
    simp only [hv _ _ (drop_add hd), ok_bind, hrest, pure_eq_ok]

end Loops

section Fuel

variable {α : Type} {f : Nat → List UInt8 → Nat → Run (α × Nat)} {buf : List UInt8} {fuel : Nat}

/-- Fuel for the whole is fuel for each part. -/
theorem ReadsAs.forall₂ {outs : List (List UInt8)} {xs : List α}
    (h : List.Forall₂ (fun out x => ReadsAs f (2 * out.length + 1) out x) outs xs) :
    2 * outs.flatten.length + 1 ≤ fuel →
      List.Forall₂ (fun out x => ∀ i s, buf.drop i = out ++ s →
        f fuel buf i = .ok (x, i + out.length)) outs xs := by
  induction h with
  | nil => intro _; exact .nil
  | @cons out x outs xs hx _ ih =>
    intro hfuel
    rw [List.flatten_cons, List.length_append] at hfuel
    exact .cons (fun i s hd => hx fuel buf i s (by omega) hd) (ih (by omega))

theorem times_reads {outs : List (List UInt8)} {xs : List α} {i : Nat} {s : List UInt8}
    (h : List.Forall₂ (fun out x => ReadsAs f (2 * out.length + 1) out x) outs xs)
    (hfuel : 2 * outs.flatten.length + 1 ≤ fuel) (hd : buf.drop i = outs.flatten ++ s) :
    times (f fuel buf) xs.length i = .ok (xs, i + outs.flatten.length) :=
  times_drop (ReadsAs.forall₂ h hfuel) hd

end Fuel

/-- The bytes of the entries of a map. -/
def entryBytes (outs : List (List UInt8 × List UInt8)) : List UInt8 :=
  (outs.map fun out => out.1 ++ out.2).flatten

/-- `outs` holds the encodings of the entries `es`. -/
def ReadsEntries (outs : List (List UInt8 × List UInt8)) (es : List (TlvAmqp × TlvAmqp)) : Prop :=
  List.Forall₂ (fun out e => 0 < out.1.length ∧ Reads out.1 e.1 ∧ Reads out.2 e.2) outs es

theorem entriesBelow_reads {outs : List (List UInt8 × List UInt8)}
    {es : List (TlvAmqp × TlvAmqp)} {buf s : List UInt8} {fuel i room stop : Nat}
    (h : ReadsEntries outs es) (hfuel : 2 * (entryBytes outs).length + 1 ≤ fuel)
    (hd : buf.drop i = entryBytes outs ++ s) (hroom : es.length ≤ room)
    (hstop : stop = i + (entryBytes outs).length) :
    entriesBelow (getTlvFuel fuel buf) (stop : Nat) room i = .ok (es, stop) := by
  refine entriesBelow_drop ?_ hd hroom hstop
  clear hd hroom hstop
  induction h with
  | nil => exact .nil
  | @cons out e outs es he _ ih =>
    obtain ⟨hpos, hk, hv⟩ := he
    unfold entryBytes at hfuel
    rw [List.map_cons, List.flatten_cons, List.length_append,
      List.length_append] at hfuel
    have hrest : 2 * (entryBytes outs).length + 1 ≤ fuel := by rw [entryBytes]; omega
    exact .cons ⟨hpos, fun i s hd => hk fuel buf i s (by omega) hd,
      fun i s hd => hv fuel buf i s (by omega) hd⟩ (ih hrest)

/-! ### Constructors -/

theorem readsConstructor_plain {code : UInt8} (h : code ≠ 0) :
    ReadsConstructor [code] ⟨code, .indet⟩ := by
  refine ⟨by simp, ?_⟩
  intro fuel buf i s hfuel hd
  obtain ⟨fuel, rfl⟩ : ∃ n, fuel = n + 1 := ⟨fuel - 1, by simp at hfuel; omega⟩
  unfold getConstructor
  rw [rd_drop hd, ok_bind, if_neg h]
  rfl

theorem readsConstructor_described {out : List UInt8} {descriptor : TlvAmqp} (code : UInt8)
    (h : Reads out descriptor) :
    ReadsConstructor (0 :: (out ++ [code])) ⟨code, .ref descriptor⟩ := by
  refine ⟨by simp, ?_⟩
  intro fuel buf i s hfuel hd
  simp only [List.length_cons, List.length_append, List.length_nil] at hfuel
  obtain ⟨fuel, rfl⟩ : ∃ n, fuel = n + 1 := ⟨fuel - 1, by omega⟩
  have hd1 : buf.drop (i + 1) = out ++ (code :: s) := by
    rw [drop_succ (x := 0) (s := out ++ (code :: s)) (by rw [hd]; simp)]
  unfold getConstructor
  rw [rd_drop (x := 0) hd, ok_bind, if_pos rfl, h fuel buf (i + 1) _ (by omega) hd1,
    ok_bind]
  simp only [rd_drop (drop_add hd1), ok_bind, pure_eq_ok, List.length_cons, List.length_append,
    List.length_nil]
  congr 2
  omega

/-- A node is its constructor and its body. -/
theorem reads_tlv {cb data : List UInt8} {c : TlvConstructor TlvAmqp} {tlv : TlvAmqp}
    (hc : ReadsConstructor cb c) (he : ReadsElement c.code data tlv) :
    Reads (cb ++ data) { tlv with constructor := .ref c } := by
  obtain ⟨hpos, hc⟩ := hc
  intro fuel buf i s hfuel hd
  rw [List.length_append] at hfuel
  obtain ⟨fuel, rfl⟩ : ∃ n, fuel = n + 1 := ⟨fuel - 1, by omega⟩
  rw [List.append_assoc] at hd
  have hbody : getElement fuel c.code buf (i + cb.length) = .ok (tlv, i + cb.length + data.length) :=
    he fuel buf _ s (by omega) (drop_add hd)
  unfold getTlvFuel
  rw [hc fuel buf i _ (by omega) hd, ok_bind]
  simp only [hbody, ok_bind, pure_eq_ok, List.length_append, Nat.add_assoc]

/-- A node with a bare format code. -/
theorem reads_plain {code : UInt8} {data : List UInt8} {tlv : TlvAmqp} (h : code ≠ 0)
    (he : ReadsElement code data tlv) :
    Reads (code :: data) { tlv with constructor := .ref ⟨code, .indet⟩ } :=
  reads_tlv (readsConstructor_plain h) he

theorem AmqpType.toByte_ne_zero (t : AmqpType) : t.toByte ≠ 0 := by
  cases t <;> decide

/-! ### Bodies -/

namespace AmqpType

/-- The `length` that `get_element` keeps of a value with data of a fixed size. -/
def fixedLength : AmqpType → Cell Int
  | boolean | ubyte | byte | smallUint | smallInt | smallUlong | smallLong
  | uint | int | float | decimal32 | char => .is 1
  | _ => .indet

/-- The node of a value with data of a fixed size. -/
def fixedTlv : AmqpType → List UInt8 → TlvAmqp
  | amqpNull, _ => .ofCode amqpNull.toByte
  | list0, _ => { TlvAmqp.ofCode list0.toByte with
      list := .null, width := .ref 0, count := .ref 0, size := .ref 0 }
  | booleanTrue, _ => { TlvAmqp.ofCode booleanTrue.toByte with
      valueArray := .ref [0], length := .is 0 }
  | booleanFalse, _ => { TlvAmqp.ofCode booleanFalse.toByte with
      valueArray := .ref [0], length := .is 0 }
  | uint0, _ => { TlvAmqp.ofCode uint0.toByte with valueArray := .ref [0], length := .is 0 }
  | ulong0, _ => { TlvAmqp.ofCode ulong0.toByte with valueArray := .ref [0], length := .is 0 }
  | t, data => { TlvAmqp.ofCode t.toByte with valueArray := .ref data, length := t.fixedLength }

end AmqpType

/-- The body of any type is read by its own case. -/
theorem getFixed_drop {buf data s : List UInt8} {i n : Nat} (code : UInt8) (length : Cell Int)
    (hn : n = data.length) (hd : buf.drop i = data ++ s) :
    getFixed code n length buf i = .ok
      ({ TlvAmqp.ofCode code with valueArray := .ref data, length := length }, i + data.length) := by
  rw [getFixed, hn, copyOut_drop hd]; rfl

theorem readsElement_fixed {t : AmqpType} {data : List UInt8}
    (h : t.fixedWidth = some data.length) : ReadsElement t.toByte data (t.fixedTlv data) := by
  intro fuel buf i s hfuel hd
  obtain ⟨fuel, rfl⟩ : ∃ n, fuel = n + 1 := ⟨fuel - 1, by omega⟩
  show getElement (fuel + 1) t.toByte buf i = _
  unfold getElement
  rw [AmqpType.ofByte_toByte]
  cases t <;> simp only [AmqpType.fixedWidth, Option.some.injEq, reduceCtorEq] at h
  -- a type without data
  case amqpNull | booleanTrue | booleanFalse | uint0 | ulong0 | list0 => rw [← h]; rfl
  all_goals exact getFixed_drop _ _ h hd

/-- The node of a value with a length field. -/
def sizedTlv (w : Width) (kind : VariableKind) (data : List UInt8) : TlvAmqp :=
  { TlvAmqp.ofCode (w.variableType kind).toByte with
    valueArray := .ref data
    length := match w with
      | .narrow => .is data.length
      | .wide => .indet
    width := .ref (variableWidth data.length) }

theorem getVariable8_drop {buf data s : List UInt8} {i : Nat} (code : UInt8)
    (h : data.length < 256) (hd : buf.drop i = UInt8.ofNat data.length :: (data ++ s)) :
    getVariable8 code buf i = .ok
      ({ TlvAmqp.ofCode code with
        valueArray := .ref data
        length := .is data.length
        width := .ref (variableWidth data.length) }, i + 1 + data.length) := by
  rw [getVariable8, rd_drop hd, ok_bind]
  simp only [toNat_ofNat_of_lt h, copyOut_drop (drop_succ hd), ok_bind, pure_eq_ok]

theorem getVariable32_drop {buf data s : List UInt8} {i : Nat} (code : UInt8)
    (h : data.length < 2 ^ 31)
    (hd : buf.drop i = intBytes (UInt32.ofNat data.length) ++ (data ++ s)) :
    getVariable32 code buf i = .ok
      ({ TlvAmqp.ofCode code with
        valueArray := .ref data
        width := .ref (variableWidth data.length) }, i + 4 + data.length) := by
  have hrest : buf.drop (i + 4) = data ++ s := drop_add hd
  rw [getVariable32, getInt_size h hd, ok_bind, copyOut_drop hrest, ok_bind, Int.toNat_natCast]
  rfl

/-- A body takes one round for itself. -/
theorem readsElement_of_succ {code : UInt8} {out : List UInt8} {tlv : TlvAmqp}
    (h : ∀ fuel buf i s, 2 * out.length ≤ fuel → buf.drop i = out ++ s →
      getElement (fuel + 1) code buf i = .ok (tlv, i + out.length)) :
    ReadsElement code out tlv := by
  intro fuel buf i s hfuel hd
  obtain ⟨fuel, rfl⟩ : ∃ n, fuel = n + 1 := ⟨fuel - 1, by omega⟩
  exact h fuel buf i s (by omega) hd

theorem readsElement_sized {w : Width} {kind : VariableKind} {data : List UInt8}
    (h : w.Fits data.length) :
    ReadsElement (w.variableType kind).toByte (w.field data.length ++ data)
      (sizedTlv w kind data) := by
  refine readsElement_of_succ fun fuel buf i s hfuel hd => ?_
  rw [List.append_assoc] at hd
  unfold getElement
  rw [AmqpType.ofByte_toByte, List.length_append, Width.length_field, ← Nat.add_assoc]
  cases w with
  | narrow => cases kind <;> exact getVariable8_drop _ h hd
  | wide => cases kind <;> exact getVariable32_drop _ h hd

/-- The node of a list; `get_element` does not store the elements of a `LIST_32`. -/
def listTlv (w : Width) (size : Nat) (values : List TlvAmqp) : TlvAmqp :=
  { TlvAmqp.ofCode w.listType.toByte with
    list := match w with
      | .narrow => .ref values
      | .wide => .indet
    width := .ref w.bytes
    count := .ref values.length
    size := .ref size }

/-- Past a field. -/
theorem drop_field {buf s : List UInt8} {i n : Nat} {w : Width} (h : buf.drop i = w.field n ++ s) :
    buf.drop (i + w.bytes) = s := by
  rw [← Width.length_field w n]
  exact drop_add h

/-- A list is read by its count, whatever its size field says. -/
theorem readsElement_list {w : Width} {outs : List (List UInt8)} {values : List TlvAmqp}
    {size : Nat} (h : List.Forall₂ Reads outs values) (hsize : w.Fits size)
    (hcount : w.Fits values.length) :
    ReadsElement w.listType.toByte (w.field size ++ (w.field values.length ++ outs.flatten))
      (listTlv w size values) := by
  refine readsElement_of_succ fun fuel buf i s hfuel hd => ?_
  simp only [List.append_assoc] at hd
  simp only [List.length_append, Width.length_field] at hfuel ⊢
  have hpos := w.bytes_pos
  have htimes : ∀ j, buf.drop j = outs.flatten ++ s →
      times (getTlvFuel fuel buf) values.length j = .ok (values, j + outs.flatten.length) :=
    fun j hj => times_reads h (by omega) hj
  have hd1 := drop_field hd
  have hd2 := drop_field hd1
  unfold getElement
  rw [AmqpType.ofByte_toByte, ← Nat.add_assoc, ← Nat.add_assoc]
  cases w with
  | narrow =>
    rw [Width.bytes] at hd1 hd2
    simp only [Width.listType, rd_drop hd, rd_drop hd1, ok_bind, toNat_ofNat_of_lt hsize,
      toNat_ofNat_of_lt hcount, htimes _ hd2]
    rfl
  | wide =>
    rw [Width.bytes] at hd1 hd2
    simp only [Width.listType, getInt_size hsize hd, getInt_size hcount hd1, ok_bind,
      Int.toNat_natCast, htimes _ hd2]
    rfl

/-- The node of a map. -/
def mapTlv (w : Width) (size count : Nat) (entries : List (TlvAmqp × TlvAmqp)) : TlvAmqp :=
  { TlvAmqp.ofCode w.mapType.toByte with
    map := .ref entries
    width := .ref w.bytes
    count := .ref count
    size := .ref size }

/-- A map is read up to the position its size field gives; the count is the room it has. -/
theorem readsElement_map {w : Width} {outs : List (List UInt8 × List UInt8)}
    {entries : List (TlvAmqp × TlvAmqp)} {count : Nat} (h : ReadsEntries outs entries)
    (hroom : entries.length ≤ count) (hsize : w.Fits (w.bytes + (entryBytes outs).length))
    (hcount : w.Fits count) :
    ReadsElement w.mapType.toByte
      (w.field (w.bytes + (entryBytes outs).length) ++ (w.field count ++ entryBytes outs))
      (mapTlv w (w.bytes + (entryBytes outs).length) count entries) := by
  refine readsElement_of_succ fun fuel buf i s hfuel hd => ?_
  simp only [List.append_assoc] at hd
  simp only [List.length_append, Width.length_field] at hfuel ⊢
  have hpos := w.bytes_pos
  have hentries : ∀ j, buf.drop j = entryBytes outs ++ s →
      entriesBelow (getTlvFuel fuel buf) ((j + (entryBytes outs).length : Nat) : Int) count j =
        .ok (entries, j + (entryBytes outs).length) :=
    fun j hj => entriesBelow_reads h (by omega) hj hroom rfl
  have hd1 := drop_field hd
  have hd2 := drop_field hd1
  unfold getElement
  rw [AmqpType.ofByte_toByte, ← Nat.add_assoc, ← Nat.add_assoc]
  cases w with
  | narrow =>
    rw [Width.bytes] at hd1 hd2
    -- the size counts the count byte, which was read already
    have hstop : ((i + 2 : Nat) : Int) + ((Width.narrow.bytes + (entryBytes outs).length : Nat) : Int)
        - 1 = ((i + 1 + 1 + (entryBytes outs).length : Nat) : Int) := by
      rw [Width.bytes]; omega
    simp only [Width.mapType, rd_drop hd, rd_drop hd1, ok_bind, toNat_ofNat_of_lt hsize,
      toNat_ofNat_of_lt hcount, hstop, hentries _ hd2]
    rfl
  | wide =>
    rw [Width.bytes] at hd1 hd2
    have hstop : ((i + 8 : Nat) : Int) + ((Width.wide.bytes + (entryBytes outs).length : Nat) : Int)
        - 4 = ((i + 4 + 4 + (entryBytes outs).length : Nat) : Int) := by
      rw [Width.bytes]; omega
    simp only [Width.mapType, getInt_size hsize hd, getInt_size hcount hd1, ok_bind,
      Int.toNat_natCast, hstop, hentries _ hd2]
    rfl

/-- The node of an array; an `ARRAY_32` gets width 1, too. -/
def arrayTlv (w : Width) (size : Nat) (values : List TlvAmqp) : TlvAmqp :=
  { TlvAmqp.ofCode w.arrayType.toByte with
    list := .ref values
    width := .ref 1
    count := .ref values.length
    size := .ref size }

/-- An array is one constructor and the bodies of its elements, read by their count. -/
theorem readsElement_array {w : Width} {cb : List UInt8} {c : TlvConstructor TlvAmqp}
    {outs : List (List UInt8)} {values : List TlvAmqp} {size : Nat} (hc : ReadsConstructor cb c)
    (h : List.Forall₂ (ReadsElement c.code) outs values) (hsize : w.Fits size)
    (hcount : w.Fits values.length) :
    ReadsElement w.arrayType.toByte
      (w.field size ++ (w.field values.length ++ (cb ++ outs.flatten))) (arrayTlv w size values) := by
  obtain ⟨-, hc⟩ := hc
  refine readsElement_of_succ fun fuel buf i s hfuel hd => ?_
  simp only [List.append_assoc] at hd
  simp only [List.length_append, Width.length_field] at hfuel ⊢
  have hpos := w.bytes_pos
  have hcb : ∀ j, buf.drop j = cb ++ (outs.flatten ++ s) →
      getConstructor fuel buf j = .ok (c, j + cb.length) :=
    fun j hj => hc fuel buf j _ (by omega) hj
  have htimes : ∀ j, buf.drop j = outs.flatten ++ s →
      times (getElement fuel c.code buf) values.length j = .ok (values, j + outs.flatten.length) :=
    fun j hj => times_reads (f := fun fuel => getElement fuel c.code) h (by omega) hj
  have hd1 := drop_field hd
  have hd2 := drop_field hd1
  have hd3 := drop_add hd2
  unfold getElement
  rw [AmqpType.ofByte_toByte, ← Nat.add_assoc, ← Nat.add_assoc, ← Nat.add_assoc]
  cases w with
  | narrow =>
    rw [Width.bytes] at hd1 hd2 hd3
    simp only [Width.arrayType, rd_drop hd, rd_drop hd1, ok_bind, toNat_ofNat_of_lt hsize,
      toNat_ofNat_of_lt hcount, hcb _ hd2, htimes _ hd3]
    rfl
  | wide =>
    rw [Width.bytes] at hd1 hd2 hd3
    simp only [Width.arrayType, getInt_size hsize hd, getInt_size hcount hd1, ok_bind,
      Int.toNat_natCast, hcb _ hd2, htimes _ hd3]
    rfl

/-! ### Values -/

namespace Val

mutual

/-- The node `get_tlv` makes of a value, without its constructor. -/
def body : Val → TlvAmqp
  | fixed type data => type.fixedTlv data
  | sized w kind data => sizedTlv w kind data
  | list w xs => listTlv w (w.bytes + (encList xs).length) (nodes xs)
  | map w es => mapTlv w (w.bytes + (encEntries es).length) (2 * es.length) (entryNodes es)
  | array w descriptor type xs =>
    arrayTlv w (w.bytes + (encDescriptor descriptor ++ type.toByte :: dataList xs).length) (bodies xs)
  | described _ v => v.body

/-- The constructor of the node. -/
def constructor : Val → TlvConstructor TlvAmqp
  | described d v => ⟨v.type.toByte, .ref { d.body with constructor := .ref d.constructor }⟩
  | fixed type _ => ⟨type.toByte, .indet⟩
  | sized w kind _ => ⟨(w.variableType kind).toByte, .indet⟩
  | list w _ => ⟨w.listType.toByte, .indet⟩
  | map w _ => ⟨w.mapType.toByte, .indet⟩
  | array w .. => ⟨w.arrayType.toByte, .indet⟩

def nodes : List Val → List TlvAmqp
  | [] => []
  | x :: xs => { x.body with constructor := .ref x.constructor } :: nodes xs

def entryNodes : List (Val × Val) → List (TlvAmqp × TlvAmqp)
  | [] => []
  | (k, v) :: es =>
    ({ k.body with constructor := .ref k.constructor },
      { v.body with constructor := .ref v.constructor }) :: entryNodes es

def bodies : List Val → List TlvAmqp
  | [] => []
  | x :: xs => x.body :: bodies xs

end

/-- The node `get_tlv` makes of a value. -/
def node (v : Val) : TlvAmqp := { v.body with constructor := .ref v.constructor }

theorem constructor_plain {v : Val} (h : v.Plain) : v.constructor = ⟨v.type.toByte, .indet⟩ := by
  cases v with
  | described d v => exact h.elim
  | _ => rw [constructor]; rfl

theorem node_described (d v : Val) : (described d v).node =
    { v.body with constructor := .ref ⟨v.type.toByte, .ref d.node⟩ } := by
  rw [node, body, constructor]
  rfl

theorem nodes_eq (xs : List Val) : nodes xs = xs.map node := by
  induction xs with
  | nil => rfl
  | cons x xs ih => rw [nodes, ih]; rfl

theorem bodies_eq (xs : List Val) : bodies xs = xs.map body := by
  induction xs with
  | nil => rfl
  | cons x xs ih => rw [bodies, ih]; rfl

theorem entryNodes_eq (es : List (Val × Val)) :
    entryNodes es = es.map fun e => (e.1.node, e.2.node) := by
  induction es with
  | nil => rfl
  | cons e es ih =>
    obtain ⟨k, v⟩ := e
    rw [entryNodes, ih]
    rfl

end Val

theorem Val.reads_of_body {v : Val} {tlv : TlvAmqp} (hp : v.Plain)
    (h : ReadsElement v.type.toByte v.data tlv) :
    Reads v.enc { tlv with constructor := .ref ⟨v.type.toByte, .indet⟩ } := by
  have henc : v.enc = v.type.toByte :: v.data := by rw [enc, head_plain hp]; rfl
  rw [henc]
  exact reads_plain (AmqpType.toByte_ne_zero v.type) h

theorem Val.described_reads {d v : Val} {descriptor tlv : TlvAmqp} (hd : Reads d.enc descriptor)
    (hp : v.Plain) (h : ReadsElement v.type.toByte v.data tlv) :
    Reads (described d v).enc { tlv with constructor := .ref ⟨v.type.toByte, .ref descriptor⟩ } := by
  have hnode := reads_tlv (readsConstructor_described v.type.toByte hd) h
  rwa [← head_plain hp] at hnode

theorem Val.list_reads {w : Width} {xs : List Val} {values : List TlvAmqp}
    (h : List.Forall₂ Reads (xs.map enc) values) (count : w.Fits xs.length)
    (size : w.Fits (w.bytes + (encList xs).length)) :
    ReadsElement w.listType.toByte (list w xs).data
      (listTlv w (w.bytes + (encList xs).length) values) := by
  have hlen : values.length = xs.length := by
    rw [← h.length_eq, List.length_map]
  have hbody := readsElement_list h size (hlen ▸ count)
  rwa [hlen, ← encList_eq] at hbody

theorem Val.array_reads {w : Width} {descriptor : Option Val} {type : AmqpType} {xs : List Val}
    {c : TlvConstructor TlvAmqp} {values : List TlvAmqp}
    (hc : ReadsConstructor (encDescriptor descriptor ++ [type.toByte]) c)
    (h : List.Forall₂ (ReadsElement c.code) (xs.map data) values) (count : w.Fits xs.length)
    (size : w.Fits (w.bytes + (encDescriptor descriptor ++ type.toByte :: dataList xs).length)) :
    ReadsElement w.arrayType.toByte (array w descriptor type xs).data
      (arrayTlv w (w.bytes + (encDescriptor descriptor ++ type.toByte :: dataList xs).length)
        values) := by
  have hlen : values.length = xs.length := by
    rw [← h.length_eq, List.length_map]
  have hbody := readsElement_array hc h size (hlen ▸ count)
  rwa [hlen, ← dataList_eq, List.append_assoc] at hbody

theorem forall₂_map {α β γ : Type} {R : α → β → Prop} {f : γ → α} {g : γ → β} {xs : List γ}
    (h : ∀ x ∈ xs, R (f x) (g x)) : List.Forall₂ R (xs.map f) (xs.map g) := by
  rw [List.forall₂_map_left_iff, List.forall₂_map_right_iff, List.forall₂_same]
  exact h

/-- The constructor of an array. -/
theorem exists_constructor {descriptor : Option Val} (type : AmqpType)
    (h : ∀ d ∈ descriptor, Reads d.enc d.node) :
    ∃ c, ReadsConstructor (Val.encDescriptor descriptor ++ [type.toByte]) c ∧
      c.code = type.toByte := by
  cases descriptor with
  | none => exact ⟨_, readsConstructor_plain (AmqpType.toByte_ne_zero type), rfl⟩
  | some d => exact ⟨_, readsConstructor_described type.toByte (h d rfl), rfl⟩

/-- A value that can be encoded is read; when it has no descriptor, so is its body. -/
def Readable (v : Val) : Prop :=
  Reads v.enc v.node ∧ (v.Plain → ReadsElement v.type.toByte v.data v.body)

theorem Readable.of_body {v : Val} (hp : v.Plain)
    (h : ReadsElement v.type.toByte v.data v.body) : Readable v := by
  refine ⟨?_, fun _ => h⟩
  have hnode : v.node = { v.body with constructor := .ref ⟨v.type.toByte, .indet⟩ } := by
    rw [Val.node, Val.constructor_plain hp]
  rw [hnode]
  exact Val.reads_of_body hp h

theorem Val.Ok.readable {v : Val} (h : v.Ok) : Readable v := by
  induction h with
  | fixed h => exact .of_body trivial (by rw [Val.body]; exact readsElement_fixed h)
  | sized h => exact .of_body trivial (by rw [Val.body]; exact readsElement_sized h)
  | @list w xs _ count size ih =>
    refine .of_body trivial ?_
    rw [Val.body, Val.nodes_eq]
    exact Val.list_reads (forall₂_map fun x hx => (ih x hx).1) count size
  | @map w es _ _ count size ihk ihv =>
    have hentries : ReadsEntries (es.map fun e => (e.1.enc, e.2.enc))
        (es.map fun e => (e.1.node, e.2.node)) :=
      forall₂_map fun e he => ⟨Val.enc_pos _, (ihk e he).1, (ihv e he).1⟩
    rw [Val.encEntries_eq] at size
    have hbody := readsElement_map hentries (by rw [List.length_map]; omega) size count
    refine .of_body trivial ?_
    rw [Val.body, Val.entryNodes_eq, Val.encEntries_eq]
    rwa [Val.data, Val.parts, Val.compound, Val.encEntries_eq]
  | @array w descriptor type xs _ _ typed count size ihd ih =>
    obtain ⟨c, hc, hcode⟩ := exists_constructor type fun d hd => (ihd d hd).1
    have hbodies : ∀ x ∈ xs, ReadsElement c.code x.data x.body := by
      intro x hx
      obtain ⟨hp, ht⟩ := typed x hx
      rw [hcode, ← ht]
      exact (ih x hx).2 hp
    refine .of_body trivial ?_
    rw [Val.body, Val.bodies_eq]
    exact Val.array_reads hc (forall₂_map hbodies) count size
  | @described d v _ _ plain ihd ihv =>
    refine ⟨?_, fun h => h.elim⟩
    rw [Val.node_described]
    exact Val.described_reads ihd.1 plain (ihv.2 plain)

theorem getTlv_node {v : Val} (h : v.Ok) (p s : List UInt8) :
    getTlv (p ++ v.enc ++ s) p.length = .ok (v.node, p.length + v.enc.length) := by
  refine h.readable.1 _ _ _ s ?_ ?_
  · simp only [List.length_append]; omega
  · rw [List.append_assoc, List.drop_left]

/-- `get_tlv` reads the encoding of a value anywhere in a buffer and stops right behind it. -/
theorem getTlv_enc {v : Val} (h : v.Ok) (p s : List UInt8) :
    ∃ tlv, getTlv (p ++ v.enc ++ s) p.length = .ok (tlv, p.length + v.enc.length) := by
  exact ⟨v.node, getTlv_node h p s⟩

/-- A described list with a string, an array of symbols and a map. -/
def openValue : Val :=
  .described (.fixed .smallUlong [0x10]) (.list .narrow
    [.sized .narrow .string [0x63, 0x31], .fixed .amqpNull [],
      .array .wide none .symbol8 [.sized .narrow .symbol [0x61], .sized .narrow .symbol []],
      .map .narrow [(.sized .narrow .symbol [0x6b], .fixed .uint0 [])]])

theorem openValue_ok : openValue.Ok := by
  refine .described (.fixed rfl) (.list ?_ (by decide) (by decide)) trivial
  simp only [List.forall_mem_cons, List.not_mem_nil, false_implies, implies_true, and_true]
  refine ⟨.sized (by decide), .fixed rfl, .array (by simp) ?_ ?_ (by decide) (by decide),
    .map ?_ ?_ (by decide) (by decide)⟩
  · simp only [List.forall_mem_cons, List.not_mem_nil, false_implies, implies_true, and_true]
    exact ⟨.sized (by decide), .sized (by decide)⟩
  · simp only [List.forall_mem_cons, List.not_mem_nil, false_implies, implies_true, and_true]
    exact ⟨⟨trivial, rfl⟩, trivial, rfl⟩
  · simp only [List.forall_mem_singleton]
    exact .sized (by decide)
  · simp only [List.forall_mem_singleton]
    exact .fixed rfl

theorem getTlv_enc_openValue :
    ∃ tlv, getTlv ([0x02] ++ openValue.enc ++ [0x53, 0x10]) 1 = .ok (tlv, 1 + openValue.enc.length) :=
  getTlv_enc openValue_ok [0x02] [0x53, 0x10]

end IotClient.Amqp
