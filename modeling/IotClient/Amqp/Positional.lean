import IotClient.Amqp.Arguments

/-!
# Argument lists by position

A `Slot` is a field as an encoder of a list sees it: `none` when the field is absent, otherwise the
run of its wrapper. `listArguments` is what all encoders of lists have in common, and
`Positional code ts tlv` says that `tlv` is the list of the slots `ts`, each in its place.
`listArguments_ok` and `listArguments_wraps` say when it is made.
-/

namespace IotClient.Amqp

open Mem

/-- A field: the run of its wrapper, or `none` when it is absent. -/
abbrev Slot := Option (Run TlvAmqp)

/-- The slot of a field; the test for `NULL` of a pointer that was not assigned is its fault. -/
def slotOf {α : Type} (p : Ptr α) (wrap : α → Run TlvAmqp) : Slot :=
  match p with
  | .indet => some (.error .indet)
  | .null => none
  | .ref x => some (wrap x)

/-- The `count`-th slot. -/
def Args.put (a : Args) (count : Int) : Slot → Run Args
  | none => pure a.skip
  | some wrap => do a.add count (← wrap)

theorem field_eq_put {α : Type} (count : Int) (p : Ptr α) (wrap : α → Run TlvAmqp) (a : Args) :
    field count p wrap a = a.put count (slotOf p wrap) := by
  cases p <;> rfl

/-- The slots from the `count`-th on. -/
def collect : Int → List Slot → Args → Run Args
  | _, [], a => pure a
  | count, t :: ts, a => do collect (count + 1) ts (← a.put count t)

/-- The list of the fields. -/
def listArguments (code : UInt8) (ts : List Slot) : Run TlvList := do
  (← collect 1 ts .empty).finish code

/-! ### What a slot is written as -/

/-- The encoding of a slot. -/
inductive SlotFills : Slot → Option Block → Prop where
  | absent : SlotFills none none
  | present {wrap : Run TlvAmqp} {tlv : TlvAmqp} {cells : Block} (h : wrap = .ok tlv)
    (hfills : Fills tlv cells) : SlotFills (some wrap) (some cells)

/-- The list of the slots up to the last one that is present; the element of an absent one is a
null. -/
def Positional (code : UInt8) (ts : List Slot) (tlv : TlvAmqp) : Prop :=
  ∃ cs, List.Forall₂ SlotFills ts cs ∧
    Fills tlv (calculatedCells code (trim cs).length (slotsCells (trim cs)))

/-- Slots have one encoding. -/
theorem slotFills_unique {ts : List Slot} {cs ds : List (Option Block)}
    (hcs : List.Forall₂ SlotFills ts cs) (hds : List.Forall₂ SlotFills ts ds) : cs = ds := by
  induction hcs generalizing ds with
  | nil =>
    cases hds
    rfl
  | cons hc _ ih =>
    cases hds with
    | cons hd hds =>
      rw [ih hds]
      cases hc with
      | absent =>
        cases hd
        rfl
      | present htlv hfills =>
        cases hd with
        | present htlv' hfills' =>
          cases Except.ok.inj (htlv.symm.trans htlv')
          rw [hfills.unique hfills']

/-- Whatever node the wrapper makes has an encoding. -/
def Fillable (wrap : Run TlvAmqp) : Prop := ∀ tlv, wrap = .ok tlv → ∃ cells, Fills tlv cells

/-- The wrapper makes a node; under the condition `whole` all of its bytes are written. -/
def Wraps (whole : Prop) (wrap : Run TlvAmqp) : Prop :=
  ∃ tlv cells, wrap = .ok tlv ∧ Fills tlv cells ∧ (whole → none ∉ cells)

section Wraps

variable {whole : Prop} {wrap : Run TlvAmqp}

theorem fillable_error (e : Fault) : Fillable (.error e) := fun _ h => nomatch h

theorem fillable_bind {α : Type} {m : Run α} {f : α → Run TlvAmqp} (h : ∀ x, Fillable (f x)) :
    Fillable (m >>= f) := by
  intro tlv htlv
  obtain ⟨x, -, hx⟩ := bind_eq_ok.1 htlv
  exact h x tlv hx

theorem Wraps.of_fills {cells : Block} (h : ∃ tlv, wrap = .ok tlv ∧ Fills tlv cells)
    (hwhole : ¬ whole) : Wraps whole wrap := by
  obtain ⟨tlv, htlv, hfills⟩ := h
  exact ⟨tlv, cells, htlv, hfills, fun h => absurd h hwhole⟩

theorem Wraps.of_holds {out : List UInt8} (h : ∃ tlv, wrap = .ok tlv ∧ Holds tlv out) :
    Wraps whole wrap := by
  obtain ⟨tlv, htlv, hholds⟩ := h
  exact ⟨tlv, out.map some, htlv, hholds.fills, fun _ => by simp⟩

/-- A wrapper that makes a node makes no other. -/
theorem Wraps.fillable (h : Wraps whole wrap) : Fillable wrap := by
  obtain ⟨tlv, cells, htlv, hfills, -⟩ := h
  intro tlv' htlv'
  obtain rfl : tlv = tlv' := Except.ok.inj (htlv.symm.trans htlv')
  exact ⟨cells, hfills⟩

end Wraps

/-- Cells that are all written are bytes. -/
theorem exists_map_some {cells : Block} (h : none ∉ cells) :
    ∃ out : List UInt8, cells = out.map some := by
  induction cells with
  | nil => exact ⟨[], rfl⟩
  | cons c cells ih =>
    rw [List.mem_cons, not_or] at h
    obtain ⟨out, rfl⟩ := ih h.2
    cases c with
    | none => exact absurd rfl h.1
    | some b => exact ⟨b :: out, rfl⟩

/-! ### Collecting slots -/

section Collect

variable {ts : List Slot} {cs ds : List (Option Block)} {a a' : Args} {k : Int} {t : Slot}
  {c : Option Block}

theorem Filled.put (h : Filled a cs) (ht : SlotFills t c) (hk : k = cs.length + 1) :
    ∃ a', a.put k t = .ok a' ∧ Filled a' (cs ++ [c]) := by
  cases ht with
  | absent => exact ⟨_, rfl, h.skip⟩
  | present htlv hfills =>
    obtain ⟨a', ha', hfilled⟩ := h.add hfills hk
    exact ⟨a', by rw [Args.put, htlv, ok_bind, ha'], hfilled⟩

theorem collect_filled (hts : List.Forall₂ SlotFills ts ds) :
    ∀ {a : Args} {cs : List (Option Block)} {k : Int}, Filled a cs → k = cs.length + 1 →
      ∃ a', collect k ts a = .ok a' ∧ Filled a' (cs ++ ds) := by
  induction hts with
  | nil => exact fun h _ => ⟨_, rfl, by rwa [List.append_nil]⟩
  | cons ht _ ih =>
    intro a cs k h hk
    obtain ⟨a₁, ha₁, hfilled₁⟩ := h.put ht hk
    obtain ⟨a₂, ha₂, hfilled₂⟩ := ih (k := k + 1) hfilled₁
      (by rw [hk, List.length_append, List.length_singleton]; omega)
    refine ⟨a₂, ?_, ?_⟩
    · rw [collect, ha₁, ok_bind, ha₂]
    · rwa [List.append_assoc] at hfilled₂

/-- When all fields were collected, each wrapper made a node. -/
theorem slotFills_of_collect (h : collect k ts a = .ok a')
    (hfillable : ∀ t ∈ ts, ∀ wrap ∈ t, Fillable wrap) : ∃ cs, List.Forall₂ SlotFills ts cs := by
  induction ts generalizing k a with
  | nil => exact ⟨[], .nil⟩
  | cons t ts ih =>
    obtain ⟨a₁, ha₁, hrest⟩ := bind_eq_ok.1 h
    obtain ⟨cs, hcs⟩ := ih hrest fun t ht => hfillable t (List.mem_cons_of_mem _ ht)
    cases t with
    | none => exact ⟨none :: cs, .cons .absent hcs⟩
    | some wrap =>
      obtain ⟨tlv, htlv, -⟩ := bind_eq_ok.1 ha₁
      obtain ⟨cells, hcells⟩ := hfillable _ List.mem_cons_self _ rfl tlv htlv
      exact ⟨some cells :: cs, .cons (.present htlv hcells) hcs⟩

/-- Slots are trimmed away when all of them are absent. -/
theorem trim_eq_nil_iff (h : List.Forall₂ SlotFills ts cs) : trim cs = [] ↔ ∀ t ∈ ts, t = none := by
  have hcs : trim cs = [] ↔ ∀ c ∈ cs, c = none := by
    unfold trim
    rw [List.rdropWhile_eq_nil_iff]
    simp only [Option.isNone_iff_eq_none]
  rw [hcs]
  clear hcs
  induction h with
  | nil => simp
  | cons ht _ ih =>
    rw [List.forall_mem_cons, List.forall_mem_cons]
    refine and_congr ?_ ih
    cases ht with
    | absent => exact iff_of_true rfl rfl
    | present => exact iff_of_false (Option.some_ne_none _) (Option.some_ne_none _)

/-- Without a field the count is not assigned. -/
theorem collect_none (h : ∀ t ∈ ts, t = none) (ha : a.count = .indet) :
    ∃ a', collect k ts a = .ok a' ∧ a'.count = .indet := by
  induction ts generalizing k a with
  | nil => exact ⟨a, rfl, ha⟩
  | cons t ts ih =>
    rw [List.forall_mem_cons] at h
    obtain ⟨rfl, h⟩ := h
    exact ih (a := a.skip) h ha

end Collect

/-! ### The list -/

section List

variable {ts : List Slot} {cs : List (Option Block)} {whole : Prop} {l : TlvList} (code : UInt8)

theorem listArguments_fills (h : List.Forall₂ SlotFills ts cs) (hne : trim cs ≠ []) :
    ∃ l, listArguments code ts = .ok l ∧
      Fills l.node (calculatedCells code (trim cs).length (slotsCells (trim cs))) := by
  obtain ⟨a, ha, hfilled⟩ := collect_filled h (k := 1) Filled.empty rfl
  obtain ⟨l, hl, hfills⟩ := Args.finish_fills code hfilled hne
  refine ⟨l, ?_, hfills⟩
  rw [listArguments, ha, ok_bind]
  exact hl

theorem listArguments_none (h : ∀ t ∈ ts, t = none) : listArguments code ts = .error .indet := by
  obtain ⟨a, ha, hcount⟩ := collect_none (k := 1) (a := .empty) h rfl
  rw [listArguments, ha, ok_bind, Args.finish, hcount]
  rfl

/-- A list that is made has the fields in their places, and there is one. -/
theorem listArguments_ok (hfillable : ∀ t ∈ ts, ∀ wrap ∈ t, Fillable wrap)
    (h : listArguments code ts = .ok l) :
    Positional code ts l.node ∧ ∃ t ∈ ts, t ≠ none := by
  obtain ⟨a, ha, -⟩ := bind_eq_ok.1 h
  obtain ⟨cs, hcs⟩ := slotFills_of_collect ha hfillable
  have hpresent : ¬ ∀ t ∈ ts, t = none := by
    intro hnone
    rw [listArguments_none code hnone] at h
    cases h
  have hne : trim cs ≠ [] := fun hnil => hpresent ((trim_eq_nil_iff hcs).1 hnil)
  obtain ⟨l', hl', hfills⟩ := listArguments_fills code hcs hne
  obtain rfl : l = l' := Except.ok.inj (h.symm.trans hl')
  simp only [not_forall] at hpresent
  obtain ⟨t, ht, hsome⟩ := hpresent
  exact ⟨⟨cs, hcs, hfills⟩, t, ht, hsome⟩

theorem exists_slotFills (h : ∀ t ∈ ts, ∀ wrap ∈ t, Wraps whole wrap) :
    ∃ cs, List.Forall₂ SlotFills ts cs ∧ (whole → none ∉ slotsCells cs) := by
  induction ts with
  | nil => exact ⟨[], .nil, fun _ => List.not_mem_nil⟩
  | cons t ts ih =>
    rw [List.forall_mem_cons] at h
    obtain ⟨cs, hcs, hwritten⟩ := ih h.2
    cases t with
    | none =>
      refine ⟨none :: cs, .cons .absent hcs, fun hwhole => ?_⟩
      simpa [slotsCells, slotCells] using hwritten hwhole
    | some wrap =>
      obtain ⟨tlv, cells, htlv, hfills, hcells⟩ := h.1 wrap rfl
      refine ⟨some cells :: cs, .cons (.present htlv hfills) hcs, fun hwhole => ?_⟩
      have happend : slotsCells (some cells :: cs) = cells ++ slotsCells cs := rfl
      rw [happend, List.mem_append, not_or]
      exact ⟨hcells hwhole, hwritten hwhole⟩

/-- The values of a list are its only cells that may not be written. -/
theorem none_mem_calculatedCells {count : Nat} {values : Block} :
    none ∈ calculatedCells code count values ↔ none ∈ values := by
  unfold calculatedCells listCells
  split <;> simp

/-- The cells of a list whose values are written. -/
theorem none_not_mem_list {count : Nat} (h : none ∉ slotsCells cs) :
    none ∉ calculatedCells code count (slotsCells (trim cs)) := by
  obtain ⟨k, hk⟩ := trim_append cs
  rw [hk, slotsCells_append, List.mem_append, not_or] at h
  rw [none_mem_calculatedCells]
  exact h.1

/-- A list of nodes that are written whole is written whole. -/
theorem Positional.holds {tlv : TlvAmqp} (h : Positional code ts tlv)
    (hwraps : ∀ t ∈ ts, ∀ wrap ∈ t, Wraps True wrap) : ∃ out, Holds tlv out := by
  obtain ⟨cs, hcs, hfills⟩ := h
  obtain ⟨ds, hds, hwritten⟩ := exists_slotFills hwraps
  obtain rfl := slotFills_unique hcs hds
  obtain ⟨out, hout⟩ := exists_map_some (none_not_mem_list code (hwritten trivial))
  exact ⟨out, (hout ▸ hfills).holds⟩

/-- The list of wrappers that all make a node. -/
theorem listArguments_wraps (h : ∀ t ∈ ts, ∀ wrap ∈ t, Wraps whole wrap)
    (hpresent : ∃ t ∈ ts, t ≠ none) :
    Wraps whole (TlvList.node <$> listArguments code ts) ∧
      ∃ l, listArguments code ts = .ok l ∧ Positional code ts l.node := by
  obtain ⟨cs, hcs, hwritten⟩ := exists_slotFills h
  have hne : trim cs ≠ [] := by
    obtain ⟨t, ht, hsome⟩ := hpresent
    exact fun hnil => hsome ((trim_eq_nil_iff hcs).1 hnil t ht)
  obtain ⟨l, hl, hfills⟩ := listArguments_fills code hcs hne
  exact ⟨⟨l.node, _, by rw [hl]; rfl, hfills, fun hwhole => none_not_mem_list code
    (hwritten hwhole)⟩, l, hl, cs, hcs, hfills⟩

end List

end IotClient.Amqp
