import Mathlib.Data.List.Infix

/-!
# Runs of a system that can fault

`run step s es` takes one step per event of `es`, from `s`. `Always step P s es` says that
`P` holds at the start of such a run and after every step, none of which faults;
`Each step C s es` says that every event of it meets `C` in the state it finds.
`always_of_each` is the invariant rule; `always_iff_each` is its exact form, for a system
where a good state's step leads to a good state if and only if it meets `C`.
-/

namespace IotClient.Machine

section Def

variable {σ ε φ : Type} (step : σ → ε → Except φ σ)

def run (s : σ) : List ε → Except φ σ
  | [] => .ok s
  | e :: es => step s e >>= fun t => run t es

def Always (P : σ → Prop) (s : σ) (es : List ε) : Prop :=
  ∀ pre, pre <+: es → ∃ t, run step s pre = .ok t ∧ P t

def Each (C : σ → ε → Prop) (s : σ) (es : List ε) : Prop :=
  ∀ pre e t, pre ++ [e] <+: es → run step s pre = .ok t → C t e

end Def

variable {σ ε φ : Type} {step : σ → ε → Except φ σ} {I P Q : σ → Prop} {C D G : σ → ε → Prop}
  {s t : σ} {e : ε} {es fs : List ε}

theorem exists_ok_iff {x : Except φ σ} (h : x = .ok t) : (∃ u, x = .ok u ∧ P u) ↔ P t := by
  constructor
  · rintro ⟨u, hu, hp⟩
    obtain rfl : t = u := Except.ok.inj (h.symm.trans hu)
    exact hp
  · exact fun hp => ⟨t, h, hp⟩

@[simp] theorem run_nil : run step s [] = .ok s := rfl

theorem run_cons (h : step s e = .ok t) : run step s (e :: es) = run step t es := by
  rw [run, h]; rfl

theorem run_cons_eq_ok {u : σ} :
    run step s (e :: es) = .ok u ↔ ∃ t, step s e = .ok t ∧ run step t es = .ok u := by
  rw [run]
  cases step s e with
  | error f =>
    constructor
    · intro h; cases h
    · rintro ⟨_, h, -⟩; cases h
  | ok t =>
    constructor
    · intro h; exact ⟨t, rfl, h⟩
    · rintro ⟨_, h, hu⟩
      cases h
      exact hu

theorem run_append (h : run step s es = .ok t) : run step s (es ++ fs) = run step t fs := by
  induction es generalizing s with
  | nil => cases h; rfl
  | cons e es ih =>
    obtain ⟨u, hu, h⟩ := run_cons_eq_ok.1 h
    rw [List.cons_append, run_cons hu]
    exact ih h

theorem run_append_eq_ok {u : σ} :
    run step s (es ++ fs) = .ok u ↔ ∃ t, run step s es = .ok t ∧ run step t fs = .ok u := by
  induction es generalizing s with
  | nil => exact ⟨fun h => ⟨s, rfl, h⟩, fun ⟨_, rfl, h⟩ => h⟩
  | cons e es ih =>
    rw [List.cons_append, run_cons_eq_ok]
    constructor
    · rintro ⟨v, hv, h⟩
      obtain ⟨t, ht, h⟩ := ih.1 h
      exact ⟨t, run_cons_eq_ok.2 ⟨v, hv, ht⟩, h⟩
    · rintro ⟨t, ht, h⟩
      obtain ⟨v, hv, ht⟩ := run_cons_eq_ok.1 ht
      exact ⟨v, hv, ih.2 ⟨t, ht, h⟩⟩

theorem Always.start (h : Always step P s es) : P s := by
  obtain ⟨t, ht, hp⟩ := h [] List.nil_prefix
  cases ht
  exact hp

@[simp] theorem always_nil : Always step P s [] ↔ P s := by
  constructor
  · exact Always.start
  · intro h pre hpre
    rw [List.prefix_nil.1 hpre]
    exact ⟨s, rfl, h⟩

theorem always_cons :
    Always step P s (e :: es) ↔ P s ∧ ∃ t, step s e = .ok t ∧ Always step P t es := by
  constructor
  · intro h
    obtain ⟨u, hu, -⟩ := h [e] (by simp)
    obtain ⟨t, ht, -⟩ := run_cons_eq_ok.1 hu
    refine ⟨h.start, t, ht, fun pre hpre => ?_⟩
    obtain ⟨v, hv, hq⟩ := h (e :: pre) (by simpa using hpre)
    exact ⟨v, by rwa [run_cons ht] at hv, hq⟩
  · rintro ⟨hp, t, ht, h⟩ pre hpre
    cases pre with
    | nil => exact ⟨s, rfl, hp⟩
    | cons d pre =>
      obtain ⟨rfl, hpre'⟩ := List.cons_prefix_cons.1 hpre
      rw [run_cons ht]
      exact h pre hpre'

@[simp] theorem each_nil : Each step C s [] := by
  intro pre e t hpre
  simp at hpre

theorem each_cons :
    Each step C s (e :: es) ↔ C s e ∧ ∀ t, step s e = .ok t → Each step C t es := by
  constructor
  · intro h
    refine ⟨h [] e s (by simp) rfl, fun t ht pre d u hpre hu => ?_⟩
    exact h (e :: pre) d u (by simpa using hpre) (by rwa [run_cons ht])
  · rintro ⟨hc, h⟩ pre d u hpre hu
    cases pre with
    | nil =>
      obtain ⟨rfl, -⟩ := List.cons_prefix_cons.1 hpre
      cases hu
      exact hc
    | cons e' pre =>
      obtain ⟨rfl, hpre'⟩ := List.cons_prefix_cons.1 hpre
      obtain ⟨t, ht, hu⟩ := run_cons_eq_ok.1 hu
      exact h t ht pre d u hpre' hu

/-- The events of one part of a system. -/
theorem filterMap_cons_toList {α β : Type} (f : α → Option β) (x : α) (xs : List α) :
    (x :: xs).filterMap f = (f x).toList ++ xs.filterMap f := by
  rw [List.filterMap_cons]
  cases f x <;> rfl

/-- What every step of a run keeps holds at its end. -/
theorem run_keeps (hstep : ∀ s e t, e ∈ es → P s → G s e → step s e = .ok t → P t)
    (hp : P s) (hg : Each step G s es) (ht : run step s es = .ok t) : P t := by
  induction es generalizing s with
  | nil =>
    cases ht
    exact hp
  | cons e es ih =>
    obtain ⟨hge, hg⟩ := each_cons.1 hg
    obtain ⟨u, hu, ht⟩ := run_cons_eq_ok.1 ht
    refine ih (fun s e t he => hstep s e t (List.mem_cons_of_mem _ he)) ?_ (hg u hu) ht
    exact hstep s e u List.mem_cons_self hp hge hu

theorem Each.left (h : Each step C s (es ++ fs)) : Each step C s es :=
  fun pre e t hpre ht => h pre e t (hpre.trans (List.prefix_append es fs)) ht

theorem Each.right (h : Each step C s (es ++ fs)) (ht : run step s es = .ok t) :
    Each step C t fs := by
  intro pre e u hpre hu
  refine h (es ++ pre) e u ?_ (by rwa [run_append ht])
  rw [List.append_assoc]
  exact (List.prefix_append_right_inj es).2 hpre

theorem Each.and (hc : Each step C s es) (hd : Each step D s es) :
    Each step (fun s e => C s e ∧ D s e) s es :=
  fun pre e t hpre ht => ⟨hc pre e t hpre ht, hd pre e t hpre ht⟩

/-- The invariant rule. -/
theorem always_of_each (hstep : ∀ s e, P s → C s e → ∃ t, step s e = .ok t ∧ P t)
    (hp : P s) (h : Each step C s es) : Always step P s es := by
  induction es generalizing s with
  | nil => exact always_nil.2 hp
  | cons e es ih =>
    obtain ⟨hc, h⟩ := each_cons.1 h
    obtain ⟨t, ht, hp'⟩ := hstep s e hp hc
    exact always_cons.2 ⟨hp, t, ht, ih hp' (h t ht)⟩

/-- With an invariant `I` that every run allowed by `G` keeps as long as `P` holds. -/
theorem always_iff_each
    (hinv : ∀ s e t, I s → P s → G s e → step s e = .ok t → P t → I t)
    (hstep : ∀ s e, I s → P s → G s e → ((∃ t, step s e = .ok t ∧ P t) ↔ C s e))
    (hi : I s) (hp : P s) (hg : Each step G s es) :
    Always step P s es ↔ Each step C s es := by
  induction es generalizing s with
  | nil => simp [hp]
  | cons e es ih =>
    obtain ⟨hge, hg⟩ := each_cons.1 hg
    rw [always_cons, each_cons]
    constructor
    · rintro ⟨-, t, ht, h⟩
      have hpt : P t := h.start
      refine ⟨(hstep s e hi hp hge).1 ⟨t, ht, hpt⟩, fun u hu => ?_⟩
      obtain rfl : t = u := Except.ok.inj (ht.symm.trans hu)
      exact (ih (hinv s e t hi hp hge ht hpt) hpt (hg t ht)).1 h
    · rintro ⟨hc, h⟩
      obtain ⟨t, ht, hpt⟩ := (hstep s e hi hp hge).2 hc
      exact ⟨hp, t, ht, (ih (hinv s e t hi hp hge ht hpt) hpt (hg t ht)).2 (h t ht)⟩

/-- Two conditions agree on a run when they agree on each step that the first lets through. -/
theorem each_iff_each (hinv : ∀ s e t, I s → C s e → step s e = .ok t → I t)
    (hstep : ∀ s e, I s → G s e → (C s e ↔ D s e)) (hi : I s) (hg : Each step G s es) :
    Each step C s es ↔ Each step D s es := by
  induction es generalizing s with
  | nil => simp
  | cons e es ih =>
    obtain ⟨hge, hg⟩ := each_cons.1 hg
    rw [each_cons, each_cons, ← hstep s e hi hge]
    exact and_congr_right fun hc =>
      forall₂_congr fun t ht => ih (hinv s e t hi hc ht) (hg t ht)

/-- A step that does what `step` does, where it returns. -/
theorem run_of_steps {step' : σ → ε → Except φ σ}
    (h : ∀ s e t, step' s e = .ok t → step s e = .ok t) (ht : run step' s es = .ok t) :
    run step s es = .ok t := by
  induction es generalizing s with
  | nil => exact ht
  | cons e es ih =>
    obtain ⟨u, hu, ht⟩ := run_cons_eq_ok.1 ht
    exact run_cons_eq_ok.2 ⟨u, h s e u hu, ih ht⟩

theorem Each.of_steps {step' : σ → ε → Except φ σ} (hc : Each step C s es)
    (h : ∀ s e t, step' s e = .ok t → step s e = .ok t) : Each step' C s es :=
  fun pre e t hpre ht => hc pre e t hpre (run_of_steps h ht)

theorem each_of_forall (h : ∀ e ∈ es, ∀ s, C s e) : Each step C s es := by
  intro pre e t hpre _
  exact h e (hpre.subset (by simp)) t

/-- A run returns when each of its steps does, from a state with the invariant. -/
theorem run_iff_each_of_inv (hinv : ∀ s e t, I s → step s e = .ok t → I t)
    (hstep : ∀ s e, I s → ((∃ t, step s e = .ok t) ↔ C s e)) (hi : I s) :
    (∃ t, run step s es = .ok t) ↔ Each step C s es := by
  induction es generalizing s with
  | nil => exact iff_of_true ⟨s, rfl⟩ each_nil
  | cons e es ih =>
    rw [each_cons, ← hstep s e hi]
    constructor
    · rintro ⟨u, hu⟩
      obtain ⟨t, ht, hu⟩ := run_cons_eq_ok.1 hu
      refine ⟨⟨t, ht⟩, fun t' ht' => ?_⟩
      obtain rfl : t = t' := Except.ok.inj (ht.symm.trans ht')
      exact (ih (hinv s e t hi ht)).1 ⟨u, hu⟩
    · rintro ⟨⟨t, ht⟩, h⟩
      obtain ⟨u, hu⟩ := (ih (hinv s e t hi ht)).2 (h t ht)
      exact ⟨u, run_cons_eq_ok.2 ⟨t, ht, hu⟩⟩

theorem run_iff_each (hstep : ∀ s e, (∃ t, step s e = .ok t) ↔ C s e) :
    (∃ t, run step s es = .ok t) ↔ Each step C s es :=
  run_iff_each_of_inv (I := fun _ => True) (fun _ _ _ _ _ => trivial) (fun s e _ => hstep s e) trivial

/-- What every step between good states does. -/
theorem Always.each (h : Always step P s es)
    (hstep : ∀ s e t, P s → step s e = .ok t → P t → C s e) : Each step C s es := by
  induction es generalizing s with
  | nil => exact each_nil
  | cons e es ih =>
    obtain ⟨hp, t, ht, h⟩ := always_cons.1 h
    refine each_cons.2 ⟨hstep s e t hp ht h.start, fun u hu => ?_⟩
    obtain rfl : t = u := Except.ok.inj (ht.symm.trans hu)
    exact ih h

theorem Always.mono (h : Always step P s es) (hpq : ∀ t, P t → Q t) : Always step Q s es := by
  intro pre hpre
  obtain ⟨t, ht, hp⟩ := h pre hpre
  exact ⟨t, ht, hpq t hp⟩

/-! ### Deciding a property of a run -/

instance decidableAlways [DecidablePred P] : ∀ s es, Decidable (Always step P s es)
  | s, [] => decidable_of_iff (P s) always_nil.symm
  | s, e :: es =>
    match h : step s e with
    | .error _ => isFalse fun ha => by
      obtain ⟨-, t, ht, -⟩ := always_cons.1 ha
      exact nomatch h.symm.trans ht
    | .ok t =>
      have := decidableAlways t es
      decidable_of_iff (P s ∧ Always step P t es) (by rw [always_cons, h]; simp)

instance decidableEach [∀ s e, Decidable (C s e)] : ∀ s es, Decidable (Each step C s es)
  | _, [] => isTrue each_nil
  | s, e :: es =>
    match h : step s e with
    | .error _ => decidable_of_iff (C s e) (by rw [each_cons, h]; simp)
    | .ok t =>
      have := decidableEach t es
      decidable_of_iff (C s e ∧ Each step C t es) (by rw [each_cons, h]; simp)

instance decidableNext [DecidablePred P] :
    ∀ x : Except φ σ, Decidable (∀ t, x = .ok t → P t)
  | .error _ => isTrue fun _ h => nomatch h
  | .ok t => decidable_of_iff (P t) (by simp)

end IotClient.Machine
