import Mathlib.Data.List.Infix

/-! Runs of a machine whose step may refuse an event. `Always P` says that every state
a run reaches satisfies `P`, `Each C` that every step it takes meets `C` in the state it
is taken from. The rules below turn facts about one step into facts about runs. -/

namespace Machine

variable {S E : Type*} (step : S → E → Option S)

/-- The state after a list of events, `none` if one of them is refused. -/
def run (s : S) : List E → Option S
  | [] => some s
  | e :: es => (step s e).bind fun s' => run s' es

def Always (P : S → Prop) (s : S) (es : List E) : Prop :=
  ∀ pre, pre <+: es → ∀ t, run step s pre = some t → P t

def Each (C : S → E → Prop) (s : S) (es : List E) : Prop :=
  ∀ pre e, pre ++ [e] <+: es → ∀ t u, run step s pre = some t → step t e = some u → C t e

/-- Some run from here ends in `Q`. -/
def CanReach (Q : S → Prop) (s : S) : Prop := ∃ es t, run step s es = some t ∧ Q t

variable {step}

@[simp] theorem run_nil (s : S) : run step s [] = some s := rfl

theorem run_cons_eq_some {s t : S} {e : E} {es : List E} :
    run step s (e :: es) = some t ↔ ∃ s', step s e = some s' ∧ run step s' es = some t := by
  simp [run, Option.bind_eq_some_iff]

theorem run_append (s : S) (as bs : List E) :
    run step s (as ++ bs) = (run step s as).bind fun t => run step t bs := by
  induction as generalizing s with
  | nil => rfl
  | cons e as ih =>
    rw [List.cons_append, run, run]
    cases step s e with
    | none => rfl
    | some s' => exact ih s'

theorem canReach_of_step {Q : S → Prop} {s s' : S} {e : E} (hs : step s e = some s')
    (h : CanReach step Q s') : CanReach step Q s := by
  obtain ⟨es, t, ht, hq⟩ := h
  exact ⟨e :: es, t, run_cons_eq_some.2 ⟨s', hs, ht⟩, hq⟩

theorem canReach_self {Q : S → Prop} {s : S} (h : Q s) : CanReach step Q s := ⟨[], s, rfl, h⟩

theorem always_nil {P : S → Prop} {s : S} : Always step P s [] ↔ P s := by
  simp [Always]

theorem always_cons {P : S → Prop} {s : S} {e : E} {es : List E} :
    Always step P s (e :: es) ↔ P s ∧ ∀ s', step s e = some s' → Always step P s' es := by
  constructor
  · intro h
    refine ⟨h [] List.nil_prefix s rfl, fun s' hs pre hp t ht => ?_⟩
    exact h (e :: pre) (List.cons_prefix_cons.2 ⟨rfl, hp⟩) t (run_cons_eq_some.2 ⟨s', hs, ht⟩)
  · rintro ⟨h0, h⟩ pre hp t ht
    rcases List.prefix_cons_iff.1 hp with rfl | ⟨pre', rfl, hp'⟩
    · cases ht; exact h0
    · obtain ⟨s', hs, ht'⟩ := run_cons_eq_some.1 ht
      exact h s' hs pre' hp' t ht'

theorem each_nil {C : S → E → Prop} {s : S} : Each step C s [] := by
  intro pre e hp
  simp at hp

theorem each_cons {C : S → E → Prop} {s : S} {e : E} {es : List E} :
    Each step C s (e :: es) ↔ ∀ s', step s e = some s' → C s e ∧ Each step C s' es := by
  constructor
  · intro h s' hs
    refine ⟨h [] e (by simp) s s' rfl hs, fun pre f hp t u ht hu => ?_⟩
    exact h (e :: pre) f (List.cons_prefix_cons.2 ⟨rfl, hp⟩) t u
      (run_cons_eq_some.2 ⟨s', hs, ht⟩) hu
  · intro h pre f hp t u ht hu
    cases pre with
    | nil =>
      obtain ⟨rfl, -⟩ := List.cons_prefix_cons.1 hp
      cases ht
      exact (h u hu).1
    | cons e' pre' =>
      obtain ⟨rfl, hp'⟩ := List.cons_prefix_cons.1 hp
      obtain ⟨s', hs, ht'⟩ := run_cons_eq_some.1 ht
      exact (h s' hs).2 pre' f hp' t u ht' hu

theorem each_cons_of_step {C : S → E → Prop} {s s' : S} {e : E} {es : List E}
    (hs : step s e = some s') : Each step C s (e :: es) ↔ C s e ∧ Each step C s' es := by
  rw [each_cons]
  refine ⟨fun h => h s' hs, fun h t ht => ?_⟩
  obtain rfl := Option.some.inj (hs.symm.trans ht)
  exact h

/-- Where no event is refused, a condition on events alone holds of all events of a run. -/
theorem each_iff_forall_mem {C : E → Prop} (htotal : ∀ s e, ∃ s', step s e = some s')
    (s : S) (es : List E) : Each step (fun _ e => C e) s es ↔ ∀ e ∈ es, C e := by
  induction es generalizing s with
  | nil => exact iff_of_true each_nil (by simp)
  | cons e es ih =>
    obtain ⟨s', hs⟩ := htotal s e
    rw [each_cons, List.forall_mem_cons]
    constructor
    · intro h
      exact ⟨(h s' hs).1, (ih s').1 (h s' hs).2⟩
    · rintro ⟨he, hes⟩ t -
      exact ⟨he, (ih t).2 hes⟩

/-- If `C` keeps an invariant that implies `P`, and a step outside `C` breaks `P` at
once, then `P` holds in every state of a run exactly when all its steps meet `C`. -/
theorem always_iff_each (Inv P : S → Prop) (C : S → E → Prop) (hP : ∀ s, Inv s → P s)
    (hC : ∀ s e s', Inv s → step s e = some s' → C s e → Inv s')
    (hbad : ∀ s e s', Inv s → step s e = some s' → ¬ C s e → ¬ P s') :
    ∀ (es : List E) (s : S), Inv s → (Always step P s es ↔ Each step C s es) := by
  intro es
  induction es with
  | nil => intro s hs; simp only [always_nil, each_nil, iff_true]; exact hP s hs
  | cons e es ih =>
    intro s hs
    rw [always_cons, each_cons]
    constructor
    · rintro ⟨-, h⟩ s' hstep
      have hc : C s e := by
        by_contra hc
        exact hbad s e s' hs hstep hc (h s' hstep [] List.nil_prefix s' rfl)
      exact ⟨hc, (ih s' (hC s e s' hs hstep hc)).1 (h s' hstep)⟩
    · intro h
      refine ⟨hP s hs, fun s' hstep => ?_⟩
      obtain ⟨hc, hrest⟩ := h s' hstep
      exact (ih s' (hC s e s' hs hstep hc)).2 hrest

theorem run_preserves {Q : S → Prop} (hQ : ∀ s e s', Q s → step s e = some s' → Q s') :
    ∀ (es : List E) (s t : S), Q s → run step s es = some t → Q t := by
  intro es
  induction es with
  | nil => intro s t hs ht; cases ht; exact hs
  | cons e es ih =>
    intro s t hs ht
    obtain ⟨s', hstep, ht'⟩ := run_cons_eq_some.1 ht
    exact ih s' t (hQ s e s' hs hstep) ht'

/-- A run either meets `C` throughout and ends in `Inv`, or leaves `C` once and ends in
`Bad`, when a step outside `C` leads from `Inv` to `Bad` and `Bad` is never left. -/
theorem run_inv_or_bad (Inv Bad : S → Prop) (C : S → E → Prop)
    (hC : ∀ s e s', Inv s → step s e = some s' → C s e → Inv s')
    (hbreak : ∀ s e s', Inv s → step s e = some s' → ¬ C s e → Bad s')
    (hstay : ∀ s e s', Bad s → step s e = some s' → Bad s') :
    ∀ (es : List E) (s t : S), Inv s → run step s es = some t →
      (Each step C s es ∧ Inv t) ∨ (¬ Each step C s es ∧ Bad t) := by
  intro es
  induction es with
  | nil => intro s t hs ht; cases ht; exact Or.inl ⟨each_nil, hs⟩
  | cons e es ih =>
    intro s t hs ht
    obtain ⟨s', hstep, ht'⟩ := run_cons_eq_some.1 ht
    by_cases hc : C s e
    · rcases ih s' t (hC s e s' hs hstep hc) ht' with ⟨h, hi⟩ | ⟨h, hb⟩
      · refine Or.inl ⟨each_cons.2 fun u hu => ?_, hi⟩
        obtain rfl : s' = u := by rw [hstep] at hu; exact Option.some.inj hu
        exact ⟨hc, h⟩
      · exact Or.inr ⟨fun h' => h (each_cons.1 h' s' hstep).2, hb⟩
    · refine Or.inr ⟨fun h' => hc (each_cons.1 h' s' hstep).1, ?_⟩
      exact run_preserves hstay es s' t (hbreak s e s' hs hstep hc) ht'

/-- Steps that meet `C` keep an invariant that implies `P`. -/
theorem always_of_each (Inv P : S → Prop) (C : S → E → Prop) (hP : ∀ s, Inv s → P s)
    (hC : ∀ s e s', Inv s → step s e = some s' → C s e → Inv s') :
    ∀ (es : List E) (s : S), Inv s → Each step C s es → Always step P s es := by
  intro es
  induction es with
  | nil => exact fun s hs _ => always_nil.2 (hP s hs)
  | cons e es ih =>
    intro s hs h
    refine always_cons.2 ⟨hP s hs, fun s' hstep => ?_⟩
    obtain ⟨hc, hrest⟩ := each_cons.1 h s' hstep
    exact ih s' (hC s e s' hs hstep hc) hrest

/-- The first step of a run that leaves `C`, where one does. -/
theorem exists_first_of_not_each (Inv : S → Prop) (C : S → E → Prop)
    (hC : ∀ s e s', Inv s → step s e = some s' → C s e → Inv s') :
    ∀ (es : List E) (s : S), Inv s → ¬ Each step C s es →
      ∃ pre e t u, pre ++ [e] <+: es ∧ run step s pre = some t ∧ step t e = some u ∧
        Each step C s pre ∧ Inv t ∧ ¬ C t e := by
  intro es
  induction es with
  | nil => exact fun s _ h => absurd each_nil h
  | cons e es ih =>
    intro s hs h
    rw [each_cons] at h
    push Not at h
    obtain ⟨s', hstep, hbroken⟩ := h
    by_cases hc : C s e
    · obtain ⟨pre, f, t, u, hpre, hrun, hu, heach, ht⟩ :=
        ih s' (hC s e s' hs hstep hc) (hbroken hc)
      refine ⟨e :: pre, f, t, u, List.cons_prefix_cons.2 ⟨rfl, hpre⟩,
        run_cons_eq_some.2 ⟨s', hstep, hrun⟩, hu, each_cons.2 fun s'' hs'' => ?_, ht⟩
      obtain rfl : s' = s'' := Option.some.inj (hstep.symm.trans hs'')
      exact ⟨hc, heach⟩
    · exact ⟨[], e, s, s', by simp, rfl, hstep, each_nil, hs, hc⟩

/-- If a step outside `C` leaves `P` within reach of breaking, `C` is enough for `P` and
cannot be left safely. -/
theorem always_or_breaks (Inv P : S → Prop) (C : S → E → Prop) (hP : ∀ s, Inv s → P s)
    (hC : ∀ s e s', Inv s → step s e = some s' → C s e → Inv s')
    (hbad : ∀ s e s', Inv s → step s e = some s' → ¬ C s e → CanReach step (fun v => ¬ P v) s')
    (es : List E) (s : S) (hs : Inv s) :
    (Each step C s es → Always step P s es) ∧
    (¬ Each step C s es → ∃ pre e t t', pre ++ [e] <+: es ∧ run step s pre = some t ∧
      step t e = some t' ∧ Each step C s pre ∧ CanReach step (fun v => ¬ P v) t') := by
  refine ⟨always_of_each Inv P C hP hC es s hs, fun hnot => ?_⟩
  obtain ⟨pre, e, t, t', hpre, hrun, hstep, heach, hinv, hc⟩ :=
    exists_first_of_not_each Inv C hC es s hs hnot
  exact ⟨pre, e, t, t', hpre, hrun, hstep, heach, hbad t e t' hinv hstep hc⟩

end Machine
