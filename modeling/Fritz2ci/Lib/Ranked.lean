import Fritz2ci.Lib.Machine

/-! Runs that come to an end. Every step of some of the threads lowers a rank, the steps of the
others do not raise it: these threads take no more steps than the rank says, and where one of them
can always move, they get to the end. -/

namespace Machine

variable {S E : Type*} {step : S → E → Option S}
variable (Inv : S → Prop) (C : S → E → Prop) (own : E → Bool) (rank : S → ℕ)

/-- One step: an invariant that is kept, and a rank that pays for the steps that count. -/
structure Lowers (step : S → E → Option S) : Prop where
  keeps : ∀ s e s', Inv s → step s e = some s' → Inv s'
  pays : ∀ s e s', Inv s → step s e = some s' → C s e → own e = true → rank s' < rank s
  spares : ∀ s e s', Inv s → step s e = some s' → own e = false → rank s' ≤ rank s

variable {Inv C own rank}

theorem countP_own_le (h : Lowers Inv C own rank step) (es : List E) {s t : S} (hs : Inv s)
    (hrun : run step s es = some t) (heach : Each step C s es) :
    es.countP own + rank t ≤ rank s := by
  induction es generalizing s with
  | nil =>
    cases hrun
    simp
  | cons e es ih =>
    obtain ⟨s', hstep, hrest⟩ := run_cons_eq_some.1 hrun
    obtain ⟨hc, heach'⟩ := (each_cons_of_step hstep).1 heach
    have hle := ih (h.keeps s e s' hs hstep) hrest heach'
    rw [List.countP_cons]
    cases hown : own e with
    | true =>
      have := h.pays s e s' hs hstep hc hown
      simp only [if_true]
      omega
    | false =>
      have := h.spares s e s' hs hstep hown
      simp only [Bool.false_eq_true, if_false]
      omega

/-- Where one of them can move unless the rank is 0, they reach 0 on their own. -/
theorem exists_own_run (h : Lowers Inv C own rank step)
    (hmove : ∀ s, Inv s → 0 < rank s → ∃ e, own e = true ∧ C s e ∧ (step s e).isSome = true)
    {s : S} (hs : Inv s) :
    ∃ es t, (∀ e ∈ es, own e = true) ∧ run step s es = some t ∧ Each step C s es ∧ rank t = 0 := by
  induction hn : rank s using Nat.strong_induction_on generalizing s with
  | _ n ih =>
    rcases Nat.eq_zero_or_pos (rank s) with hzero | hpos
    · exact ⟨[], s, by simp, rfl, each_nil, hzero⟩
    · obtain ⟨e, hown, hc, hsome⟩ := hmove s hs hpos
      obtain ⟨s', hstep⟩ := Option.isSome_iff_exists.1 hsome
      have hlt := h.pays s e s' hs hstep hc hown
      obtain ⟨es, t, hall, hrun, heach, hzero⟩ :=
        ih (rank s') (hn ▸ hlt) (h.keeps s e s' hs hstep) rfl
      refine ⟨e :: es, t, ?_, run_cons_eq_some.2 ⟨s', hstep, hrun⟩, ?_, hzero⟩
      · exact List.forall_mem_cons.2 ⟨hown, hall⟩
      · exact (each_cons_of_step hstep).2 ⟨hc, heach⟩

end Machine
