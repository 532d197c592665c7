import Mathlib.Data.List.Perm.Basic

/-! A log of what is done to handles. A log is settled when every handle that was opened is
released once and not used behind that; `Holds` is what remains to be released on the way. -/

namespace Ledger

inductive Call (H : Type*)
  | opened (h : H)
  | used (h : H)
  | released (h : H)
  deriving DecidableEq, Repr

variable {H : Type*} [DecidableEq H]

/-- The handle is released once, and not used behind that. -/
def ReleasedOnce (log : List (Call H)) (h : H) : Prop :=
  log.count (.released h) = 1 ∧ ¬ [.released h, .used h].Sublist log

def Settled (log : List (Call H)) : Prop := ∀ h, .opened h ∈ log → ReleasedOnce log h

structure Holds (log : List (Call H)) (live : List H) : Prop where
  nodup : live.Nodup
  live_open : ∀ h ∈ live, .opened h ∈ log ∧ .released h ∉ log
  settled : ∀ h, .opened h ∈ log → h ∉ live → ReleasedOnce log h
  known : ∀ h, .released h ∈ log → .opened h ∈ log

theorem holds_nil : Holds ([] : List (Call H)) [] := ⟨List.nodup_nil, by simp, by simp, by simp⟩

theorem settled_of_holds {log : List (Call H)} (h : Holds log []) : Settled log :=
  fun x hx => h.settled x hx List.not_mem_nil

theorem holds_perm {log : List (Call H)} {live live' : List H} (h : Holds log live)
    (hp : live.Perm live') : Holds log live' :=
  ⟨hp.nodup_iff.1 h.nodup, fun x hx => h.live_open x (hp.mem_iff.2 hx),
    fun x hx hn => h.settled x hx fun hm => hn (hp.mem_iff.1 hm), h.known⟩

omit [DecidableEq H] in
theorem pair_sublist_snoc {a b c : Call H} {log : List (Call H)}
    (h : [a, b].Sublist (log ++ [c])) : [a, b].Sublist log ∨ (a ∈ log ∧ b = c) := by
  rw [← List.reverse_sublist] at h
  simp only [List.reverse_append, List.reverse_cons, List.reverse_nil, List.nil_append,
    List.singleton_append] at h
  rcases List.sublist_cons_iff.1 h with h | ⟨r, hr, h⟩
  · refine Or.inl (List.reverse_sublist.1 ?_)
    simpa using h
  · obtain ⟨rfl, rfl⟩ := List.cons.inj hr
    refine Or.inr ⟨?_, rfl⟩
    simpa using h

/-- A call on another handle changes nothing for one that is released. -/
theorem releasedOnce_snoc {log : List (Call H)} {h : H} (hh : ReleasedOnce log h) {c : Call H}
    (hr : c ≠ .released h) (hu : c ≠ .used h) : ReleasedOnce (log ++ [c]) h := by
  refine ⟨?_, fun hs => ?_⟩
  · rw [List.count_append, hh.1, List.count_eq_zero.2 (by simpa using Ne.symm hr)]
  · rcases pair_sublist_snoc hs with hs | ⟨-, he⟩
    · exact hh.2 hs
    · exact hu he.symm

theorem holds_opened {log : List (Call H)} {live : List H} (h : Holds log live) {x : H}
    (hx : .opened x ∉ log) : Holds (log ++ [.opened x]) (x :: live) := by
  refine ⟨List.nodup_cons.2 ⟨fun hm => hx (h.live_open x hm).1, h.nodup⟩, fun y hy => ?_,
    fun y hy hn => ?_, fun y hy => ?_⟩
  · rcases List.mem_cons.1 hy with rfl | hy
    · exact ⟨by simp, by simpa using fun hr => hx (h.known y hr)⟩
    · obtain ⟨ho, hr⟩ := h.live_open y hy
      exact ⟨List.mem_append_left _ ho, by simpa using hr⟩
  · rw [List.mem_cons, not_or] at hn
    have ho : .opened y ∈ log := by simpa [hn.1] using hy
    exact releasedOnce_snoc (h.settled y ho hn.2) (by simp) (by simp)
  · exact List.mem_append_left _ (h.known y (by simpa using hy))

theorem holds_used {log : List (Call H)} {live : List H} (h : Holds log live) {x : H}
    (hx : x ∈ live) : Holds (log ++ [.used x]) live := by
  refine ⟨h.nodup, fun y hy => ?_, fun y hy hn => ?_, fun y hy => ?_⟩
  · obtain ⟨ho, hr⟩ := h.live_open y hy
    exact ⟨List.mem_append_left _ ho, by simpa using hr⟩
  · have hne : x ≠ y := fun he => hn (he ▸ hx)
    exact releasedOnce_snoc (h.settled y (by simpa using hy) hn) (by simp) (by simpa using hne)
  · exact List.mem_append_left _ (h.known y (by simpa using hy))

theorem holds_released {log : List (Call H)} {live : List H} {x : H} (h : Holds log (x :: live)) :
    Holds (log ++ [.released x]) live := by
  obtain ⟨hx, hnodup⟩ := List.nodup_cons.1 h.nodup
  obtain ⟨hopen, hnot⟩ := h.live_open x List.mem_cons_self
  refine ⟨hnodup, fun y hy => ?_, fun y hy hn => ?_, fun y hy => ?_⟩
  · obtain ⟨ho, hr⟩ := h.live_open y (List.mem_cons_of_mem _ hy)
    refine ⟨List.mem_append_left _ ho, ?_⟩
    have hne : y ≠ x := fun he => hx (he ▸ hy)
    simpa [hne] using hr
  · by_cases he : y = x
    · subst he
      refine ⟨by rw [List.count_append, List.count_eq_zero.2 hnot]; simp, fun hs => ?_⟩
      rcases pair_sublist_snoc hs with hs | ⟨-, he⟩
      · exact hnot (hs.subset List.mem_cons_self)
      · cases he
    · have hne : ¬ y ∈ x :: live := fun hm => (List.mem_cons.1 hm).elim he hn
      exact releasedOnce_snoc (h.settled y (by simpa using hy) hne) (by simpa using Ne.symm he)
        (by simp)
  · rcases List.mem_append.1 hy with hy | hy
    · exact List.mem_append_left _ (h.known y hy)
    · obtain rfl : y = x := by simpa using hy
      exact List.mem_append_left _ hopen

/-- A handle released twice. -/
theorem not_settled_of_count {log : List (Call H)} {h : H} (ho : .opened h ∈ log)
    (hc : 2 ≤ log.count (.released h)) : ¬ Settled log := by
  intro hs
  have := (hs h ho).1
  omega

end Ledger
