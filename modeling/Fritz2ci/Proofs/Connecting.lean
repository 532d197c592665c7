import Fritz2ci.Lib.Machine
import Fritz2ci.Spec.Connecting

/-! One connection, and a bit that tells the truth about it. The attempts of the two threads
share the stored socket without a lock: all is well while no attempt begins inside another and
nothing closes the socket between the return of `connect` and the setting of the bit. -/

namespace Fritz2ci

open Machine

def Connecting.Stored (s : Connecting) (st : SockState) : Prop :=
  ∃ i, s.sock = some i ∧ s.sockets[i]? = some st

/-- Every socket but the stored one is closed. -/
def Connecting.OthersClosed (s : Connecting) : Prop :=
  ∀ (i : ℕ) (st : SockState), s.sockets[i]? = some st → s.sock ≠ some i → st = .closed

/-- While no attempt is in progress: the bit is set exactly when the stored socket is
connected, without one -1 is stored, and no other socket is open. -/
def OneConnection (s : Connecting) : Prop :=
  (∀ t, s.phase t = .idle) →
    (s.connected = true ↔ s.Stored .connected) ∧ (s.connected = false → s.sock = none) ∧
      s.OthersClosed

/-- No attempt begins inside another (one that gets no socket while none is stored changes
nothing), and no socket is closed that an attempt is about to report as connected. -/
def NoOverlap (s : Connecting) : ConnectingEvent → Prop
  | .begin t ok =>
    s.connected = true ∨ s.phase t.other = .idle ∨ (ok = false ∧ s.sock = none)
  | .netDown ifindex => ifindex = s.assocIfindex → s.phase .mainLoop ≠ .returned true
  | .lost => s.phase .mainLoop ≠ .returned true
  | _ => True

/-- One attempt at a time, and what it knows about the stored socket. -/
structure ConnectingInv (s : Connecting) : Prop where
  others : s.OthersClosed
  idle : (∀ t, s.phase t = .idle) →
    (s.connected = true ∧ s.Stored .connected) ∨ (s.connected = false ∧ s.sock = none)
  busy : ∀ t, s.phase t ≠ .idle → s.connected = false ∧ s.phase t.other = .idle
  attempt : ∀ t, s.phase t = .connecting ∨ s.phase t = .returned false →
    s.sock = none ∨ s.Stored .unconnected
  success : ∀ t, s.phase t = .returned true → s.Stored .connected

theorem eq_or_other (t u : FritzThread) : u = t ∨ u = t.other := by
  cases t <;> cases u <;> simp [FritzThread.other]

@[simp] theorem other_ne (t : FritzThread) : t.other ≠ t := by cases t <;> simp [FritzThread.other]

@[simp] theorem other_other (t : FritzThread) : t.other.other = t := by cases t <;> rfl

@[simp] theorem move_phase_self (t : FritzThread) (p : ConnectAt) (s : Connecting) :
    (s.move t p).phase t = p := if_pos rfl

@[simp] theorem move_phase_other (t : FritzThread) (p : ConnectAt) (s : Connecting) :
    (s.move t p).phase t.other = s.phase t.other := if_neg (other_ne t)

theorem connectingInv_oneConnection {s : Connecting} (h : ConnectingInv s) : OneConnection s := by
  intro hidle
  rcases h.idle hidle with ⟨hbit, hstored⟩ | ⟨hbit, hnone⟩
  · exact ⟨iff_of_true hbit hstored, fun hne => by simp [hbit] at hne, h.others⟩
  · refine ⟨iff_of_false (by simp [hbit]) ?_, fun _ => hnone, h.others⟩
    rintro ⟨i, hi, -⟩
    rw [hnone] at hi
    cases hi

theorem othersClosed_closeFd {s : Connecting} (h : s.OthersClosed) : s.closeFd.OthersClosed := by
  unfold Connecting.closeFd
  cases hs : s.sock with
  | none => exact h
  | some i =>
    intro j st hj _
    by_cases hij : j = i
    · subst hij
      rw [List.getElem?_set_self'] at hj
      obtain ⟨_, -, hst⟩ := Option.map_eq_some_iff.1 hj
      exact hst.symm
    · rw [List.getElem?_set_ne (Ne.symm hij)] at hj
      exact h j st hj (by rw [hs]; exact fun he => hij (Option.some.inj he).symm)

@[simp] theorem closeFd_sock (s : Connecting) : s.closeFd.sock = none := by
  unfold Connecting.closeFd
  split <;> simp_all

@[simp] theorem closeFd_phase (s : Connecting) : s.closeFd.phase = s.phase := by
  unfold Connecting.closeFd
  split <;> rfl

@[simp] theorem closeFd_connected (s : Connecting) : s.closeFd.connected = s.connected := by
  unfold Connecting.closeFd
  split <;> rfl

theorem connectingInv_rearm {s : Connecting} (h : ConnectingInv s) (t : FritzThread) (ok : Bool) :
    ConnectingInv (s.rearm t ok) := by
  cases t <;> cases ok <;> exact ⟨h.others, h.idle, h.busy, h.attempt, h.success⟩

theorem connectingInv_close {s : Connecting} (h : ConnectingInv s)
    (hl : s.phase .listener = .idle) (hm : s.phase .mainLoop ≠ .returned true) :
    ConnectingInv { s.closeFd with connected := false } := by
  refine ⟨othersClosed_closeFd h.others, fun _ => Or.inr ⟨rfl, closeFd_sock s⟩, fun t ht => ?_,
    fun _ _ => Or.inl (closeFd_sock s), fun t ht => ?_⟩
  · rw [closeFd_phase] at ht
    exact ⟨rfl, (congrFun (closeFd_phase s) _).trans (h.busy t ht).2⟩
  · rw [closeFd_phase] at ht
    cases t with
    | mainLoop => exact absurd ht hm
    | listener => exact absurd (hl.symm.trans ht) (by simp)

theorem connectingInv_move {s : Connecting} {t : FritzThread} {p : ConnectAt}
    (hothers : s.OthersClosed) (hother : s.phase t.other = .idle)
    (hidle : p = .idle →
      (s.connected = true ∧ s.Stored .connected) ∨ (s.connected = false ∧ s.sock = none))
    (hbusy : p ≠ .idle → s.connected = false)
    (hattempt : p = .connecting ∨ p = .returned false → s.sock = none ∨ s.Stored .unconnected)
    (hsuccess : p = .returned true → s.Stored .connected) : ConnectingInv (s.move t p) := by
  have hphase : ∀ u, (s.move t p).phase u = p ∧ u = t ∨
      (s.move t p).phase u = .idle ∧ u = t.other := fun u => by
    rcases eq_or_other t u with rfl | rfl
    · exact Or.inl ⟨move_phase_self u p s, rfl⟩
    · exact Or.inr ⟨(move_phase_other t p s).trans hother, rfl⟩
  refine ⟨hothers, fun h => hidle ?_, fun u hu => ?_, fun u hu => ?_, fun u hu => ?_⟩
  · rw [← h t, move_phase_self]
  · rcases hphase u with ⟨hp, rfl⟩ | ⟨hp, -⟩
    · rw [hp] at hu
      exact ⟨hbusy hu, (move_phase_other u p s).trans hother⟩
    · exact absurd hp hu
  · rcases hphase u with ⟨hp, -⟩ | ⟨hp, -⟩
    · rw [hp] at hu
      exact hattempt hu
    · rw [hp] at hu
      simp at hu
  · rcases hphase u with ⟨hp, -⟩ | ⟨hp, -⟩
    · rw [hp] at hu
      exact hsuccess hu
    · rw [hp] at hu
      cases hu

theorem all_idle {s : Connecting} {t : FritzThread} (ht : s.phase t = .idle)
    (hother : s.phase t.other = .idle) (u : FritzThread) : s.phase u = .idle := by
  rcases eq_or_other t u with rfl | rfl
  · exact ht
  · exact hother

theorem connectingInv_begin {s : Connecting} (h : ConnectingInv s) {t : FritzThread} {ok : Bool}
    (ht : s.phase t = .idle) (hc : NoOverlap s (.begin t ok)) : ConnectingInv (s.begin t ok) := by
  unfold Connecting.begin
  by_cases hbit : s.connected = true
  · rw [if_pos hbit]
    exact connectingInv_rearm h t true
  · rw [if_neg hbit]
    have hnone : s.phase t.other = .idle → s.sock = none := fun hother => by
      rcases h.idle (all_idle ht hother) with ⟨htrue, -⟩ | ⟨-, hnone⟩
      · exact absurd htrue hbit
      · exact hnone
    have hfree := Or.resolve_left hc hbit
    cases ok with
    | true =>
      have hother : s.phase t.other = .idle := hfree.resolve_right fun hn => by simp at hn
      rw [if_pos rfl]
      refine connectingInv_move (fun i st hi hne => ?_) hother nofun
        (fun _ => Bool.eq_false_iff.2 hbit) (fun _ => Or.inr ⟨_, rfl, by simp⟩) nofun
      have hlt : i < s.sockets.length := by
        have hlen := (List.getElem?_eq_some_iff.1 hi).1
        have hi' : i ≠ s.sockets.length := fun he => hne (by rw [he])
        simp only [List.length_append, List.length_singleton] at hlen
        omega
      rw [List.getElem?_append_left hlt] at hi
      exact h.others i st hi (by simp [hnone hother])
    | false =>
      have hsame : ({ s with sock := none } : Connecting) = s := by
        rw [← hfree.elim hnone And.right]
      rw [if_neg Bool.false_ne_true, hsame]
      exact connectingInv_rearm h t false

theorem connectingInv_returns {s : Connecting} (h : ConnectingInv s) {t : FritzThread} {i : ℕ}
    (ht : s.phase t = .connecting) (hi : s.sock = some i)
    (hst : s.sockets[i]? = some .unconnected) (ifindex : Int) :
    ConnectingInv ({ s with
      sockets := s.sockets.set i .connected
      assocIfindex := ifindex }.move t (.returned true)) := by
  obtain ⟨hbit, hother⟩ := h.busy t (by simp [ht])
  refine connectingInv_move (fun j st hj hne => ?_) hother nofun (fun _ => hbit) (by simp)
    (fun _ => ⟨i, hi, ?_⟩)
  · have hij : i ≠ j := fun he => hne (by rw [← he]; exact hi)
    rw [List.getElem?_set_ne hij] at hj
    exact h.others j st hj hne
  · have hlt := (List.getElem?_eq_some_iff.1 hst).1
    simp [hlt]

theorem connectingInv_finish {s : Connecting} (h : ConnectingInv s) {t : FritzThread} {ok : Bool}
    (ht : s.phase t = .returned ok) :
    ConnectingInv ((if ok then ({ s with connected := true } : Connecting).rearm t true
      else s.closeFd.rearm t false).move t .idle) := by
  obtain ⟨hbit, hother⟩ := h.busy t (by simp [ht])
  cases ok with
  | true =>
    have hstored := h.success t ht
    cases t <;> exact connectingInv_move h.others hother (fun _ => Or.inl ⟨rfl, hstored⟩)
      (absurd rfl) (by simp) nofun
  | false =>
    have hclosed := othersClosed_closeFd h.others
    have hother' : s.closeFd.phase t.other = .idle := (congrFun (closeFd_phase s) _).trans hother
    have hnone : s.closeFd.connected = false ∧ s.closeFd.sock = none :=
      ⟨(closeFd_connected s).trans hbit, closeFd_sock s⟩
    cases t <;> exact connectingInv_move hclosed hother' (fun _ => Or.inr hnone)
      (absurd rfl) (by simp) nofun

theorem connectingInv_step {s s' : Connecting} {e : ConnectingEvent} (h : ConnectingInv s)
    (hs : connectingStep s e = some s') (hc : NoOverlap s e) : ConnectingInv s' := by
  cases e with
  | begin t ok =>
    simp only [connectingStep] at hs
    split_ifs at hs with hidle
    cases hs
    exact connectingInv_begin h hidle.1 hc
  | connectReturns t ok ifindex =>
    simp only [connectingStep] at hs
    split_ifs at hs with ht hok
    · split at hs
      · next i hi =>
        split_ifs at hs with hst
        cases hs
        exact connectingInv_returns h ht hi hst _
      · cases hs
    · cases hs
      obtain ⟨hbit, hother⟩ := h.busy t (by simp [ht])
      exact connectingInv_move h.others hother nofun (fun _ => hbit)
        (fun _ => h.attempt t (Or.inl ht)) nofun
  | finish t =>
    simp only [connectingStep] at hs
    split at hs
    · next ht => cases hs; exact connectingInv_finish h ht
    · next ht => cases hs; exact connectingInv_finish h ht
    · cases hs
  | netDown ifindex =>
    simp only [connectingStep] at hs
    split_ifs at hs with hl hmatch <;> cases hs
    · exact connectingInv_close h hl (hc hmatch)
    · exact h
  | lost =>
    simp only [connectingStep] at hs
    split_ifs at hs with hl
    cases hs
    exact connectingInv_close h hl.1 hc

theorem connectingInv_started (r : ConnectResult) : ConnectingInv (Connecting.started r) := by
  cases r with
  | noSocket =>
    exact ⟨nofun, fun _ => Or.inr ⟨rfl, rfl⟩, nofun, fun _ _ => Or.inl rfl, nofun⟩
  | refused =>
    refine ⟨fun i st hi _ => ?_, fun _ => Or.inr ⟨rfl, rfl⟩, nofun, fun _ _ => Or.inl rfl, nofun⟩
    exact (List.mem_singleton.1 (List.mem_of_getElem? hi))
  | established fd ifindex =>
    refine ⟨fun i st hi hne => ?_, fun _ => Or.inl ⟨rfl, 0, rfl, rfl⟩, nofun, by
      simp [Connecting.started], nofun⟩
    have hlt := (List.getElem?_eq_some_iff.1 hi).1
    have hzero : i = 0 := Nat.lt_one_iff.1 hlt
    exact absurd (by rw [hzero]; rfl) hne

@[simp] theorem rearm_phase (t : FritzThread) (ok : Bool) (s : Connecting) :
    (s.rearm t ok).phase = s.phase := by cases t <;> cases ok <;> rfl

@[simp] theorem rearm_connected (t : FritzThread) (ok : Bool) (s : Connecting) :
    (s.rearm t ok).connected = s.connected := by cases t <;> cases ok <;> rfl

@[simp] theorem rearm_sock (t : FritzThread) (ok : Bool) (s : Connecting) :
    (s.rearm t ok).sock = s.sock := by cases t <;> cases ok <;> rfl

@[simp] theorem rearm_sockets (t : FritzThread) (ok : Bool) (s : Connecting) :
    (s.rearm t ok).sockets = s.sockets := by cases t <;> cases ok <;> rfl

theorem move_idle {s : Connecting} {t : FritzThread} (h : s.phase t.other = .idle) :
    ∀ u, (s.move t .idle).phase u = .idle :=
  all_idle (move_phase_self t .idle s) ((move_phase_other t .idle s).trans h)

/-- An open socket that is no longer stored stays open. -/
theorem not_othersClosed_closeFd {s : Connecting} (h : ¬ s.OthersClosed) :
    ¬ s.closeFd.OthersClosed := by
  intro hclosed
  refine h fun i st hi hne => hclosed i st ?_ (by simp)
  unfold Connecting.closeFd
  split
  · next j hj =>
    rw [List.getElem?_set_ne fun he => hne (by rw [hj, he])]
    exact hi
  · exact hi

/-- The last attempt ends: it reports a connection that is gone, or closes one that was
reported, or a socket was left open before. -/
theorem finish_breaks {s : Connecting} {t : FritzThread} {ok : Bool} (ht : s.phase t = .returned ok)
    (hother : s.phase t.other = .idle)
    (hbad : (ok = true ∧ s.sock = none) ∨ (ok = false ∧ s.connected = true) ∨ ¬ s.OthersClosed) :
    CanReach connectingStep (fun v => ¬ OneConnection v) s := by
  cases ok with
  | true =>
    refine ⟨[.finish t], _, by simp only [run, connectingStep, ht]; rfl, fun hone => ?_⟩
    obtain ⟨hbit, -, hclosed⟩ := hone (move_idle (by simpa using hother))
    rcases hbad with ⟨-, hnone⟩ | ⟨hf, -⟩ | hopen
    · obtain ⟨i, hi, -⟩ := hbit.1 (by simp [Connecting.move])
      simp [Connecting.move, hnone] at hi
    · cases hf
    · exact hopen fun i st hi hne => hclosed i st (by simpa [Connecting.move] using hi)
        (by simpa [Connecting.move] using hne)
  | false =>
    refine ⟨[.finish t], _, by simp only [run, connectingStep, ht]; rfl, fun hone => ?_⟩
    obtain ⟨hbit, -, hclosed⟩ := hone (move_idle (by simpa using hother))
    rcases hbad with ⟨hf, -⟩ | ⟨-, htrue⟩ | hopen
    · cases hf
    · obtain ⟨i, hi, -⟩ := hbit.1 (by simpa [Connecting.move] using htrue)
      simp [Connecting.move] at hi
    · exact not_othersClosed_closeFd hopen fun i st hi hne => hclosed i st
        (by simpa [Connecting.move] using hi) (by simp [Connecting.move])

theorem attempt_breaks {s : Connecting} {t : FritzThread} (ht : s.phase t ≠ .idle)
    (hother : s.phase t.other = .idle)
    (hbad : (s.phase t ≠ .returned true ∧ s.connected = true) ∨ ¬ s.OthersClosed) :
    CanReach connectingStep (fun v => ¬ OneConnection v) s := by
  cases hphase : s.phase t with
  | idle => exact absurd hphase ht
  | connecting =>
    refine canReach_of_step (e := .connectReturns t false none) (if_pos hphase) ?_
    refine finish_breaks (move_phase_self t _ s) ((move_phase_other t _ s).trans hother) (Or.inr ?_)
    exact hbad.imp (fun h => ⟨rfl, h.2⟩) id
  | returned ok =>
    refine finish_breaks hphase hother (Or.inr (hbad.imp_left fun h => ⟨?_, h.2⟩))
    cases ok with
    | true => exact absurd hphase h.1
    | false => rfl

/-- A second attempt stores its socket over the one of the first: the first finds no socket, or
closes or disowns the one the second connected. -/
theorem begin_overlap_breaks {s : Connecting} {t : FritzThread} (h : ConnectingInv s)
    (hother : s.phase t.other ≠ .idle) :
    CanReach connectingStep (fun v => ¬ OneConnection v) (s.begin t true) := by
  have hbit : s.connected = false := (h.busy _ hother).1
  have hbegin : s.begin t true = ({ s with
      sock := some s.sockets.length
      sockets := s.sockets ++ [SockState.unconnected] } : Connecting).move t .connecting := by
    simp [Connecting.begin, hbit]
  have hcalling : (s.begin t true).phase t = .connecting := by rw [hbegin, move_phase_self]
  have hkept : (s.begin t true).phase t.other = s.phase t.other := by
    rw [hbegin, move_phase_other]
  by_cases hreturned : s.phase t.other = .returned true
  · refine canReach_of_step (e := .connectReturns t false none) (if_pos hcalling) ?_
    refine canReach_of_step (e := .finish t) (by simp only [connectingStep, move_phase_self]; rfl)
      (finish_breaks (t := t.other) ?_ (by simp) (Or.inl ⟨rfl, ?_⟩))
    · simp [hkept, hreturned]
    · simp [Connecting.move]
  · have hsecond : connectingStep (s.begin t true) (.connectReturns t true none) =
        some (({ s.begin t true with
          sockets := (s.begin t true).sockets.set s.sockets.length .connected } : Connecting).move t
            (.returned true)) := by
      rw [hbegin] at hcalling ⊢
      simp [connectingStep, Connecting.move]
    refine canReach_of_step hsecond (canReach_of_step (e := .finish t)
      (by simp only [connectingStep, move_phase_self]; rfl)
      (attempt_breaks (t := t.other) ?_ (by simp) (Or.inl ⟨?_, ?_⟩)))
    · simpa [hkept] using hother
    · simpa [hkept] using hreturned
    · simp [Connecting.move]

/-- An attempt that gets no socket forgets the one of the attempt in progress. -/
theorem begin_forgets_breaks {s : Connecting} {t : FritzThread} (h : ConnectingInv s)
    (ht : s.phase t = .idle) (hother : s.phase t.other ≠ .idle) (hsock : s.sock ≠ none) :
    CanReach connectingStep (fun v => ¬ OneConnection v) (s.begin t false) := by
  have hbit : s.connected = false := (h.busy _ hother).1
  have hbegin : s.begin t false = ({ s with sock := none } : Connecting).rearm t false := by
    simp [Connecting.begin, hbit]
  have hopen : ∃ st, s.Stored st ∧ st ≠ .closed := by
    cases hphase : s.phase t.other with
    | idle => exact absurd hphase hother
    | connecting =>
      exact ⟨_, (h.attempt _ (Or.inl hphase)).resolve_left hsock, by simp⟩
    | returned ok =>
      cases ok with
      | true => exact ⟨_, h.success _ hphase, by simp⟩
      | false => exact ⟨_, (h.attempt _ (Or.inr hphase)).resolve_left hsock, by simp⟩
  obtain ⟨st, ⟨i, -, hi⟩, hst⟩ := hopen
  rw [hbegin]
  refine attempt_breaks (t := t.other) (by simpa using hother) (by simpa using ht)
    (Or.inr fun hclosed => hst (hclosed i st (by simpa using hi) (by simp)))

/-- What `connect` reported is closed before the bit is set. -/
theorem close_breaks {s : Connecting} (hl : s.phase .listener = .idle)
    (hm : s.phase .mainLoop = .returned true) :
    CanReach connectingStep (fun v => ¬ OneConnection v) { s.closeFd with connected := false } :=
  finish_breaks (t := .mainLoop) (by simpa using hm)
    (by simpa [FritzThread.other] using hl) (Or.inl ⟨rfl, by simp⟩)

theorem overlap_breaks {s s' : Connecting} {e : ConnectingEvent} (h : ConnectingInv s)
    (hs : connectingStep s e = some s') (hc : ¬ NoOverlap s e) :
    CanReach connectingStep (fun v => ¬ OneConnection v) s' := by
  cases e with
  | begin t ok =>
    simp only [connectingStep] at hs
    split_ifs at hs with hidle
    cases hs
    simp only [NoOverlap, not_or, not_and] at hc
    obtain ⟨-, hother, hsock⟩ := hc
    cases ok with
    | true => exact begin_overlap_breaks h hother
    | false => exact begin_forgets_breaks h hidle.1 hother (hsock rfl)
  | connectReturns t ok ifindex => exact absurd trivial hc
  | finish t => exact absurd trivial hc
  | netDown ifindex =>
    have hmatch : ifindex = s.assocIfindex ∧ s.phase .mainLoop = .returned true := by
      simpa [NoOverlap] using hc
    simp only [connectingStep, if_pos hmatch.1] at hs
    split_ifs at hs with hl
    cases hs
    exact close_breaks hl hmatch.2
  | lost =>
    simp only [connectingStep] at hs
    split_ifs at hs with hl
    cases hs
    exact close_breaks hl.1 (not_not.1 hc)

/-- There is one connection and the bit tells the truth in every run in which no attempt overlaps
with another or with a close; from the first overlap on some continuation breaks it. -/
theorem oneConnection_while_noOverlap (r : ConnectResult) (es : List ConnectingEvent) :
    (Each connectingStep NoOverlap (Connecting.started r) es →
      Always connectingStep OneConnection (Connecting.started r) es) ∧
    (¬ Each connectingStep NoOverlap (Connecting.started r) es → ∃ pre e s s',
      pre ++ [e] <+: es ∧ run connectingStep (Connecting.started r) pre = some s ∧
        connectingStep s e = some s' ∧ Each connectingStep NoOverlap (Connecting.started r) pre ∧
          CanReach connectingStep (fun v => ¬ OneConnection v) s') :=
  always_or_breaks ConnectingInv OneConnection NoOverlap (fun _ => connectingInv_oneConnection)
    (fun _ _ _ h hs hc => connectingInv_step h hs hc)
    (fun _ _ _ h hs hc => overlap_breaks h hs hc) es _ (connectingInv_started r)

/-- The timer fires and a link comes up inside its `connect`: the socket of the listener is
connected twice, and the second thread to return closes it. -/
theorem overlapping_attempts_break : ¬ ∀ (r : ConnectResult) (es : List ConnectingEvent),
    Always connectingStep OneConnection (Connecting.started r) es := by
  intro h
  have hone := h .refused [.begin .mainLoop true, .begin .listener true,
    .connectReturns .listener true none, .connectReturns .mainLoop false none, .finish .listener,
    .finish .mainLoop] _ (List.prefix_refl _) _ rfl (fun t => by cases t <;> rfl)
  obtain ⟨i, hi, -⟩ := hone.1.1 rfl
  cases hi

end Fritz2ci
