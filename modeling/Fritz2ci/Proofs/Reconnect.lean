import Fritz2ci.Lib.Machine
import Fritz2ci.Spec.Fritz

/-! A cleared Connected bit is always being repaired, unless the connection ends while no
reconnect timer is armed: the branch of the listener that logs "trying to reconnect" arms
none, and a `net_down` may be taken for that of another interface. -/

namespace Fritz2ci

open Machine

inductive Link
  | up | down
  deriving DecidableEq, Repr

/-- A connection attempt: its answers, and the interface over which it connects where
`netutil_get_interface_from_sock` does not find that out. -/
structure Attempt where
  result : ConnectResult
  via : Int

/-- What happens from `fritz_startup` on. A tick or a `net_up` that finds the server connected
makes no attempt. -/
inductive FritzEvent
  | startup (attempt : Attempt)
  | tick (attempt : Option Attempt)
  | netUp (ifindex : Int) (attempt : Option Attempt)
  | netDown (ifindex : Int)
  | received (b : UInt8) (bytes : List UInt8)
  | peerClose

/-- The server and what happened to it. -/
structure FritzNet where
  srv : CIFritzServer
  events : List FritzEvent

/-- One step, refused where the attempt given does not fit the state of the server. -/
def fritzStep (s : FritzNet) (e : FritzEvent) : Option FritzNet :=
  let keep (srv : CIFritzServer) : FritzNet := ⟨srv, s.events ++ [e]⟩
  match e with
  | .startup _ => none
  | .tick none =>
    if s.srv.connected ∧ 0 < s.srv.timers then some (keep (fritzTryReconnect .refused s.srv))
    else none
  | .tick (some a) =>
    if ¬ s.srv.connected ∧ 0 < s.srv.timers then some (keep (fritzTryReconnect a.result s.srv))
    else none
  | .netUp _ none =>
    if s.srv.connected then some (keep (fritzHandleNetUp .refused s.srv)) else none
  | .netUp _ (some a) =>
    if ¬ s.srv.connected then some (keep (fritzHandleNetUp a.result s.srv)) else none
  | .netDown i => some (keep (fritzHandleNetDown i s.srv))
  | .received b bytes =>
    if s.srv.connected then some (keep (fritzListenSock (b :: bytes) s.srv)) else none
  | .peerClose => if s.srv.connected then some (keep (fritzListenSock [] s.srv)) else none

def fritzStarted (a : Attempt) : FritzNet := ⟨fritzStartup a.result, [.startup a]⟩

/-- The interface of the connection that an attempt makes. -/
def Attempt.link (a : Attempt) : Option Int :=
  match a.result with
  | .established _ ifindex => some (ifindex.getD a.via)
  | _ => none

/-- The interface index that an attempt puts into the server. -/
def Attempt.known (a : Attempt) : Option Int :=
  match a.result with
  | .established _ ifindex => ifindex
  | _ => none

def FritzEvent.attempt : FritzEvent → Option Attempt
  | .startup a => some a
  | .tick a => a
  | .netUp _ a => a
  | _ => none

/-- An attempt outside the timer that failed, and so armed one. -/
def FritzEvent.arms : FritzEvent → Bool
  | .startup a => a.link.isNone
  | .netUp _ (some a) => a.link.isNone
  | _ => false

/-- A tick that found or made a connection, and so ended its timer. -/
def FritzEvent.retires : FritzEvent → Bool
  | .tick none => true
  | .tick (some a) => a.link.isSome
  | _ => false

/-- The interface of the latest connection. -/
def usedBy (es : List FritzEvent) : Option Int :=
  es.foldl (fun used e => (e.attempt.bind Attempt.link).or used) none

/-- The index that the server remembers, of the latest connection whose interface was found. -/
def knownBy (es : List FritzEvent) : Int :=
  es.foldl (fun known e => (e.attempt.bind Attempt.known).getD known) 0

def FritzEvent.setLink (i : Int) (last : Option Link) : FritzEvent → Option Link
  | .netUp j _ => if j = i then some .up else last
  | .netDown j => if j = i then some .down else last
  | _ => last

/-- The last link event of an interface. -/
def lastLink (es : List FritzEvent) (i : Int) : Option Link :=
  es.foldl (FritzEvent.setLink i) none

/-- The last link event of the interface the connection used was `net_down`. -/
def LinkDown (es : List FritzEvent) : Prop :=
  ∃ i, usedBy es = some i ∧ lastLink es i = some .down

def BeingRepaired (s : FritzNet) : Prop :=
  s.srv.connected = false → 0 < s.srv.timers ∨ LinkDown s.events

/-- More attempts at startup and on a `net_up` failed than ticks found or made a connection,
or the interface of the connection went down. -/
def EndCovered (es : List FritzEvent) : Prop :=
  es.countP FritzEvent.retires < es.countP FritzEvent.arms ∨ LinkDown es

/-- What is asked of the events before one that ends a connection: before the peer closes it,
and before a `net_down` of the interface the server remembers while the connection runs over
another one. -/
def EventCovered (es : List FritzEvent) : FritzEvent → Prop
  | .peerClose => EndCovered es
  | .netDown i => ∀ j, usedBy es = some j → knownBy es = i → i ≠ j → EndCovered es
  | _ => True

section History

variable (es : List FritzEvent) (e : FritzEvent)

@[simp] theorem usedBy_append :
    usedBy (es ++ [e]) = (e.attempt.bind Attempt.link).or (usedBy es) := List.foldl_concat ..

@[simp] theorem knownBy_append :
    knownBy (es ++ [e]) = (e.attempt.bind Attempt.known).getD (knownBy es) := List.foldl_concat ..

@[simp] theorem lastLink_append (i : Int) :
    lastLink (es ++ [e]) i = e.setLink i (lastLink es i) := List.foldl_concat ..

@[simp] theorem countP_append_one (p : FritzEvent → Bool) :
    (es ++ [e]).countP p = es.countP p + if p e then 1 else 0 := by
  rw [List.countP_append, List.countP_singleton]

end History

/-- What the fields of the server say about the events. -/
structure Accounts (s : FritzNet) : Prop where
  initialized : s.srv.initialized = true
  timers : s.srv.timers + s.events.countP FritzEvent.retires = s.events.countP FritzEvent.arms
  known : s.srv.assocIfindex = knownBy s.events
  used : s.srv.connected = true → usedBy s.events ≠ none

theorem fritzConnect_attempt {srv : CIFritzServer} (hinit : srv.initialized = true)
    (hconn : ¬ srv.connected = true) (a : Attempt) :
    (fritzConnect a.result srv).1 = a.link.isSome ∧
      (fritzConnect a.result srv).2.connected = a.link.isSome ∧
      (fritzConnect a.result srv).2.initialized = true ∧
      (fritzConnect a.result srv).2.timers = srv.timers ∧
      (fritzConnect a.result srv).2.assocIfindex = a.known.getD srv.assocIfindex := by
  unfold fritzConnect Attempt.link Attempt.known
  rw [hinit]
  simp only [Bool.not_true, Bool.false_eq_true, if_false, hconn]
  cases a.result with
  | established fd ifindex => simp
  | noSocket | refused => simp

theorem fritzConnect_connected {srv : CIFritzServer} (hinit : srv.initialized = true)
    (hconn : srv.connected = true) (r : ConnectResult) : fritzConnect r srv = (true, srv) := by
  simp [fritzConnect, hinit, hconn]

theorem fritzTryConnect_attempt {s : CIFritzServer} (hinit : s.initialized = true)
    (hconn : ¬ s.connected = true) (a : Attempt) :
    (fritzTryConnect a.result s).connected = a.link.isSome ∧
      (fritzTryConnect a.result s).initialized = true ∧
      (fritzTryConnect a.result s).timers = s.timers + (if a.link.isNone then 1 else 0) ∧
      (fritzTryConnect a.result s).assocIfindex = a.known.getD s.assocIfindex := by
  obtain ⟨hmade, hc, hi, ht, hk⟩ := fritzConnect_attempt hinit hconn a
  simp only [fritzTryConnect, hconn, hmade, Bool.false_eq_true, if_false]
  cases hl : a.link <;> rw [hl] at hc <;> simp [hc, hi, ht, hk]

theorem fritzTryReconnect_attempt {srv : CIFritzServer} (hinit : srv.initialized = true)
    (hconn : ¬ srv.connected = true) (a : Attempt) :
    (fritzTryReconnect a.result srv).connected = a.link.isSome ∧
      (fritzTryReconnect a.result srv).initialized = true ∧
      (fritzTryReconnect a.result srv).timers = srv.timers - (if a.link.isSome then 1 else 0) ∧
      (fritzTryReconnect a.result srv).assocIfindex = a.known.getD srv.assocIfindex := by
  obtain ⟨hmade, hc, hi, ht, hk⟩ := fritzConnect_attempt hinit hconn a
  simp only [fritzTryReconnect, hmade]
  cases hl : a.link <;> rw [hl] at hc <;> simp [writePipe, hc, hi, ht, hk]

theorem fritzListenSock_received (b : UInt8) (bytes : List UInt8) (srv : CIFritzServer) :
    (fritzListenSock (b :: bytes) srv).connected = srv.connected ∧
      (fritzListenSock (b :: bytes) srv).initialized = srv.initialized ∧
      (fritzListenSock (b :: bytes) srv).timers = srv.timers ∧
      (fritzListenSock (b :: bytes) srv).assocIfindex = srv.assocIfindex := by
  unfold fritzListenSock
  rw [if_pos (by simp)]
  split <;> exact ⟨rfl, rfl, rfl, rfl⟩

theorem accounts_started (a : Attempt) : Accounts (fritzStarted a) := by
  obtain ⟨hc, hi, ht, hk⟩ := fritzTryConnect_attempt (s := fritzInit) rfl (by decide) a
  refine ⟨hi, ?_, hk, fun hconn => ?_⟩
  · change (fritzTryConnect a.result fritzInit).timers + 0 =
      [FritzEvent.startup a].countP FritzEvent.arms
    rw [ht, List.countP_singleton]
    exact Nat.zero_add _
  · have hsome : a.link.isSome := hc ▸ hconn
    change (a.link.or none) ≠ none
    rw [Option.or_none]
    exact Option.ne_none_iff_isSome.2 hsome

/-- The Connected bit behind an event that the server is ready for. -/
def FritzEvent.leavesConnected (srv : CIFritzServer) : FritzEvent → Bool
  | .startup a | .tick (some a) | .netUp _ (some a) => a.link.isSome
  | .tick none | .netUp _ none | .received .. => true
  | .netDown i => srv.connected && i ≠ srv.assocIfindex
  | .peerClose => false

/-- What one step does to the server; a tick is that of an armed timer. -/
structure Effect (s : FritzNet) (e : FritzEvent) (s' : FritzNet) : Prop where
  events : s'.events = s.events ++ [e]
  initialized : s'.srv.initialized = true
  connected : s'.srv.connected = e.leavesConnected s.srv
  timers : s'.srv.timers + (if e.retires then 1 else 0) =
    s.srv.timers + (if e.arms then 1 else 0)
  known : s'.srv.assocIfindex = (e.attempt.bind Attempt.known).getD s.srv.assocIfindex
  armed : ∀ attempt, e = .tick attempt → 0 < s.srv.timers
  stayed : e.attempt = none → e.leavesConnected s.srv = true → s.srv.connected = true

theorem fritzStep_effect {s s' : FritzNet} {e : FritzEvent} (h : Accounts s)
    (hs : fritzStep s e = some s') : Effect s e s' := by
  obtain ⟨hinit, -, -, -⟩ := h
  cases e with
  | startup a => cases hs
  | tick attempt =>
    cases attempt with
    | none =>
      simp only [fritzStep, Option.ite_none_right_eq_some, Option.some.injEq] at hs
      obtain ⟨⟨hconn, hpos⟩, rfl⟩ := hs
      rw [fritzTryReconnect, fritzConnect_connected hinit hconn]
      exact ⟨rfl, hinit, hconn, Nat.sub_add_cancel hpos, rfl, fun _ _ => hpos, fun _ _ => hconn⟩
    | some a =>
      simp only [fritzStep, Option.ite_none_right_eq_some, Option.some.injEq] at hs
      obtain ⟨⟨hconn, hpos⟩, rfl⟩ := hs
      obtain ⟨hc, hi, ht, hk⟩ := fritzTryReconnect_attempt hinit hconn a
      refine ⟨rfl, hi, hc, ?_, hk, fun _ _ => hpos, nofun⟩
      simp only [ht, FritzEvent.retires, FritzEvent.arms, Bool.false_eq_true, if_false]
      by_cases hl : a.link.isSome
      · simp only [hl, if_true]
        exact Nat.sub_add_cancel hpos
      · simp [hl]
  | netUp i attempt =>
    cases attempt with
    | none =>
      simp only [fritzStep, Option.ite_none_right_eq_some, Option.some.injEq] at hs
      obtain ⟨hconn, rfl⟩ := hs
      rw [fritzHandleNetUp, fritzTryConnect, if_pos hconn]
      exact ⟨rfl, hinit, hconn, rfl, rfl, nofun, fun _ _ => hconn⟩
    | some a =>
      simp only [fritzStep, Option.ite_none_right_eq_some, Option.some.injEq] at hs
      obtain ⟨hconn, rfl⟩ := hs
      obtain ⟨hc, hi, ht, hk⟩ := fritzTryConnect_attempt hinit hconn a
      exact ⟨rfl, hi, hc, ht, hk, nofun, nofun⟩
  | netDown i =>
    simp only [fritzStep, Option.some.injEq] at hs
    subst hs
    unfold fritzHandleNetDown
    by_cases hi : i = s.srv.assocIfindex
    · rw [if_pos hi]
      refine ⟨rfl, hinit, by simp [FritzEvent.leavesConnected, hi], rfl, rfl,
        nofun, fun _ hconn => ?_⟩
      exact (Bool.and_eq_true_iff.1 hconn).1
    · rw [if_neg hi]
      refine ⟨rfl, hinit, by simp [FritzEvent.leavesConnected, hi], rfl, rfl,
        nofun, fun _ hconn => ?_⟩
      exact (Bool.and_eq_true_iff.1 hconn).1
  | received b bytes =>
    simp only [fritzStep, Option.ite_none_right_eq_some, Option.some.injEq] at hs
    obtain ⟨hconn, rfl⟩ := hs
    obtain ⟨hc, hi, ht, hk⟩ := fritzListenSock_received b bytes s.srv
    exact ⟨rfl, hi.trans hinit, hc.trans hconn, ht, hk, nofun,
      fun _ _ => hconn⟩
  | peerClose =>
    simp only [fritzStep, Option.ite_none_right_eq_some, Option.some.injEq] at hs
    obtain ⟨-, rfl⟩ := hs
    exact ⟨rfl, hinit, rfl, rfl, rfl, nofun, nofun⟩

theorem leavesConnected_attempt {e : FritzEvent} {a : Attempt} (h : e.attempt = some a)
    (srv : CIFritzServer) : e.leavesConnected srv = a.link.isSome := by
  cases e <;> cases h <;> rfl

theorem accounts_step {s s' : FritzNet} {e : FritzEvent} (h : Accounts s)
    (hs : fritzStep s e = some s') : Accounts s' := by
  have heff := fritzStep_effect h hs
  have htimers := heff.timers
  have hcounts := h.timers
  refine ⟨heff.initialized, ?_, ?_, fun hconn => ?_⟩
  · rw [heff.events, countP_append_one, countP_append_one]
    omega
  · rw [heff.events, knownBy_append, heff.known, h.known]
  · rw [heff.connected] at hconn
    rw [heff.events, usedBy_append]
    cases hattempt : e.attempt with
    | none =>
      rw [Option.bind_none, Option.none_or]
      exact h.used (heff.stayed hattempt hconn)
    | some a =>
      rw [leavesConnected_attempt hattempt] at hconn
      obtain ⟨i, hi⟩ := Option.isSome_iff_exists.1 hconn
      simp [hi]

/-- The step after which the server is not connected. -/
theorem fritzStep_ends {s s' : FritzNet} {e : FritzEvent} (h : Accounts s)
    (hs : fritzStep s e = some s') (hend : s'.srv.connected = false) :
    0 < s'.srv.timers ∨ e = .peerClose ∨ ∃ i, e = .netDown i ∧
      (s.srv.connected = true → i = s.srv.assocIfindex) := by
  have heff := fritzStep_effect h hs
  have htimers := heff.timers
  rw [heff.connected] at hend
  cases e with
  | startup a => cases hs
  | tick attempt =>
    have hpos := heff.armed attempt rfl
    cases attempt with
    | none => cases hend
    | some a =>
      have hretires : (FritzEvent.tick (some a)).retires = false := hend
      have hsame : s'.srv.timers = s.srv.timers := by
        simpa [hretires, FritzEvent.arms] using htimers
      exact Or.inl (hsame ▸ hpos)
  | netUp i attempt =>
    cases attempt with
    | none => cases hend
    | some a =>
      have harms : (FritzEvent.netUp i (some a)).arms = true := by
        rw [FritzEvent.arms, ← Option.not_isSome, show a.link.isSome = false from hend]
        rfl
      have hmore : s'.srv.timers = s.srv.timers + 1 := by
        simpa [harms, FritzEvent.retires] using htimers
      exact Or.inl (hmore ▸ Nat.succ_pos _)
  | netDown i =>
    refine Or.inr (Or.inr ⟨i, rfl, fun hconn => ?_⟩)
    simpa [FritzEvent.leavesConnected, hconn] using hend
  | received b bytes => cases hend
  | peerClose => exact Or.inr (Or.inl rfl)

/-- Where the events cover the end of the connection, the server does. -/
theorem endCovered_iff {s : FritzNet} (h : Accounts s) :
    EndCovered s.events ↔ 0 < s.srv.timers ∨ LinkDown s.events := by
  have htimers := h.timers
  rw [EndCovered]
  exact or_congr_left (by omega)

/-- An event that is neither an attempt nor about the interface leaves its link as it was. -/
theorem linkDown_append_iff {es : List FritzEvent} {e : FritzEvent} (hattempt : e.attempt = none)
    (hset : ∀ i, usedBy es = some i → e.setLink i (lastLink es i) = lastLink es i) :
    LinkDown (es ++ [e]) ↔ LinkDown es := by
  simp only [LinkDown, usedBy_append, lastLink_append, hattempt, Option.bind_none, Option.none_or]
  exact exists_congr fun i => and_congr_right fun hi => by rw [hset i hi]

theorem setLink_other {es : List FritzEvent} {i j : Int} (hused : usedBy es = some j)
    (hij : i ≠ j) (k : Int) (hk : usedBy es = some k) :
    (FritzEvent.netDown i).setLink k (lastLink es k) = lastLink es k := by
  obtain rfl := Option.some.inj (hused.symm.trans hk)
  exact if_neg hij

theorem fritzStep_repairs {s s' : FritzNet} {e : FritzEvent} (hacc : Accounts s)
    (h : BeingRepaired s) (hs : fritzStep s e = some s') (hc : EventCovered s.events e) :
    BeingRepaired s' := by
  intro hend
  have heff := fritzStep_effect hacc hs
  rw [heff.events]
  rcases fritzStep_ends hacc hs hend with hpos | rfl | ⟨i, rfl, hi⟩
  · exact Or.inl hpos
  · have hsame : s'.srv.timers = s.srv.timers := heff.timers
    rw [linkDown_append_iff rfl fun _ _ => rfl, hsame]
    exact (endCovered_iff hacc).1 hc
  · have hsame : s'.srv.timers = s.srv.timers := heff.timers
    rw [hsame]
    match hused : usedBy s.events with
    | none =>
      have hconn : s.srv.connected = false := by
        by_contra hconn
        exact hacc.used (by simpa using hconn) hused
      refine (h hconn).imp_right ?_
      rintro ⟨j, hj, -⟩
      rw [hused] at hj
      cases hj
    | some j =>
      by_cases hij : i = j
      · refine Or.inr ⟨j, by simp [FritzEvent.attempt, hused], ?_⟩
        rw [lastLink_append, FritzEvent.setLink, if_pos hij]
      · rw [linkDown_append_iff rfl (setLink_other hused hij)]
        by_cases hconn : s.srv.connected = true
        · exact (endCovered_iff hacc).1 (hc j hused ((hi hconn).trans hacc.known).symm hij)
        · exact h (by simpa using hconn)

theorem fritzStep_uncovered {s s' : FritzNet} {e : FritzEvent} (hacc : Accounts s)
    (hs : fritzStep s e = some s') (hc : ¬ EventCovered s.events e) : ¬ BeingRepaired s' := by
  have heff := fritzStep_effect hacc hs
  have hconn := heff.connected
  intro h
  rw [BeingRepaired, heff.events] at h
  cases e with
  | peerClose =>
    have hsame : s'.srv.timers = s.srv.timers := heff.timers
    rw [hsame, linkDown_append_iff rfl fun _ _ => rfl] at h
    exact hc ((endCovered_iff hacc).2 (h hconn))
  | netDown i =>
    simp only [EventCovered, not_forall] at hc
    obtain ⟨j, hused, hknown, hij, hc⟩ := hc
    have hsame : s'.srv.timers = s.srv.timers := heff.timers
    have hend : s'.srv.connected = false := by
      rw [hconn, FritzEvent.leavesConnected, hacc.known, hknown]
      simp
    rw [hsame, linkDown_append_iff rfl (setLink_other hused hij)] at h
    exact hc ((endCovered_iff hacc).2 (h hend))
  | _ => exact hc trivial

theorem beingRepaired_started (a : Attempt) : BeingRepaired (fritzStarted a) := by
  intro hend
  obtain ⟨hc, -, ht, -⟩ := fritzTryConnect_attempt (s := fritzInit) rfl (by decide) a
  have hnone : a.link.isNone := by
    rw [← Option.not_isSome, ← hc]
    exact congrArg not hend
  refine Or.inl ?_
  change 0 < (fritzTryConnect a.result fritzInit).timers
  rw [ht, if_pos hnone]
  exact Nat.succ_pos _

/-- A run after `fritz_startup` stays in repair exactly when every end of the connection is
covered by what happened before it. -/
theorem repaired_iff_ends_covered (a : Attempt) (es : List FritzEvent) :
    Always fritzStep BeingRepaired (fritzStarted a) es ↔
      Each fritzStep (fun s e => EventCovered s.events e) (fritzStarted a) es :=
  always_iff_each (fun s => Accounts s ∧ BeingRepaired s) BeingRepaired
    (fun s e => EventCovered s.events e) (fun _ h => h.2)
    (fun _ _ _ h hs hc => ⟨accounts_step h.1 hs, fritzStep_repairs h.1 h.2 hs hc⟩)
    (fun _ _ _ h hs hc => fritzStep_uncovered h.1 hs hc) es _
    ⟨accounts_started a, beingRepaired_started a⟩

/-- Connected at startup over interface 2, then closed by the peer. -/
theorem not_always_repaired : ¬ ∀ (a : Attempt) (es : List FritzEvent),
    Always fritzStep BeingRepaired (fritzStarted a) es := by
  intro h
  have hrepair := h ⟨.established 5 (some 2), 2⟩ [.peerClose] [.peerClose] (List.prefix_refl _)
    _ rfl rfl
  rcases hrepair with htimer | ⟨i, hused, hlast⟩
  · exact absurd htimer (by decide)
  · cases hused
    cases hlast

end Fritz2ci
