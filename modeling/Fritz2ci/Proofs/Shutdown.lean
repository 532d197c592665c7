import Fritz2ci.Lib.Machine
import Fritz2ci.Spec.Main
import Fritz2ci.Spec.Shutdown

/-! What the listener uses outlives it when `fritz_shutdown` joins it at its first test of the
Listening bit and no RING meets the released area codes in front of the join. -/

namespace Fritz2ci

open Machine CString

def NoLateUse (s : ShutdownRun) : Prop := s.late = []

/-- The area codes are released with no RING in front of its lookup, no RING is received behind
that, and `fritz_shutdown` first tests the Listening bit when the thread has set it. -/
def ReleasedInTime (s : ShutdownRun) : ShutdownEvent → Prop
  | .main =>
    (s.main = .freeAreaCodes → s.listener ≠ .handling .getAreaCode) ∧
      (s.main = .fritzShutdown false → s.srv.listening = true ∨ s.listener = .ended)
  | .received bytes => .areaCodes ∈ s.released → receivedStart bytes ≠ .handling .getAreaCode
  | _ => True

/-- How far the main thread is with the first join. -/
inductive JoinStage
  | before | released | joined
  deriving DecidableEq

def ShutdownAt.stage : ShutdownAt → JoinStage
  | .freeAreaCodes => .before
  | .fritzShutdown false | .join false => .released
  | _ => .joined

structure ShutdownInv (s : ShutdownRun) : Prop where
  initialized : s.srv.initialized = true
  late : s.late = []
  before : s.main.stage = .before → s.released = [] ∧ s.pipeOpen = true
  released : s.main.stage = .released →
    s.released = [.areaCodes] ∧ s.listener ≠ .handling .getAreaCode ∧ s.pipeOpen = true
  joined : s.main.stage = .joined → s.listener = .ended
  listening : s.srv.listening = false → s.listener = .created ∨ s.listener = .ended

/-- A step of the listener keeps the bit Initialized, and clears the Listening bit only when the
thread ends. -/
structure KeepsBits (srv srv' : CIFritzServer) : Prop where
  initialized : srv'.initialized = srv.initialized
  listening : srv'.listening = srv.listening

theorem fritzConnect_keepsBits (r : ConnectResult) (srv : CIFritzServer) :
    KeepsBits srv (fritzConnect r srv).2 := by
  unfold fritzConnect
  split_ifs
  · exact ⟨rfl, rfl⟩
  · exact ⟨rfl, rfl⟩
  · cases r <;> exact ⟨rfl, rfl⟩

theorem fritzTryConnect_keepsBits (r : ConnectResult) (srv : CIFritzServer) :
    KeepsBits srv (fritzTryConnect r srv) := by
  have h := fritzConnect_keepsBits r srv
  unfold fritzTryConnect
  split
  · exact ⟨rfl, rfl⟩
  · dsimp only
    split_ifs
    · exact h
    · exact ⟨h.initialized, h.listening⟩

theorem fritzTryReconnect_keepsBits (r : ConnectResult) (srv : CIFritzServer) :
    KeepsBits srv (fritzTryReconnect r srv) := by
  have h := fritzConnect_keepsBits r srv
  unfold fritzTryReconnect
  dsimp only
  split_ifs
  · exact ⟨h.initialized, h.listening⟩
  · exact h

theorem fritzHandleNetDown_keepsBits (ifindex : Int) (srv : CIFritzServer) :
    KeepsBits srv (fritzHandleNetDown ifindex srv) := by
  unfold fritzHandleNetDown
  split_ifs <;> exact ⟨rfl, rfl⟩

theorem fritzListenSock_keepsBits (bytes : List UInt8) (srv : CIFritzServer) :
    KeepsBits srv (fritzListenSock bytes srv) := by
  unfold fritzListenSock
  split_ifs
  · split <;> exact ⟨rfl, rfl⟩
  · exact ⟨rfl, rfl⟩

theorem shutdownInv_listener {s : ShutdownRun} (h : ShutdownInv s) {srv : CIFritzServer}
    {l : FritzListenerAt} (hsrv : KeepsBits s.srv srv)
    (hring : s.main.stage = .released → l ≠ .handling .getAreaCode)
    (hended : s.main.stage = .joined → l = .ended)
    (hlistening : s.srv.listening = false → l = .created ∨ l = .ended) :
    ShutdownInv { s with srv := srv, listener := l } where
  initialized := hsrv.initialized.trans h.initialized
  late := h.late
  before := h.before
  released := fun hstage => ⟨(h.released hstage).1, hring hstage, (h.released hstage).2.2⟩
  joined := hended
  listening := fun hl => hlistening (hsrv.listening.symm.trans hl)

theorem shutdownInv_callback {s : ShutdownRun} (h : ShutdownInv s) {srv : CIFritzServer}
    (hsrv : KeepsBits s.srv srv) : ShutdownInv { s with srv := srv } :=
  shutdownInv_listener h hsrv (fun hstage => (h.released hstage).2.1) h.joined h.listening

theorem running_of_select {s : ShutdownRun} (h : ShutdownInv s) {l : FritzListenerAt}
    (hl : s.listener = l) (hcreated : l ≠ .created) (hended : l ≠ .ended) :
    s.main.stage ≠ .joined ∧ s.srv.listening = true := by
  subst hl
  refine ⟨fun hstage => hended (h.joined hstage), ?_⟩
  by_contra hbit
  exact (h.listening (Bool.eq_false_iff.2 hbit)).elim hcreated hended

theorem uses_areaCodes {call : HandlerCall} (h : call.uses = .areaCodes) : call = .getAreaCode := by
  cases call <;> simp [HandlerCall.uses] at h ⊢

theorem next_ne_getAreaCode (call : HandlerCall) (ok : Bool) :
    call.next ok ≠ some .getAreaCode := by
  cases call <;> cases ok <;> simp [HandlerCall.next, HandlerCall.stored]
  all_goals split_ifs <;> simp

/-- What the calls of the handler answer for this message. -/
def callAnswer (env : Surroundings) (p : Program) (cmsg : CIFritzCallMsg) : HandlerCall → Bool
  | .lookupGetCallerData => (env.lookup (filled env cmsg).set).isSome
  | .queueIsEmpty _ => p.dbDataTodo.isEmpty
  | .addData _ => env.accepts
  | _ => true

/-- Up to `n` calls of the handler in a row. -/
def callsFrom (answer : HandlerCall → Bool) : ℕ → FritzListenerAt → List HandlerCall
  | n + 1, .handling call =>
    call :: callsFrom answer n (match call.next (answer call) with
      | some call' => .handling call'
      | none => .select)
  | _, _ => []

def HandlerCall.broadcasts : HandlerCall → Option CIServerMsg
  | .broadcastMessage => some .message
  | .broadcastUpdate => some .update
  | .broadcastComplete => some .complete
  | .broadcastCall => some .call
  | _ => none

def HandlerCall.isPush : HandlerCall → Bool
  | .pushTail _ => true
  | _ => false

/-- The calls of the listener are those of `handle_fritz_message`: they make its broadcasts and
queue what it queues. -/
theorem callsFrom_handleFritzMessage (env : Surroundings) (p : Program) (cmsg : CIFritzCallMsg) :
    (handleFritzMessage env p cmsg).broadcasts.map Prod.fst = p.broadcasts.map Prod.fst ++
        (callsFrom (callAnswer env p cmsg) 9 (callbackStart cmsg)).filterMap
          HandlerCall.broadcasts ∧
      (handleFritzMessage env p cmsg).dbDataTodo.length = p.dbDataTodo.length +
        (callsFrom (callAnswer env p cmsg) 9 (callbackStart cmsg)).countP HandlerCall.isPush := by
  unfold handleFritzMessage callbackStart
  cases cmsg.msgtype with
  | ring =>
    cases hfound : (env.lookup (filled env cmsg).set).isSome <;>
      cases hempty : p.dbDataTodo.isEmpty <;> cases haccepts : env.accepts <;>
        simp [callsFrom, callAnswer, HandlerCall.next, HandlerCall.stored, Program.broadcast,
          storeOrQueue, dbhandlerAddData, *] <;> decide
  | call =>
    simp only [callsFrom, HandlerCall.next, Program.broadcast, List.map_append]
    exact ⟨rfl, rfl⟩
  | connect => simp [callsFrom]
  | disconnect => simp [callsFrom]

theorem shutdownInv_call {s : ShutdownRun} (h : ShutdownInv s) {call : HandlerCall}
    (hl : s.listener = .handling call) (ok : Bool) : ShutdownInv (s.makeCall call ok) := by
  obtain ⟨hstage, hlistening⟩ := running_of_select h hl (by simp) (by simp)
  have hheld : call.uses ∉ s.released := by
    cases hmain : s.main.stage with
    | before => simp [(h.before hmain).1]
    | released =>
      obtain ⟨hreleased, hring, -⟩ := h.released hmain
      rw [hreleased, List.mem_singleton]
      exact fun huses => hring (hl.trans (by rw [uses_areaCodes huses]))
    | joined => exact absurd hmain hstage
  unfold ShutdownRun.makeCall
  rw [if_neg hheld]
  refine shutdownInv_listener h ⟨rfl, rfl⟩ (fun _ hring => ?_) (fun hj => absurd hj hstage)
    (fun hbit => by simp [hlistening] at hbit)
  split at hring
  · next call' hnext =>
    cases hring
    exact next_ne_getAreaCode call ok hnext
  · cases hring

/-- A step of `_shutdown` behind the join. -/
theorem shutdownInv_joined {s : ShutdownRun} (h : ShutdownInv s) (hl : s.listener = .ended)
    {srv : CIFritzServer} (hsrv : srv.initialized = s.srv.initialized) {pipeOpen : Bool}
    {at' : ShutdownAt} (hat : at'.stage = .joined) (released : List Resource) :
    ShutdownInv { s with
      srv := srv, pipeOpen := pipeOpen, main := at', released := released } where
  initialized := hsrv.trans h.initialized
  late := h.late
  before := fun hstage => by simp [hat] at hstage
  released := fun hstage => by simp [hat] at hstage
  joined := fun _ => hl
  listening := fun _ => Or.inr hl

theorem shutdownInv_behindJoin {s : ShutdownRun} (h : ShutdownInv s) {at₀ at' : ShutdownAt}
    (hmain : s.main = at₀) (hstage : at₀.stage = .joined) {srv : CIFritzServer}
    (hsrv : srv.initialized = s.srv.initialized) {pipeOpen : Bool} (hat : at'.stage = .joined)
    (released : List Resource) :
    ShutdownInv { s with
      srv := srv, pipeOpen := pipeOpen, main := at', released := released } :=
  shutdownInv_joined h (h.joined (hmain ▸ hstage)) hsrv hat released

theorem fritzShutdownRequest_keepsBits (srv : CIFritzServer) :
    KeepsBits srv (fritzShutdownRequest srv) := by
  unfold fritzShutdownRequest
  split_ifs <;> exact ⟨rfl, rfl⟩

theorem fritzShutdownSock_keepsBits (srv : CIFritzServer) :
    KeepsBits srv (fritzShutdownSock srv) := by
  unfold fritzShutdownSock
  split_ifs <;> exact ⟨rfl, rfl⟩

theorem shutdownInv_main {s s' : ShutdownRun} (h : ShutdownInv s) (hs : shutdownMain s = some s')
    (hc : ReleasedInTime s .main) : ShutdownInv s' := by
  unfold shutdownMain at hs
  split at hs
  · next hmain =>
    cases hs
    obtain ⟨hreleased, hopen⟩ := h.before (by rw [hmain]; rfl)
    exact ⟨h.initialized, h.late, nofun, fun _ => ⟨by simp [hreleased], hc.1 hmain, hopen⟩, nofun,
      h.listening⟩
  · next again hmain =>
    cases hs
    have hbits := fritzShutdownRequest_keepsBits s.srv
    cases again with
    | true =>
      refine shutdownInv_behindJoin h hmain rfl hbits.initialized ?_ _
      split_ifs <;> rfl
    | false =>
      have hstage := h.released (by rw [hmain]; rfl)
      by_cases hbit : s.srv.listening = true
      · rw [if_pos hbit]
        exact ⟨hbits.initialized.trans h.initialized, h.late, nofun, fun _ => hstage, nofun,
          fun hl => h.listening (hbits.listening.symm.trans hl)⟩
      · rw [if_neg hbit]
        exact shutdownInv_joined h ((hc.2 hmain).resolve_left hbit) hbits.initialized rfl _
  · next again hmain =>
    split_ifs at hs with hl
    cases hs
    refine shutdownInv_joined h hl ?_ ?_ _ <;> rfl
  · next again hmain =>
    cases hs
    refine shutdownInv_behindJoin h hmain rfl (fritzShutdownSock_keepsBits s.srv).initialized ?_ _
    split_ifs <;> rfl
  · next hmain => cases hs; exact shutdownInv_behindJoin h hmain rfl rfl rfl _
  · next hmain => cases hs; exact shutdownInv_behindJoin h hmain rfl rfl rfl _
  · next hmain =>
    cases hs
    refine shutdownInv_behindJoin h hmain rfl rfl ?_ _
    split_ifs <;> rfl
  · next hmain => cases hs; exact shutdownInv_behindJoin h hmain rfl rfl rfl _
  · next hmain => cases hs; exact shutdownInv_behindJoin h hmain rfl rfl rfl _
  · next hmain => cases hs; exact shutdownInv_behindJoin h hmain rfl rfl rfl _
  · next hmain => cases hs; exact shutdownInv_behindJoin h hmain rfl rfl rfl _
  · next hmain => cases hs; exact shutdownInv_behindJoin h hmain rfl rfl rfl _
  · cases hs

theorem shutdownInv_step {s s' : ShutdownRun} {e : ShutdownEvent} (h : ShutdownInv s)
    (hs : shutdownStep s e = some s') (hc : ReleasedInTime s e) : ShutdownInv s' := by
  cases e with
  | main => exact shutdownInv_main h hs hc
  | timer r =>
    simp only [shutdownStep, Option.ite_none_right_eq_some, Option.some.injEq] at hs
    obtain ⟨⟨hmain, -⟩, rfl⟩ := hs
    exact shutdownInv_callback h (fritzTryReconnect_keepsBits r s.srv)
  | listen =>
    simp only [shutdownStep, Option.ite_none_right_eq_some, Option.some.injEq] at hs
    obtain ⟨hl, rfl⟩ := hs
    refine ⟨h.initialized, h.late, h.before,
      fun hstage => ⟨(h.released hstage).1, nofun, (h.released hstage).2.2⟩,
      fun hstage => ?_, nofun⟩
    exact absurd (hl.symm.trans (h.joined hstage)) nofun
  | received bytes =>
    simp only [shutdownStep, Option.ite_none_right_eq_some, Option.some.injEq] at hs
    obtain ⟨⟨hl, -⟩, rfl⟩ := hs
    obtain ⟨hstage, hlistening⟩ := running_of_select h hl nofun nofun
    refine shutdownInv_listener h (fritzListenSock_keepsBits bytes s.srv) (fun hr => hc ?_)
      (fun hj => absurd hj hstage) (fun hbit => by simp [hlistening] at hbit)
    rw [(h.released hr).1]
    exact List.mem_singleton_self _
  | netUp r =>
    simp only [shutdownStep, Option.ite_none_right_eq_some, Option.some.injEq] at hs
    obtain ⟨-, rfl⟩ := hs
    exact shutdownInv_callback h (fritzTryConnect_keepsBits r s.srv)
  | netDown ifindex =>
    simp only [shutdownStep, Option.ite_none_right_eq_some, Option.some.injEq] at hs
    obtain ⟨-, rfl⟩ := hs
    exact shutdownInv_callback h (fritzHandleNetDown_keepsBits ifindex s.srv)
  | readPipe =>
    simp only [shutdownStep, Option.ite_none_right_eq_some, Option.some.injEq] at hs
    obtain ⟨⟨hl, -⟩, rfl⟩ := hs
    obtain ⟨hstage, hlistening⟩ := running_of_select h hl nofun nofun
    refine ⟨?_, h.late, h.before, fun hr => ⟨(h.released hr).1, ?_, (h.released hr).2.2⟩,
      fun hj => absurd hj hstage, fun hbit => ?_⟩
    · unfold fritzListenPipe
      dsimp only
      split_ifs <;> exact h.initialized
    · dsimp only
      split_ifs <;> nofun
    · unfold fritzListenPipe at hbit
      dsimp only at hbit ⊢
      split_ifs at hbit ⊢
      · exact Or.inr rfl
      · simp [hlistening] at hbit
  | selectFails =>
    simp only [shutdownStep, Option.ite_none_right_eq_some, Option.some.injEq] at hs
    obtain ⟨hl, rfl⟩ := hs
    exact shutdownInv_listener h ⟨rfl, rfl⟩ (fun _ => nofun) (fun _ => rfl) (fun _ => Or.inr rfl)
  | call ok =>
    simp only [shutdownStep] at hs
    split at hs
    · next call hl => cases hs; exact shutdownInv_call h hl ok
    · cases hs

theorem shutdownInv_started (r : ConnectResult) : ShutdownInv (ShutdownRun.started r) := by
  have hbits := fritzTryConnect_keepsBits r fritzInit
  exact ⟨hbits.initialized, rfl, fun _ => ⟨rfl, rfl⟩, nofun, nofun, fun _ => Or.inl rfl⟩

/-- A RING that has not looked up its area code yet does so behind `ci_free_area_codes`. -/
theorem ring_breaks {s : ShutdownRun} (hl : s.listener = .handling .getAreaCode)
    (hreleased : .areaCodes ∈ s.released) :
    CanReach shutdownStep (fun v => ¬ NoLateUse v) s := by
  have hs : shutdownStep s (.call true) = some (s.makeCall .getAreaCode true) := by
    simp only [shutdownStep, hl]
  refine canReach_of_step hs (canReach_self ?_)
  simp [NoLateUse, ShutdownRun.makeCall, HandlerCall.uses, hreleased]

theorem netUp_connected {srv : CIFritzServer} (h : srv.initialized = true) (fd : ℕ)
    (ifindex : Option Int) :
    (fritzHandleNetUp (.established fd ifindex) srv).connected = true := by
  by_cases hbit : srv.connected = true
  · simp [fritzHandleNetUp, fritzTryConnect, hbit]
  · simp [fritzHandleNetUp, fritzTryConnect, fritzConnect, hbit, h]

def ringAtShutdown : List UInt8 := ascii "21.01.13 18:04:05;RING;0;0301234567;4930123;SIP0;\n"

/-- A thread that starts behind the first test of the Listening bit is not joined. -/
theorem unjoined_breaks {s : ShutdownRun} (hinit : s.srv.initialized = true)
    (hl : s.listener = .created) (hopen : s.pipeOpen = true) (hreleased : .areaCodes ∈ s.released) :
    CanReach shutdownStep (fun v => ¬ NoLateUse v) s := by
  refine canReach_of_step (e := .listen) (if_pos hl) ?_
  refine canReach_of_step (e := .netUp (.established 5 none)) (if_pos ⟨rfl, hopen⟩) ?_
  have hring : receivedStart ringAtShutdown = .handling .getAreaCode := by decide
  exact canReach_of_step (e := .received ringAtShutdown)
    (if_pos ⟨rfl, netUp_connected (by exact hinit) 5 none, by decide⟩) (ring_breaks hring hreleased)

theorem late_reachable {s s' : ShutdownRun} {e : ShutdownEvent} (h : ShutdownInv s)
    (hs : shutdownStep s e = some s') (hc : ¬ ReleasedInTime s e) :
    CanReach shutdownStep (fun v => ¬ NoLateUse v) s' := by
  cases e with
  | main =>
    rcases not_and_or.1 hc with hring | htest
    · obtain ⟨hmain, hl⟩ := Classical.not_imp.1 hring
      simp only [shutdownStep, shutdownMain, hmain, Option.some.injEq] at hs
      subst hs
      exact ring_breaks (not_not.1 hl) List.mem_cons_self
    · obtain ⟨hmain, hbit⟩ := Classical.not_imp.1 htest
      obtain ⟨hbit, hrunning⟩ := not_or.1 hbit
      obtain ⟨hreleased, -, hopen⟩ := h.released (by rw [hmain]; rfl)
      have hl := (h.listening (Bool.eq_false_iff.2 hbit)).resolve_right hrunning
      simp only [shutdownStep, shutdownMain, hmain, Option.some.injEq] at hs
      subst hs
      exact unjoined_breaks ((fritzShutdownRequest_keepsBits s.srv).initialized.trans h.initialized)
        hl hopen (by rw [hreleased]; exact List.mem_singleton_self _)
  | received bytes =>
    obtain ⟨hreleased, hring⟩ := Classical.not_imp.1 hc
    simp only [shutdownStep, Option.ite_none_right_eq_some, Option.some.injEq] at hs
    obtain ⟨-, rfl⟩ := hs
    exact ring_breaks (not_not.1 hring) hreleased
  | timer r => exact absurd trivial hc
  | listen => exact absurd trivial hc
  | netUp r => exact absurd trivial hc
  | netDown ifindex => exact absurd trivial hc
  | readPipe => exact absurd trivial hc
  | selectFails => exact absurd trivial hc
  | call ok => exact absurd trivial hc

/-- Nothing is used behind its release in a run that is in time throughout; from the first step
that is not, some continuation uses the released area codes. -/
theorem noLateUse_while_inTime (r : ConnectResult) (es : List ShutdownEvent) :
    (Each shutdownStep ReleasedInTime (ShutdownRun.started r) es →
      Always shutdownStep NoLateUse (ShutdownRun.started r) es) ∧
    (¬ Each shutdownStep ReleasedInTime (ShutdownRun.started r) es → ∃ pre e s s',
      pre ++ [e] <+: es ∧ run shutdownStep (ShutdownRun.started r) pre = some s ∧
        shutdownStep s e = some s' ∧ Each shutdownStep ReleasedInTime (ShutdownRun.started r) pre ∧
          CanReach shutdownStep (fun v => ¬ NoLateUse v) s') :=
  always_or_breaks ShutdownInv NoLateUse ReleasedInTime (fun _ h => h.late)
    (fun _ _ _ h hs hc => shutdownInv_step h hs hc)
    (fun _ _ _ h hs hc => late_reachable h hs hc) es _ (shutdownInv_started r)

/-- A call comes in between `ci_free_area_codes` and the join. -/
theorem ring_behind_freeAreaCodes : ¬ ∀ (r : ConnectResult) (es : List ShutdownEvent),
    Always shutdownStep NoLateUse (ShutdownRun.started r) es := by
  intro h
  have hlate := h (.established 5 (some 2)) [.listen, .main, .received ringAtShutdown, .call true] _
    (List.prefix_refl _) _ rfl
  cases hlate

end Fritz2ci
