import Fritz2ci.Lib.Ranked
import Fritz2ci.Proofs.ClientList
import Fritz2ci.Spec.ServerThread

/-! The end of the server. `cisrv_disconnect` writes to the control pipe and joins the listener
thread: wherever that stands, in `wait_for_bind` or anywhere in its loop, it has at most one round
to go, whatever the Fritz thread and the rest of the process do meanwhile. -/

namespace Fritz2ci

open FdTable Machine Socket

/-- The steps of the listener thread and of `cisrv_disconnect`. -/
def ThreadEvent.own : ThreadEvent → Bool
  | .run (.broadcastSend ..) | .run .broadcastRemove => false
  | .run .otherOpen | .run (.otherClose _) => false
  | _ => true

/-- The pipe has input and nobody reads it, so a `select` on it does not time out and reports it. -/
def PipeSeen (s : ServerRun) : ThreadEvent → Prop
  | .attempt a _ => a.bind = .inUse → a.wait ≠ .timeout
  | .run (.select (some ready)) => (s.fdpipe.1 : ℤ) ∈ ready
  | _ => True

/-- The calls ahead of the listener when the pipe has input; a `ready` from before does not hold
it yet. -/
def listenerRank (pipe : ℤ) : ListenerAt → ℕ
  | .ended => 0
  | .remove ready => if pipe ∈ ready then 1 else 7
  | .dispatch ready => if pipe ∈ ready then 2 else 8
  | .add ready .. => if pipe ∈ ready then 3 else 9
  | .accept ready => if pipe ∈ ready then 4 else 10
  | .select _ => 5
  | .build => 6
  | .bind => 7

def disconnectRank : DisconnectAt → ℕ
  | .before => 6
  | .join => 5
  | .broadcast => 4
  | .remove => 3
  | .closeAll => 2
  | .closeSock => 1
  | .done => 0

def ServerRun.rank (s : ServerRun) : ℕ :=
  listenerRank s.fdpipe.1 s.listener + disconnectRank s.disconnect

structure EndInv (s : ServerRun) : Prop where
  selecting : ∀ fdSet, s.listener = .select fdSet → (s.fdpipe.1 : ℤ) ∈ fdSet
  joined : disconnectRank s.disconnect < 5 → s.listener = .ended
  emptied : disconnectRank s.disconnect < 2 → s.clientlist = []
  closed : s.disconnect = .done → s.sock = -1

theorem listenerRank_le (pipe : ℤ) (l : ListenerAt) : listenerRank pipe l ≤ 10 := by
  unfold listenerRank
  split <;> try split_ifs
  all_goals omega

theorem listenerRank_ready (pipe : ℤ) (ready : List ℤ) (newsock : ℤ) (conn : Option ℕ) :
    listenerRank pipe (.remove ready) < listenerRank pipe (.dispatch ready) ∧
      listenerRank pipe (.dispatch ready) < listenerRank pipe (.add ready newsock conn) ∧
      listenerRank pipe (.add ready newsock conn) < listenerRank pipe (.accept ready) := by
  simp only [listenerRank]
  split_ifs <;> omega

/-- The listener goes on by one call. -/
structure ListenerGoesOn (s s' : ServerRun) (e : RunEvent) : Prop where
  alive : s.listener ≠ .ended
  disconnect : s'.disconnect = s.disconnect
  fdpipe : s'.fdpipe = s.fdpipe
  sock : s'.sock = s.sock
  selecting : ∀ fdSet, s'.listener = .select fdSet → fdSet = s.fdSet
  rank : PipeSeen s (.run e) →
    listenerRank s.fdpipe.1 s'.listener < listenerRank s.fdpipe.1 s.listener

theorem listenerStep_goesOn {s s' : ServerRun} {e : RunEvent} (hs : listenerStep s e = some s') :
    ListenerGoesOn s s' e := by
  cases e with
  | bind ok =>
    cases hl : s.listener <;> simp only [listenerStep, hl, reduceCtorEq] at hs
    obtain rfl := Option.some.inj hs
    constructor <;> cases ok <;> simp [listenerRank, hl]
  | build =>
    cases hl : s.listener <;> simp only [listenerStep, hl, reduceCtorEq] at hs
    obtain rfl := Option.some.inj hs
    constructor <;> simp +contextual [listenerRank, hl]
  | select answer =>
    cases hl : s.listener <;> simp only [listenerStep, hl, reduceCtorEq] at hs
    cases answer with
    | none =>
      obtain rfl := Option.some.inj hs
      constructor <;> simp [listenerRank, hl]
    | some ready =>
      obtain ⟨-, hs⟩ := Option.ite_none_right_eq_some.1 hs
      obtain rfl := Option.some.inj hs
      constructor <;> simp +contextual [listenerRank, hl, PipeSeen]
  | accept ok =>
    cases hl : s.listener with
    | accept ready =>
      have hadd := fun newsock conn => (listenerRank_ready s.fdpipe.1 ready newsock conn).2.2
      have hskip := (listenerRank_ready s.fdpipe.1 ready 0 none).2.1.trans (hadd 0 none)
      simp only [listenerStep, hl] at hs
      split_ifs at hs <;> obtain rfl := Option.some.inj hs
      · unfold ServerRun.acceptCall
        split_ifs <;> constructor <;> simp [hl, hadd]
      · constructor <;> simp [hl, hskip]
    | _ => simp only [listenerStep, hl, reduceCtorEq] at hs
  | add =>
    cases hl : s.listener with
    | add ready newsock conn =>
      simp only [listenerStep, hl] at hs
      obtain rfl := Option.some.inj hs
      have hrank := (listenerRank_ready s.fdpipe.1 ready newsock conn).2.1
      constructor <;> simp [hl, ServerRun.cisrvAddClient, hrank]
    | _ => simp only [listenerStep, hl, reduceCtorEq] at hs
  | dispatch outcome =>
    cases hl : s.listener with
    | dispatch ready =>
      simp only [listenerStep, hl] at hs
      obtain rfl := Option.some.inj hs
      have hrank := (listenerRank_ready s.fdpipe.1 ready 0 none).1
      constructor <;> simp [hl, ServerRun.dispatchReady, hrank]
    | _ => simp only [listenerStep, hl, reduceCtorEq] at hs
  | remove =>
    cases hl : s.listener with
    | remove ready =>
      simp only [listenerStep, hl, List.contains_iff_mem] at hs
      obtain rfl := Option.some.inj hs
      by_cases hpipe : (s.fdpipe.1 : ℤ) ∈ ready
      · constructor <;> simp [hl, ServerRun.cisrvRemoveMarkedClients, ServerRun.removeClients,
          listenerRank, hpipe]
      · constructor <;> simp [hl, ServerRun.cisrvRemoveMarkedClients, ServerRun.removeClients,
          listenerRank, hpipe]
    | _ => simp only [listenerStep, hl, reduceCtorEq] at hs
  | _ => cases hs

theorem disconnectStep_next {s s' : ServerRun} {e : RunEvent} (hs : disconnectStep s e = some s') :
    s'.listener = s.listener ∧ s'.fdpipe = s.fdpipe ∧
      disconnectRank s.disconnect = disconnectRank s'.disconnect + 1 ∧
      (s.disconnect = .join → s.listener = .ended) ∧
      (s.disconnect = .closeAll → s'.clientlist = []) ∧
      (s.disconnect ≠ .closeAll → s.clientlist = [] → s'.clientlist = []) ∧
      (s.disconnect = .closeSock → s'.sock = -1) := by
  cases e <;> simp only [disconnectStep, Option.ite_none_right_eq_some, reduceCtorEq] at hs
  case join =>
    obtain ⟨⟨hd, hl⟩, hs⟩ := hs
    obtain rfl := Option.some.inj hs
    simp [hd, hl, disconnectRank]
  all_goals
    obtain ⟨hd, hs⟩ := hs
    obtain rfl := Option.some.inj hs
    simp [hd, disconnectRank, ServerRun.sendAll, ServerRun.cisrvRemoveMarkedClients,
      ServerRun.cisrvCloseAllClients, ServerRun.removeClients]
  all_goals
    intro h
    simp [h]

/-- What a step of the thread, of `cisrv_disconnect` or of somebody else does. -/
theorem threadStep_cases {s s' : ServerRun} {e : ThreadEvent} (hs : threadStep s e = some s') :
    (∃ a listens, e = .attempt a listens ∧ s.listener = .bind ∧
      ((a.pass s.fdpipe.1 = none ∧ s' = s) ∨
        ∃ rc, a.pass s.fdpipe.1 = some rc ∧ s' = { s with listener := bound rc listens })) ∨
    (∃ r, e = .run r ∧ e.own = true ∧ ListenerGoesOn s s' r) ∨
    (∃ r, e = .run r ∧ e.own = true ∧ disconnectStep s r = some s') ∨
    (e.own = false ∧ s'.listener = s.listener ∧ s'.disconnect = s.disconnect ∧
      s'.fdpipe = s.fdpipe ∧ s'.sock = s.sock ∧ (s.clientlist = [] → s'.clientlist = [])) := by
  cases e with
  | attempt a listens =>
    cases hl : s.listener <;> simp only [threadStep, hl, reduceCtorEq] at hs
    refine .inl ⟨a, listens, rfl, rfl, ?_⟩
    cases hpass : a.pass s.fdpipe.1 with
    | none =>
      rw [hpass] at hs
      exact .inl ⟨rfl, (Option.some.inj hs).symm⟩
    | some rc =>
      rw [hpass] at hs
      exact .inr ⟨rc, rfl, (Option.some.inj hs).symm⟩
  | run r =>
    cases r with
    | bind ok => cases hs
    | build | select answer | accept ok | add | dispatch outcome | remove =>
      exact .inr (.inl ⟨_, rfl, rfl, listenerStep_goesOn hs⟩)
    | disconnect | join | disconnectSend msgdata cmsg answers | disconnectRemove
    | closeAllClients | closeSock => exact .inr (.inr (.inl ⟨_, rfl, rfl, hs⟩))
    | broadcastSend msgtype msgdata cmsg answers =>
      simp only [threadStep, runStep, Option.ite_none_left_eq_some] at hs
      obtain ⟨-, hs⟩ := hs
      obtain rfl := Option.some.inj hs
      refine .inr (.inr (.inr ⟨rfl, rfl, rfl, rfl, rfl, fun h => ?_⟩))
      simp [ServerRun.sendAll, h]
    | broadcastRemove =>
      simp only [threadStep, runStep, Option.ite_none_right_eq_some] at hs
      obtain ⟨-, hs⟩ := hs
      obtain rfl := Option.some.inj hs
      refine .inr (.inr (.inr ⟨rfl, rfl, rfl, rfl, rfl, fun h => ?_⟩))
      simp [ServerRun.cisrvRemoveMarkedClients, ServerRun.removeClients, h]
    | otherOpen =>
      obtain rfl := Option.some.inj hs
      exact .inr (.inr (.inr ⟨rfl, rfl, rfl, rfl, rfl, id⟩))
    | otherClose fd =>
      simp only [threadStep, runStep, Option.ite_none_right_eq_some] at hs
      obtain ⟨-, hs⟩ := hs
      obtain rfl := Option.some.inj hs
      exact .inr (.inr (.inr ⟨rfl, rfl, rfl, rfl, rfl, id⟩))

/-- `wait_for_bind` pass by pass: one that does not return leaves the thread where it is, the one
that does sends it on with what the function returns. -/
theorem run_waitForBind {s : ServerRun} (hl : s.listener = .bind) (hsock : 0 ≤ s.sock)
    (listens : Bool) (attempts : List BindAttempt) :
    (waitForBind s.sock s.fdpipe.1 attempts = none →
      run threadStep s (attempts.map (.attempt · listens)) = some s) ∧
    ∀ a rc, waitForBind s.sock s.fdpipe.1 attempts = none →
      waitForBind s.sock s.fdpipe.1 (attempts ++ [a]) = some rc →
      run threadStep s ((attempts ++ [a]).map (.attempt · listens)) =
        some { s with listener := bound rc listens } := by
  have hnone : waitForBind s.sock s.fdpipe.1 attempts = none →
      run threadStep s (attempts.map (.attempt · listens)) = some s := by
    rw [waitForBind, if_neg (not_lt.2 hsock)]
    intro hwait
    induction attempts with
    | nil => rfl
    | cons a attempts ih =>
      rw [List.findSome?_cons] at hwait
      cases hpass : a.pass s.fdpipe.1 with
      | some rc => rw [hpass] at hwait; cases hwait
      | none =>
        rw [hpass] at hwait
        refine run_cons_eq_some.2 ⟨s, ?_, ih hwait⟩
        simp only [threadStep, hl, hpass]
  refine ⟨hnone, fun a rc hwait hret => ?_⟩
  have hfirst := hnone hwait
  rw [waitForBind, if_neg (not_lt.2 hsock)] at hwait hret
  rw [List.findSome?_append, hwait, Option.none_or, List.findSome?_singleton] at hret
  rw [List.map_append, run_append, hfirst, Option.bind_some, List.map_singleton]
  refine run_cons_eq_some.2 ⟨{ s with listener := bound rc listens }, ?_, rfl⟩
  simp only [threadStep, hl, hret]

theorem eq_of_rank {d : DisconnectAt} (d' : DisconnectAt)
    (h : disconnectRank d = disconnectRank d') : d = d' := by
  cases d <;> cases d' <;> first | rfl | cases h

theorem endInv_running {s : ServerRun} (h : Running s) : EndInv s := by
  constructor <;> simp [h.listener, h.disconnect, disconnectRank]

theorem endInv_step {s s' : ServerRun} {e : ThreadEvent} (h : EndInv s)
    (hs : threadStep s e = some s') : EndInv s' := by
  -- while the listener runs, `cisrv_disconnect` is not past the join
  have hearly : s.listener ≠ .ended → ¬ disconnectRank s.disconnect < 5 := mt h.joined
  rcases threadStep_cases hs with ⟨a, listens, -, hl, ⟨-, rfl⟩ | ⟨rc, -, rfl⟩⟩ | ⟨r, -, -, hon⟩ |
    ⟨r, -, -, hd⟩ | ⟨-, hl, hd, hpipe, hsock, hlist⟩
  · exact h
  · have hrank := hearly (by rw [hl]; simp)
    refine ⟨fun fdSet hsel => ?_, fun hlt => absurd hlt hrank, fun hlt => ?_, fun hdone => ?_⟩
    · dsimp only [bound] at hsel
      split_ifs at hsel
    · exact absurd (hlt.trans (by omega)) hrank
    · exact absurd (by rw [show s.disconnect = .done from hdone]; decide) hrank
  · have hrank := hearly hon.alive
    refine ⟨fun fdSet hsel => ?_, fun hlt => ?_, fun hlt => ?_, fun hdone => ?_⟩
    · rw [hon.selecting fdSet hsel, hon.fdpipe, ServerRun.fdSet]
      simp
    · exact absurd (hon.disconnect ▸ hlt) hrank
    · rw [hon.disconnect] at hlt
      exact absurd (hlt.trans (by omega)) hrank
    · exact absurd (by rw [← hon.disconnect, hdone]; decide) hrank
  · obtain ⟨hl, hpipe, hrank, hjoin, hall, hkeep, hclosed⟩ := disconnectStep_next hd
    refine ⟨fun fdSet hsel => ?_, fun hlt => ?_, fun hlt => ?_, fun hdone => ?_⟩
    · rw [hpipe]
      exact h.selecting fdSet (hl ▸ hsel)
    · rw [hl]
      rcases (show disconnectRank s.disconnect = 5 ∨ disconnectRank s.disconnect < 5 by omega) with
        heq | hlt'
      · exact hjoin (eq_of_rank .join heq)
      · exact h.joined hlt'
    · rcases (show disconnectRank s.disconnect = 2 ∨ disconnectRank s.disconnect < 2 by omega) with
        heq | hlt'
      · exact hall (eq_of_rank .closeAll heq)
      · refine hkeep (fun heq => ?_) (h.emptied hlt')
        rw [heq] at hlt'
        exact absurd hlt' (by decide)
    · rw [hdone] at hrank
      exact hclosed (eq_of_rank .closeSock hrank)
  · exact ⟨fun fdSet hsel => hpipe ▸ h.selecting fdSet (hl ▸ hsel),
      fun hlt => hl ▸ h.joined (hd ▸ hlt), fun hlt => hlist (h.emptied (hd ▸ hlt)),
      fun hdone => hsock ▸ h.closed (hd ▸ hdone)⟩

/-- `cisrv_disconnect` has written to the pipe. -/
def Asked (s : ServerRun) : Prop := EndInv s ∧ disconnectRank s.disconnect ≤ 5

theorem pass_of_seen {s : ServerRun} {a : BindAttempt} {listens : Bool}
    (hseen : PipeSeen s (.attempt a listens)) : a.pass s.fdpipe.1 ≠ none := by
  obtain ⟨bind, wait⟩ := a
  cases bind with
  | ok => exact Option.some_ne_none _
  | failed => exact Option.some_ne_none _
  | inUse =>
    have hwait := hseen rfl
    cases wait with
    | timeout => exact absurd rfl hwait
    | _ => simp [BindAttempt.pass]

theorem listenerRank_bound (pipe rc : ℤ) (listens : Bool) :
    listenerRank pipe (bound rc listens) < listenerRank pipe .bind := by
  unfold bound
  split_ifs <;> simp [listenerRank]

theorem lowers : Lowers Asked PipeSeen ThreadEvent.own ServerRun.rank threadStep where
  keeps s e s' h hs := by
    refine ⟨endInv_step h.1 hs, ?_⟩
    rcases threadStep_cases hs with ⟨a, listens, -, -, ⟨-, rfl⟩ | ⟨rc, -, rfl⟩⟩ | ⟨r, -, -, hon⟩ |
      ⟨r, -, -, hd⟩ | ⟨-, -, hd, -⟩
    · exact h.2
    · exact h.2
    · rw [hon.disconnect]
      exact h.2
    · have hrank := (disconnectStep_next hd).2.2.1
      have := h.2
      omega
    · rw [hd]
      exact h.2
  pays s e s' h hs hseen hown := by
    unfold ServerRun.rank
    rcases threadStep_cases hs with ⟨a, listens, rfl, hl, ⟨hpass, -⟩ | ⟨rc, -, rfl⟩⟩ |
      ⟨r, rfl, -, hon⟩ | ⟨r, -, -, hd⟩ | ⟨hother, -⟩
    · exact absurd hpass (pass_of_seen hseen)
    · have hlt := listenerRank_bound s.fdpipe.1 rc listens
      rw [← hl] at hlt
      exact Nat.add_lt_add_right hlt _
    · rw [hon.disconnect, hon.fdpipe]
      exact Nat.add_lt_add_right (hon.rank hseen) _
    · obtain ⟨hl, hpipe, hrank, -⟩ := disconnectStep_next hd
      rw [hl, hpipe]
      omega
    · rw [hown] at hother
      cases hother
  spares s e s' h hs hown := by
    rcases threadStep_cases hs with ⟨a, listens, rfl, -⟩ | ⟨r, -, htrue, -⟩ | ⟨r, -, htrue, -⟩ |
      ⟨-, hl, hd, hpipe, -⟩
    · cases hown
    · rw [hown] at htrue
      cases htrue
    · rw [hown] at htrue
      cases htrue
    · unfold ServerRun.rank
      rw [hl, hd, hpipe]

/-- Nobody waits for something that does not come. -/
theorem asked_moves (s : ServerRun) (h : Asked s) (hpos : 0 < s.rank) :
    ∃ e, ThreadEvent.own e = true ∧ PipeSeen s e ∧ (threadStep s e).isSome = true := by
  cases hl : s.listener with
  | bind =>
    refine ⟨.attempt ⟨.inUse, .input⟩ true, rfl, fun _ => by simp, ?_⟩
    simp [threadStep, hl, BindAttempt.pass]
  | build => exact ⟨.run .build, rfl, trivial, by simp [threadStep, runStep, listenerStep, hl]⟩
  | select fdSet =>
    refine ⟨.run (.select (some [(s.fdpipe.1 : ℤ)])), rfl, List.mem_singleton.2 rfl, ?_⟩
    simp [threadStep, runStep, listenerStep, hl, h.1.selecting fdSet hl]
  | accept ready =>
    refine ⟨.run (.accept true), rfl, trivial, ?_⟩
    simp only [threadStep, runStep, listenerStep, hl]
    split_ifs <;> rfl
  | add ready newsock conn =>
    exact ⟨.run .add, rfl, trivial, by simp [threadStep, runStep, listenerStep, hl]⟩
  | dispatch ready =>
    refine ⟨.run (.dispatch fun _ => ⟨false, none⟩), rfl, trivial, ?_⟩
    simp [threadStep, runStep, listenerStep, hl]
  | remove ready =>
    exact ⟨.run .remove, rfl, trivial, by simp [threadStep, runStep, listenerStep, hl]⟩
  | ended =>
    cases hd : s.disconnect with
    | before => exact absurd h.2 (by simp [hd, disconnectRank])
    | join =>
      exact ⟨.run .join, rfl, trivial, by simp [threadStep, runStep, disconnectStep, hd, hl]⟩
    | broadcast =>
      refine ⟨.run (.disconnectSend [] [] fun _ _ => .error), rfl, trivial, ?_⟩
      simp [threadStep, runStep, disconnectStep, hd]
    | remove =>
      refine ⟨.run .disconnectRemove, rfl, trivial, ?_⟩
      simp [threadStep, runStep, disconnectStep, hd]
    | closeAll =>
      exact ⟨.run .closeAllClients, rfl, trivial, by simp [threadStep, runStep, disconnectStep, hd]⟩
    | closeSock =>
      exact ⟨.run .closeSock, rfl, trivial, by simp [threadStep, runStep, disconnectStep, hd]⟩
    | done =>
      rw [ServerRun.rank, hl, hd] at hpos
      exact absurd hpos (lt_irrefl 0)

theorem rank_le {s : ServerRun} (h : Asked s) : s.rank ≤ 15 := by
  have := listenerRank_le s.fdpipe.1 s.listener
  have := h.2
  unfold ServerRun.rank
  omega

theorem done_of_rank {s : ServerRun} (h : s.rank = 0) : s.disconnect = .done :=
  eq_of_rank .done (Nat.eq_zero_of_add_eq_zero_left h)

theorem asked_of_run {s t : ServerRun} (h : Running s) {pre : List ThreadEvent}
    (hpre : run threadStep s pre = some t) (hasked : t.disconnect ≠ .before) : Asked t := by
  refine ⟨run_preserves (fun _ _ _ => endInv_step) pre s t (endInv_running h) hpre, ?_⟩
  cases hd : t.disconnect with
  | before => exact absurd hd hasked
  | _ => simp [disconnectRank]

/-- Once the pipe is written to, the thread and `cisrv_disconnect` make at most 15 calls more and
can always get to the end, which leaves no client and no socket behind. -/
theorem server_ends {s t u : ServerRun} (h : Running s) {pre es : List ThreadEvent}
    (hpre : run threadStep s pre = some t) (hasked : t.disconnect ≠ .before)
    (hrun : run threadStep t es = some u) (hseen : Each threadStep PipeSeen t es) :
    es.countP ThreadEvent.own ≤ 15 ∧
    (∃ more v, (∀ e ∈ more, ThreadEvent.own e = true) ∧ run threadStep u more = some v ∧
      Each threadStep PipeSeen u more ∧ v.disconnect = .done) ∧
    (u.disconnect = .done → u.listener = .ended ∧ u.clientlist = [] ∧ u.sock = -1) := by
  have ht := asked_of_run h hpre hasked
  have hu := run_preserves lowers.keeps es t u ht hrun
  refine ⟨?_, ?_, fun hdone => ?_⟩
  · have hle := countP_own_le lowers es ht hrun hseen
    have := rank_le ht
    omega
  · obtain ⟨more, v, hall, hmore, heach, hzero⟩ := exists_own_run lowers asked_moves hu
    exact ⟨more, v, hall, hmore, heach, done_of_rank hzero⟩
  · have hrank : disconnectRank u.disconnect = 0 := by rw [hdone]; rfl
    exact ⟨hu.1.joined (by omega), hu.1.emptied (by omega), hu.1.closed hdone⟩

/-- The address is taken for ten seconds, then the program is told to stop; a broadcast ends
meanwhile. -/
def stoppedEarly : List ThreadEvent :=
  [.run (.broadcastSend .message [] [] fun _ _ => .error), .attempt ⟨.inUse, .input⟩ true,
    .run .broadcastRemove, .run .join]

theorem stoppedEarly_ends : ∃ u, run threadStep { startedServer with disconnect := .join }
    stoppedEarly = some u ∧
    stoppedEarly.countP ThreadEvent.own ≤ 15 ∧
    (∃ more v, (∀ e ∈ more, ThreadEvent.own e = true) ∧ run threadStep u more = some v ∧
      Each threadStep PipeSeen u more ∧ v.disconnect = .done) ∧
    (u.disconnect = .done → u.listener = .ended ∧ u.clientlist = [] ∧ u.sock = -1) := by
  have hpre : run threadStep startedServer [.attempt ⟨.inUse, .timeout⟩ true, .run .disconnect] =
      some { startedServer with disconnect := .join } := rfl
  refine ⟨_, rfl, server_ends startedServer_running hpre (by decide) rfl ?_⟩
  refine each_cons.2 fun s₁ h₁ => ⟨trivial, each_cons.2 fun s₂ h₂ => ⟨fun _ => by decide, ?_⟩⟩
  exact each_cons.2 fun s₃ h₃ => ⟨trivial, each_cons.2 fun s₄ h₄ => ⟨trivial, each_nil⟩⟩

end Fritz2ci
