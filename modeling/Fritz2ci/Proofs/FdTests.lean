import Fritz2ci.Lib.Machine
import Fritz2ci.Spec.FritzListener

/-! The descriptors that the listener of the call monitor tests after `select`. The socket is
tested as it is, and it is -1 exactly while there is no connection. -/

namespace Fritz2ci

open Machine

/-- The descriptor is non-negative and was put into the set. -/
def FdTest.Waited (t : FdTest) : Prop := 0 ≤ t.fd ∧ t.fd ∈ t.fdSet

def AllWaited (s : FritzListener) : Prop := ∀ t ∈ s.tests, t.Waited

/-- The socket is open exactly while the server counts as connected. -/
structure SockFits (srv : CIFritzServer) : Prop where
  initialized : srv.initialized = true
  sock : srv.connected = true ↔ 0 ≤ srv.sock

theorem sockFits_connect {srv : CIFritzServer} (h : srv.initialized = true)
    (hs : srv.connected = true → 0 ≤ srv.sock) (r : ConnectResult) :
    SockFits (fritzConnect r srv).2 := by
  unfold fritzConnect
  cases hc : srv.connected with
  | true => simpa [h] using ⟨h, iff_of_true hc (hs hc)⟩
  | false =>
    simp only [h, Bool.not_true, Bool.false_eq_true, if_false]
    cases r with
    | noSocket => exact ⟨rfl, by simp⟩
    | refused => exact ⟨rfl, by simp⟩
    | established fd ifindex => exact ⟨rfl, by simp⟩

theorem sockFits_tryConnect {srv : CIFritzServer} (h : srv.initialized = true)
    (hs : srv.connected = true → 0 ≤ srv.sock) (r : ConnectResult) :
    SockFits (fritzTryConnect r srv) := by
  have hconnect := sockFits_connect h hs r
  unfold fritzTryConnect
  split_ifs with hc
  · exact ⟨h, iff_of_true hc (hs hc)⟩
  · dsimp only
    split_ifs
    · exact hconnect
    · exact ⟨hconnect.initialized, hconnect.sock⟩

theorem sockFits_tryReconnect {srv : CIFritzServer} (h : SockFits srv) (r : ConnectResult) :
    SockFits (fritzTryReconnect r srv) := by
  have hconnect := sockFits_connect h.initialized h.sock.1 r
  unfold fritzTryReconnect writePipe
  dsimp only
  split_ifs
  · exact ⟨hconnect.initialized, hconnect.sock⟩
  · exact hconnect

theorem sockFits_startup (r : ConnectResult) : SockFits (fritzStartup r) := by
  have h : SockFits (fritzTryConnect r fritzInit) := sockFits_tryConnect rfl (by decide) r
  exact ⟨h.initialized, h.sock⟩

theorem sockFits_netEvent {srv : CIFritzServer} (h : SockFits srv) (e : NetEvent) :
    SockFits (e.handle srv) := by
  cases e with
  | up r => exact sockFits_tryConnect h.initialized h.sock.1 r
  | down ifindex =>
    change SockFits (fritzHandleNetDown ifindex srv)
    unfold fritzHandleNetDown
    split_ifs
    · exact ⟨h.initialized, by simp⟩
    · exact h

theorem sockFits_listenSock {srv : CIFritzServer} (h : SockFits srv) (received : List UInt8) :
    SockFits (fritzListenSock received srv) := by
  unfold fritzListenSock
  split_ifs
  · cases fritzParseNotification (some (CString.ofBuffer received)) with
    | ok cmsg => exact ⟨h.initialized, h.sock⟩
    | error e => exact h
  · exact ⟨h.initialized, by simp⟩

theorem sockFits_roundSock {srv : CIFritzServer} (h : SockFits srv) (ready : List ℤ)
    (round : Round) : SockFits (roundSock ready round srv) := by
  unfold roundSock
  split_ifs
  · exact sockFits_listenSock h _
  · exact sockFits_listenSock h _
  · exact h

theorem sockFits_roundPipe {srv : CIFritzServer} (h : SockFits srv) (ready : List ℤ)
    (round : Round) (pipe : ℕ) : SockFits (roundPipe ready round pipe srv).2 := by
  unfold roundPipe fritzListenPipe
  split_ifs
  · exact ⟨h.initialized, h.sock⟩
  · exact ⟨h.initialized, h.sock⟩
  · exact h

theorem sockFits_roundNetlink {srv : CIFritzServer} (h : SockFits srv) (ready : List ℤ)
    (round : Round) (netlink : ℕ) : SockFits (roundNetlink ready round netlink srv) := by
  unfold roundNetlink
  split_ifs
  · generalize round.netlink = events
    induction events generalizing srv with
    | nil => exact h
    | cons e events ih => exact ih (sockFits_netEvent h e)
  · exact h

theorem sockFits_round {s : FritzListener} (h : SockFits s.srv) (ready : List ℤ)
    (round : Round) : SockFits (s.round ready round).srv := by
  have hsock := sockFits_roundSock h ready round
  have hpipe := sockFits_roundPipe hsock ready round s.pipe
  unfold FritzListener.round
  dsimp only
  split_ifs
  · exact hpipe
  · exact sockFits_roundNetlink hpipe ready round s.netlink

theorem fritzListenerStep_cases {s s' : FritzListener} {e : ListenerEvent}
    (hs : fritzListenerStep s e = some s') :
    (∃ r, e = .timer r ∧ s' = { s with srv := fritzTryReconnect r s.srv }) ∨
      (e = .shutdown ∧ s' = { s with srv := fritzShutdownRequest s.srv }) ∨
      ∃ round, e = .round round ∧
        ((round.ready = none ∧ s' = { s with running := false }) ∨
          ∃ ready, round.ready = some ready ∧ s' = s.round ready round) := by
  cases e with
  | timer r =>
    simp only [fritzListenerStep] at hs
    split_ifs at hs
    exact Or.inl ⟨r, rfl, (Option.some.inj hs).symm⟩
  | shutdown => exact Or.inr (Or.inl ⟨rfl, (Option.some.inj hs).symm⟩)
  | round round =>
    refine Or.inr (Or.inr ⟨round, rfl, ?_⟩)
    simp only [fritzListenerStep] at hs
    split_ifs at hs
    cases hready : round.ready with
    | none =>
      rw [hready] at hs
      exact Or.inl ⟨rfl, (Option.some.inj hs).symm⟩
    | some ready =>
      simp only [hready] at hs
      split_ifs at hs
      exact Or.inr ⟨ready, rfl, (Option.some.inj hs).symm⟩

theorem sockFits_step {s s' : FritzListener} {e : ListenerEvent} (h : SockFits s.srv)
    (hs : fritzListenerStep s e = some s') : SockFits s'.srv := by
  obtain ⟨r, -, rfl⟩ | ⟨-, rfl⟩ | ⟨round, -, ⟨-, rfl⟩ | ⟨ready, -, rfl⟩⟩ :=
    fritzListenerStep_cases hs
  · exact sockFits_tryReconnect h r
  · change SockFits (fritzShutdownRequest s.srv)
    unfold fritzShutdownRequest writePipe
    split_ifs
    · exact ⟨h.initialized, h.sock⟩
    · exact h
  · exact h
  · exact sockFits_round h ready round

/-- The pipe and the netlink socket are in every set, the socket if it is open. -/
theorem mem_fdSet {s : FritzListener} {fd : ℤ} :
    fd ∈ s.fdSet ↔ 0 ≤ fd ∧ (fd = s.srv.sock ∨ fd = s.pipe ∨ fd = s.netlink) := by
  simp [FritzListener.fdSet, netutilInitFdSet, and_comm]

theorem round_waited {s : FritzListener} (h : AllWaited s) (ready : List ℤ) (round : Round) :
    AllWaited (s.round ready round) ↔ 0 ≤ s.srv.sock := by
  have hsock : (FdTest.mk s.srv.sock s.fdSet).Waited ↔ 0 ≤ s.srv.sock := by
    simp [FdTest.Waited, mem_fdSet]
  have hpipe : (FdTest.mk s.pipe s.fdSet).Waited := by simp [FdTest.Waited, mem_fdSet]
  have hnetlink : (FdTest.mk s.netlink s.fdSet).Waited := by simp [FdTest.Waited, mem_fdSet]
  unfold FritzListener.round AllWaited
  dsimp only
  split_ifs
  · rw [List.forall_mem_append]
    simp only [List.forall_mem_cons, hsock, hpipe, and_true, List.not_mem_nil, false_implies,
      implies_true]
    exact and_iff_right h
  · rw [List.forall_mem_append]
    simp only [List.forall_mem_cons, hsock, hpipe, hnetlink, and_true, List.not_mem_nil,
      false_implies, implies_true]
    exact and_iff_right h

/-- A round that gets past `select` begins with a connection. -/
def BeginsConnected (s : FritzListener) (e : ListenerEvent) : Prop :=
  ∀ round, e = .round round → round.ready ≠ none → s.srv.connected = true

theorem step_waited {s s' : FritzListener} {e : ListenerEvent} (h : SockFits s.srv)
    (hw : AllWaited s) (hs : fritzListenerStep s e = some s') :
    AllWaited s' ↔ BeginsConnected s e := by
  obtain ⟨r, rfl, rfl⟩ | ⟨rfl, rfl⟩ | ⟨round, rfl, ⟨hnone, rfl⟩ | ⟨ready, hready, rfl⟩⟩ :=
    fritzListenerStep_cases hs
  · exact iff_of_true hw (fun round h => nomatch h)
  · exact iff_of_true hw (fun round h => nomatch h)
  · refine iff_of_true hw fun round' he hne => ?_
    cases he
    exact absurd hnone hne
  · rw [round_waited hw, ← h.sock]
    exact ⟨fun hc _ _ _ => hc, fun hb => hb round rfl (by simp [hready])⟩

/-- From `fritz_startup` on, every `FD_ISSET` of a run is on a descriptor that was waited
for exactly if every round that gets past `select` begins with a connection. -/
theorem fdTests_waited_iff (r : ConnectResult) (pipe netlink : ℕ) (es : List ListenerEvent) :
    Always fritzListenerStep AllWaited (FritzListener.start r pipe netlink) es ↔
      Each fritzListenerStep BeginsConnected (FritzListener.start r pipe netlink) es := by
  refine always_iff_each (fun s => SockFits s.srv ∧ AllWaited s) AllWaited BeginsConnected
    (fun s h => h.2) ?_ ?_ es _ ⟨sockFits_startup r, by simp [AllWaited, FritzListener.start]⟩
  · rintro s e s' ⟨hfits, hw⟩ hs hc
    exact ⟨sockFits_step hfits hs, (step_waited hfits hw hs).2 hc⟩
  · rintro s e s' ⟨hfits, hw⟩ hs hc hw'
    exact hc ((step_waited hfits hw hs).1 hw')

/-- With the first connection refused, the first message of the netlink socket makes the
listener test descriptor -1. -/
theorem refused_tests_closedSock :
    ¬ Always fritzListenerStep AllWaited (FritzListener.start .refused 4 3)
      [.round ⟨some [3], false, [], []⟩] := by
  intro h
  have hwaited := h _ (List.prefix_refl _) _ rfl
  exact absurd (hwaited ⟨-1, [4, 3]⟩ (by decide)).1 (by decide)

end Fritz2ci
