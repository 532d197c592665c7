import Fritz2ci.Spec.Daemon

/-! At most one daemon, while each start ends before the next one looks at the pid file and
the daemon runs under the name it was started by. A name too long for `/proc/<pid>/comm` is
never found there. -/

namespace Fritz2ci

open CString Decimal Machine

/-- No check while a start is under way, each under the name of the daemon that is running;
the pid file of a running daemon gets written. -/
def Orderly (s : Daemons) : DaemonEvent → Prop
  | .check argv0 _ => s.passed = [] ∧ s.forked = [] ∧
      ∀ pid ∈ s.running, (s.proc pid).bind (processName pid) = some argv0
  | .writePid pid opened => pid ∈ s.running → opened = true
  | _ => True

/-- At most one daemon, and the pid file names it once its start is through. -/
def OneDaemon (s : Daemons) : Prop :=
  s.running.length ≤ 1 ∧ (s.forked = [] → ∀ pid ∈ s.running, s.pidfile = some (printNat pid))

structure DaemonInv (s : Daemons) : Prop where
  alone : s.running.length ≤ 1
  oneStart : s.passed.length + s.forked.length ≤ 1
  passed : s.passed ≠ [] → s.running = []
  forked : s.forked ≠ [] → s.running ⊆ s.forked
  named : s.forked = [] → ∀ pid ∈ s.running, s.pidfile = some (printNat pid)
  alive : ∀ pid ∈ s.running, 0 < pid ∧ pid < 2 ^ 31 ∧ (s.proc pid).isSome

theorem fgetsLine_printNat {n : ℕ} (h : n < 2 ^ 31) (garbage : CStr) :
    fgetsLine (printNat n) garbage = printNat n := by
  have hnot : ∀ sep, isDigit sep = false → sep ∉ printNat n := fun sep hsep hm => by
    rw [isDigit_printNat n sep hm] at hsep
    cases hsep
  have hlen := printNat_length_le (by decide : 0 < 10) (h.trans (by decide : 2 ^ 31 < 10 ^ 10))
  rw [fgetsLine, fgetsAll, fgetsFrom_last [] (hnot 10 rfl) (by rw [List.length_nil]; omega)
    (Or.inr (printNat_ne_nil n))]
  exact ofBuffer_eq_self (hnot 0 rfl)

theorem check_finds {pid : ℕ} (hpos : 0 < pid) (hlt : pid < 2 ^ 31) {argv0 : CStr}
    {proc : ℕ → Option (List UInt8)} (hname : (proc pid).bind (processName pid) = some argv0)
    (garbage : CStr) : checkProcessRunning argv0 (some (printNat pid)) proc garbage = true := by
  obtain ⟨name, hproc, hcomm⟩ := Option.bind_eq_some_iff.1 hname
  have hpid : strtoul (fgetsLine (printNat pid) garbage) = pid := by
    rw [fgetsLine_printNat hlt, strtoul_printNat (by omega)]
  simp only [checkProcessRunning, hpid, if_neg (Nat.ne_of_gt hpos), hproc, hcomm, decide_true]

theorem running_of_passes {s : Daemons} (h : DaemonInv s) {argv0 garbage : CStr}
    (hc : Orderly s (.check argv0 garbage))
    (hpass : ¬ (s.pidfile.isSome && checkProcessRunning argv0 s.pidfile s.proc garbage)) :
    s.running = [] := by
  obtain ⟨-, hforked, hname⟩ := hc
  refine List.eq_nil_iff_forall_not_mem.2 fun pid hpid => hpass ?_
  obtain ⟨hpos, hlt, -⟩ := h.alive pid hpid
  rw [h.named hforked pid hpid, check_finds hpos hlt (hname pid hpid)]
  rfl

theorem not_mem_erase_self {l : List ℕ} (hl : l.length ≤ 1) (a : ℕ) : a ∉ l.erase a := by
  cases l with
  | nil => simp
  | cons b l =>
    obtain rfl : l = [] := List.length_eq_zero_iff.1 (by simp only [List.length_cons] at hl; omega)
    rw [List.erase_cons]
    split_ifs with h
    · simp
    · simpa using fun hab : a = b => h (by simp [hab])

theorem alive_update {s : Daemons} (h : DaemonInv s) {pid : ℕ} {running : List ℕ}
    (hsub : running ⊆ s.running) (hpid : pid ∉ running) (comm : Option (List UInt8)) :
    ∀ p ∈ running, 0 < p ∧ p < 2 ^ 31 ∧ (Function.update s.proc pid comm p).isSome := by
  intro p hp
  obtain ⟨hpos, hlt, hsome⟩ := h.alive p (hsub hp)
  have hne : p ≠ pid := fun heq => hpid (by rwa [← heq])
  refine ⟨hpos, hlt, ?_⟩
  rw [Function.update_of_ne hne]
  exact hsome

theorem daemonInv_step {s : Daemons} {e : DaemonEvent} {s' : Daemons} (h : DaemonInv s)
    (hs : daemonStep s e = some s') (hc : Orderly s e) : DaemonInv s' := by
  have hone := h.oneStart
  cases e with
  | check argv0 garbage =>
    rw [daemonStep] at hs
    split_ifs at hs with hpass
    · cases hs
      exact h
    · cases hs
      have hrun := running_of_passes h hc hpass
      obtain ⟨hp, hf, -⟩ := hc
      exact ⟨h.alone, by simp [hp, hf], fun _ => hrun, h.forked, h.named, h.alive⟩
  | fork i pid comm =>
    rw [daemonStep] at hs
    split_ifs at hs with hfork
    cases hs
    obtain ⟨hi, hpos, hlt, -⟩ := hfork
    have hrun : s.running = [] := h.passed (List.ne_nil_of_length_pos (by omega))
    have hf : s.forked = [] := List.length_eq_zero_iff.1 (by omega)
    have hp : s.passed.eraseIdx i = [] := by
      refine List.length_eq_zero_iff.1 ?_
      rw [List.length_eraseIdx_of_lt hi]
      omega
    refine ⟨by simp [hrun], by simp [hp, hf], by simp [hp], by simp [hrun, hf], by simp, ?_⟩
    intro p hmem
    obtain rfl : p = pid := by simpa [hrun] using hmem
    exact ⟨hpos, hlt, by simp⟩
  | forkFails i =>
    rw [daemonStep] at hs
    split_ifs at hs with hi
    cases hs
    have hp := List.length_eraseIdx_le s.passed i
    refine ⟨h.alone, by simpa using by omega, fun _ => ?_, h.forked, h.named, h.alive⟩
    exact h.passed (List.ne_nil_of_length_pos (by omega))
  | writePid pid opened =>
    rw [daemonStep] at hs
    have hmem : pid ∈ s.forked := by
      by_contra hmem
      rw [if_neg hmem] at hs
      cases hs
    rw [if_pos hmem] at hs
    cases hs
    have hf : s.forked = [pid] := by
      have hlen := List.length_pos_of_mem hmem
      obtain ⟨q, hq⟩ := List.length_eq_one_iff.1 (show s.forked.length = 1 by omega)
      rw [hq, List.mem_singleton] at hmem
      rw [hq, hmem]
    have hsub := h.forked (by rw [hf]; simp)
    rw [hf] at hsub
    rw [hf, List.length_singleton] at hone
    refine ⟨h.alone, by simp [hf]; omega, h.passed, by simp [hf], fun _ p hp => ?_, h.alive⟩
    obtain rfl : p = pid := by simpa using hsub hp
    simp only [hc hp, if_true]
  | stop pid =>
    rw [daemonStep] at hs
    split_ifs at hs with hmem
    cases hs
    have hrun : s.running.erase pid = [] := by
      refine List.length_eq_zero_iff.1 ?_
      have := h.alone
      have := List.length_pos_of_mem hmem
      rw [List.length_erase_of_mem hmem]
      omega
    exact ⟨by simp [hrun], hone, fun _ => hrun, by simp [hrun], by simp [hrun], by simp [hrun]⟩
  | exit pid =>
    rw [daemonStep] at hs
    split_ifs at hs with hsome
    cases hs
    have hsub : s.running.erase pid ⊆ s.running := List.erase_subset
    refine ⟨(List.erase_sublist.length_le).trans h.alone, hone, fun hp => ?_,
      fun hf => List.Subset.trans hsub (h.forked hf), fun hf p hp => h.named hf p (hsub hp),
      alive_update h hsub (not_mem_erase_self h.alone pid) none⟩
    simp [h.passed hp]
  | spawn pid comm =>
    rw [daemonStep] at hs
    split_ifs at hs with hfresh
    cases hs
    refine ⟨h.alone, hone, h.passed, h.forked, h.named,
      alive_update h (List.Subset.refl _) (fun hmem => ?_) (some comm)⟩
    have := (h.alive pid hmem).2.2
    rw [hfresh.2.2] at this
    cases this

/-- From any file and any processes on, at most one daemon runs in every state that orderly
starts, stops and crashes lead to, and the pid file names it. -/
theorem oneDaemon_while_orderly (es : List DaemonEvent) {s : Daemons} (hs : NoDaemons s)
    (h : Each daemonStep Orderly s es) : Always daemonStep OneDaemon s es := by
  refine always_of_each DaemonInv OneDaemon Orderly (fun t ht => ⟨ht.alone, ht.named⟩)
    (fun t e t' ht hstep hc => daemonInv_step ht hstep hc) es s ?_ h
  exact ⟨by simp [hs.running], by simp [hs.passed, hs.forked], fun _ => hs.running,
    fun hf => absurd hs.forked hf, by simp [hs.running], by simp [hs.running]⟩

/-- A file that a crash has left, and no process. -/
def crashed : Daemons := ⟨some (ascii "7"), fun _ => none, [], [], []⟩

theorem second_start_refused :
    Always daemonStep OneDaemon crashed
      [.check (ascii "fritz2ci") [], .fork 0 8 (ascii "fritz2ci\n"), .writePid 8 true,
        .check (ascii "fritz2ci") []] := by
  refine oneDaemon_while_orderly _ ⟨rfl, rfl, rfl⟩ ?_
  refine (each_cons_of_step rfl).2 ⟨⟨rfl, rfl, by simp [crashed]⟩, ?_⟩
  refine (each_cons_of_step rfl).2 ⟨trivial, (each_cons_of_step rfl).2 ⟨fun _ => rfl, ?_⟩⟩
  refine (each_cons_of_step rfl).2 ⟨⟨rfl, rfl, ?_⟩, each_nil⟩
  intro pid hpid
  obtain rfl : pid = 8 := by simpa [crashed] using hpid
  decide

/-- What the kernel puts into `/proc/<pid>/comm`: at most 15 bytes and a newline. -/
def KernelComm (comm : List UInt8) : Prop := ∃ name, comm = name ++ [10] ∧ name.length ≤ 15

theorem processName_length {comm : List UInt8} (h : KernelComm comm) {pid : ℕ} {name : CStr}
    (hname : processName pid comm = some name) : name.length ≤ 15 := by
  obtain ⟨full, rfl, hfull⟩ := h
  obtain ⟨line, rest, hsplit, hline⟩ := List.eq_append_cons_of_mem
    (show (10 : UInt8) ∈ full ++ [10] by simp)
  have hlen : line.length ≤ 15 := by
    have := congrArg List.length hsplit
    simp only [List.length_append, List.length_cons, List.length_nil] at this
    omega
  have hfgets : ∀ old, fgetsLine (full ++ [10]) old = ofBuffer (line ++ [10]) := fun old => by
    rw [fgetsLine, fgetsAll, hsplit, fgetsFrom_line [] rest hline (by
      rw [List.length_nil]; omega)]
    rfl
  rw [processName, hfgets] at hname
  by_cases hnul : 0 ∈ line
  · -- the string ends in front of the newline
    have hshort : (ofBuffer (line ++ [10])).length ≤ 15 := by
      obtain ⟨a, b, rfl, ha⟩ := List.eq_append_cons_of_mem hnul
      have hbuf : ofBuffer (a ++ 0 :: b ++ [10]) = a := by
        rw [List.append_assoc]
        exact ofBuffer_nul ha _
      rw [hbuf]
      rw [List.length_append] at hlen
      omega
    split_ifs at hname with hempty hlast
    · obtain rfl := Option.some.inj hname
      rw [List.length_dropLast]
      omega
    · obtain rfl := Option.some.inj hname
      exact hshort
  · have hbuf : ofBuffer (line ++ [10]) = line ++ [10] :=
      ofBuffer_eq_self (by simpa using hnul)
    rw [hbuf] at hname
    simp at hname
    rw [← hname]
    exact hlen

/-- A longer name is found nowhere. -/
theorem check_of_long {argv0 : CStr} (hlong : 16 ≤ argv0.length)
    {proc : ℕ → Option (List UInt8)} (hproc : ∀ pid comm, proc pid = some comm → KernelComm comm)
    (pidfile : Option (List UInt8)) (garbage : CStr) :
    checkProcessRunning argv0 pidfile proc garbage = false := by
  unfold checkProcessRunning
  cases pidfile with
  | none => rfl
  | some content =>
    dsimp only
    split_ifs
    · rfl
    · cases hpid : proc (strtoul (fgetsLine content garbage)) with
      | none => rfl
      | some comm =>
        refine decide_eq_false fun hname => ?_
        have := processName_length (hproc _ _ hpid) hname
        omega

/-- What one start after the other does. -/
def startAll (argv0 garbage : CStr) (children : List (ℕ × List UInt8)) : List DaemonEvent :=
  children.flatMap fun c =>
    [.check argv0 garbage, .fork 0 c.1 c.2, .writePid c.1 true]

/-- Behind a start that went through. -/
def Daemons.started (s : Daemons) (c : ℕ × List UInt8) : Daemons where
  pidfile := some (printNat c.1)
  proc := Function.update s.proc c.1 (some c.2)
  running := s.running ++ [c.1]
  passed := []
  forked := []

theorem kernelComm_started {s : Daemons}
    (hproc : ∀ pid comm, s.proc pid = some comm → KernelComm comm) {c : ℕ × List UInt8}
    (hcomm : KernelComm c.2) :
    ∀ pid comm, (s.started c).proc pid = some comm → KernelComm comm := by
  intro pid comm hpid
  change Function.update s.proc c.1 (some c.2) pid = some comm at hpid
  by_cases heq : pid = c.1
  · rw [heq, Function.update_self] at hpid
    rwa [← Option.some.inj hpid]
  · rw [Function.update_of_ne heq] at hpid
    exact hproc pid comm hpid

/-- Started by a name of 16 bytes or more, as many daemons run beside each other as are
started, even one after the other. -/
theorem long_name_unguarded {argv0 : CStr} (hlong : 16 ≤ argv0.length) (garbage : CStr)
    {s : Daemons} (hpassed : s.passed = []) (hforked : s.forked = [])
    (hproc : ∀ pid comm, s.proc pid = some comm → KernelComm comm)
    {children : List (ℕ × List UInt8)} (hnew : (children.map Prod.fst).Nodup)
    (hchildren : ∀ c ∈ children, FreshPid s c.1 ∧ KernelComm c.2) :
    ∃ t, run daemonStep s (startAll argv0 garbage children) = some t ∧
      t.running = s.running ++ children.map Prod.fst := by
  induction children generalizing s with
  | nil => exact ⟨s, rfl, (List.append_nil _).symm⟩
  | cons c children ih =>
    obtain ⟨hfresh, hcomm⟩ := hchildren c (by simp)
    rw [List.map_cons, List.nodup_cons] at hnew
    have hcheck := check_of_long hlong hproc s.pidfile garbage
    have hstart : run daemonStep s [.check argv0 garbage, .fork 0 c.1 c.2, .writePid c.1 true] =
        some (s.started c) := by
      have hfresh' : ∀ passed forked, FreshPid { s with passed, forked } c.1 := fun _ _ => hfresh
      simp [run, daemonStep, hcheck, hpassed, hforked, hfresh', Daemons.started]
    have hrest : ∀ d ∈ children, FreshPid (s.started c) d.1 ∧ KernelComm d.2 := by
      intro d hd
      obtain ⟨⟨hpos, hlt, hnone⟩, hcomm'⟩ := hchildren d (by simp [hd])
      have hne : d.1 ≠ c.1 := fun heq => hnew.1 (by rw [← heq]; exact List.mem_map_of_mem hd)
      exact ⟨⟨hpos, hlt, (Function.update_of_ne hne _ _).trans hnone⟩, hcomm'⟩
    obtain ⟨t, ht, hrunning⟩ := ih rfl rfl (kernelComm_started hproc hcomm) hnew.2 hrest
    refine ⟨t, ?_, by rw [hrunning]; simp [Daemons.started]⟩
    rw [startAll, List.flatMap_cons, run_append, hstart]
    exact ht

theorem two_by_path :
    ∃ t, run daemonStep ⟨none, fun _ => none, [], [], []⟩ (startAll (ascii "/usr/bin/fritz2ci") []
        [(8, ascii "fritz2ci\n"), (9, ascii "fritz2ci\n")]) = some t ∧ t.running = [8, 9] :=
  long_name_unguarded (by decide) [] rfl rfl (fun _ _ h => absurd h (by simp)) (by decide) fun c hc => by
    refine ⟨?_, ascii "fritz2ci", ?_, by decide⟩
    · rcases List.mem_pair.1 hc with rfl | rfl <;> exact ⟨by decide, by decide, rfl⟩
    · rcases List.mem_pair.1 hc with rfl | rfl <;> decide

end Fritz2ci
