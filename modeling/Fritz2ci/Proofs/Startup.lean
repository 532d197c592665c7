import Fritz2ci.Spec.Startup

/-! `_shutdown` closes what the start-up opened, once each, unless `fritz_init` failed, whose
descriptors are 0 and not -1 then, or `cidb_connect` closed the handle it leaves in `_cidb_db`. -/

namespace Fritz2ci

open FdTable Ledger

/-- What `_shutdown` closed is what the program opened, no descriptor twice, and no handle of
SQLite is left open, released twice or used behind its release. -/
def CleanedUp (s : Startup) : Prop := OwnCloses s.fds.process ∧ Settled s.dbs.sqlite.log

def FritzInitialized (r : StartupResults) : Prop :=
  r.host = true ∧ r.netlinkSocket = true ∧ r.netlinkBind = true ∧ r.fritzPipe = true

/-- `cidb_connect` is reached and fails with a handle in its hands. -/
def CacheHandleClosed (r : StartupResults) : Prop :=
  r.serverSocket = true ∧ r.curl = true ∧ r.cacheOpen ≠ .noMemory ∧
    ¬ (r.cacheOpen = .ok ∧ r.cacheTable = true ∧ r.cachePrepare = true)

/-- The descriptors of `_cifritz_server` that are still to be closed. -/
def FritzHandles.fds (f : FritzHandles) : List ℤ :=
  (if f.connected then [f.sock] else []) ++ [f.fdpipe.1, f.fdpipe.2, f.netlink]

def ServerHandles.fds (v : ServerHandles) : List ℤ :=
  match v.state with
  | .uninitialized => []
  | .running => [v.fdpipe.1, v.fdpipe.2, v.sock]
  | _ => [v.sock]

/-- The program owns what its two servers still have to close, and more besides. -/
def OwnsFds (d : Descriptors) : Prop := Owns d.process (d.fritz.fds ++ d.server.fds)

theorem owns_netutilCloseFd {p : Process} {fd : ℤ} {live : List ℤ} (h : Owns p (fd :: live)) :
    Owns (netutilCloseFd fd p).2 live := by
  rw [netutilCloseFd, if_pos (h.own fd List.mem_cons_self).1]
  exact owns_closeFd h

theorem owns_netutilCleanup {p : Process} {fd : ℤ} {live : List ℤ} (h : Owns p (fd :: live)) :
    Owns (netutilCleanup fd p) live := by
  rw [netutilCleanup, if_pos (h.own fd List.mem_cons_self).1]
  exact owns_closeFd h

theorem owns_openPipe {p : Process} {live : List ℤ} (h : Owns p live) :
    Owns (openPipe p).2 ((openPipe p).1.1 :: (openPipe p).1.2 :: live) :=
  owns_perm (owns_openFd (owns_openFd h)) (List.Perm.swap _ _ _)

theorem owns_readFile {p : Process} {live : List ℤ} (h : Owns p live) (ok : Bool) :
    Owns (readFile ok p).2 live := by
  cases ok with
  | true => exact owns_closeFd (owns_openFd h)
  | false => exact h

theorem openFd_ne (p : Process) : p.openFd.1 ≠ -1 := by
  have h : (0 : ℤ) ≤ p.openFd.1 := Int.natCast_nonneg _
  omega

theorem fritzInit_ok_iff (r : StartupResults) (d : Descriptors) :
    (d.fritzInit r).1 = true ↔ FritzInitialized r := by
  unfold FritzInitialized Descriptors.fritzInit netutilInitNetlink
  cases r.host <;> cases r.netlinkSocket <;> cases r.netlinkBind <;> cases r.fritzPipe <;>
    simp [openFd_ne]

theorem ownsFds_fritzInit {r : StartupResults} {d : Descriptors} (hr : FritzInitialized r)
    (h : Owns d.process []) : Owns (d.fritzInit r).2.process (d.fritzInit r).2.fritz.fds := by
  obtain ⟨hhost, hsocket, hbind, hpipe⟩ := hr
  simp only [Descriptors.fritzInit, netutilInitNetlink, hhost, hsocket, hbind, hpipe, openFd_ne,
    Bool.not_true, Bool.false_eq_true, if_true, if_false]
  exact owns_openPipe (owns_openFd h)

/-- The pipe of a failed `fritz_init` reads 0 and 0. -/
theorem fritzInit_failed {r : StartupResults} (d : Descriptors) (hr : ¬ FritzInitialized r) :
    (d.fritzInit r).2.fritz.fdpipe = (0, 0) ∧ (d.fritzInit r).2.fritz.connected = false ∧
      (d.fritzInit r).2.fritz.listening = false ∧ (d.fritzInit r).2.fritz.thread = false ∧
        (d.fritzInit r).2.server = d.server := by
  have hfailed : (d.fritzInit r).1 ≠ true := fun h => hr ((fritzInit_ok_iff r d).1 h)
  unfold Descriptors.fritzInit at hfailed ⊢
  dsimp only at hfailed ⊢
  split_ifs at hfailed ⊢
  · exact ⟨rfl, rfl, rfl, rfl, rfl⟩
  · exact ⟨rfl, rfl, rfl, rfl, rfl⟩
  · exact ⟨rfl, rfl, rfl, rfl, rfl⟩
  · exact absurd rfl hfailed

theorem fds_listenerStarts (d : Descriptors) (starts : Bool) :
    (d.listenerStarts starts).process = d.process ∧
      (d.listenerStarts starts).fritz.fds = d.fritz.fds ∧
        (d.listenerStarts starts).server = d.server := by
  unfold Descriptors.listenerStarts
  split_ifs <;> exact ⟨rfl, rfl, rfl⟩

theorem owns_fritzShutdown {d : Descriptors} {live : List ℤ}
    (h : Owns d.process (d.fritz.fds ++ live)) :
    Owns d.fritzShutdown.process (d.fritzShutdown.fritz.fds ++ live) := by
  unfold Descriptors.fritzShutdown
  by_cases hconnected : d.fritz.connected = true
  · rw [FritzHandles.fds, if_pos hconnected] at h
    split <;> simp only [hconnected, if_true] <;> exact owns_netutilCloseFd h
  · rw [FritzHandles.fds, if_neg hconnected] at h
    split <;> simpa [FritzHandles.fds, hconnected] using h

theorem server_fritzShutdown (d : Descriptors) : d.fritzShutdown.server = d.server := by
  unfold Descriptors.fritzShutdown
  dsimp only
  split_ifs <;> rfl

theorem owns_cisrvDisconnect {d : Descriptors} (h : OwnsFds d) :
    Owns d.cisrvDisconnect.process d.cisrvDisconnect.fritz.fds := by
  have hperm := owns_perm h List.perm_append_comm
  unfold Descriptors.cisrvDisconnect
  cases hstate : d.server.state with
  | running =>
    simp only [ServerHandles.fds, hstate] at hperm
    exact owns_closeFd (owns_closeFd (owns_closeFd hperm))
  | uninitialized =>
    simp only [ServerHandles.fds, hstate] at hperm
    simpa [hstate] using hperm
  | initialized =>
    simp only [ServerHandles.fds, hstate] at hperm
    simpa [hstate] using owns_closeFd hperm
  | connected =>
    simp only [ServerHandles.fds, hstate] at hperm
    simpa [hstate] using owns_closeFd hperm

theorem owns_fritzCleanup {d : Descriptors} (h : Owns d.process d.fritz.fds) :
    Owns d.fritzCleanup.process [] := by
  have hshut : ∀ d : Descriptors, Owns d.process d.fritz.fds →
      Owns (netutilCleanup d.fritz.netlink
        (netutilCloseFd d.fritz.fdpipe.2 (netutilCloseFd d.fritz.fdpipe.1 d.process).2).2) [] :=
    fun d h => owns_netutilCleanup (owns_netutilCloseFd (owns_netutilCloseFd
      (owns_sublist h (List.sublist_append_right _ _))))
  unfold Descriptors.fritzCleanup
  split_ifs
  · rw [← List.append_nil d.fritz.fds] at h
    have hclosed := owns_fritzShutdown h
    rw [List.append_nil] at hclosed
    exact hshut _ hclosed
  · exact hshut _ h

theorem ownCloses_shutdown {r : StartupResults} {s : Startup} (h : OwnsFds s.fds) :
    OwnCloses (s.shutdown r).fds.process := by
  obtain ⟨hprocess, hfds, hserver⟩ := fds_listenerStarts s.fds r.listening
  have hstart : Owns (s.fds.listenerStarts r.listening).process
      ((s.fds.listenerStarts r.listening).fritz.fds ++ s.fds.server.fds) := by
    rw [hprocess, hfds]
    exact h
  have hshut : OwnsFds (s.fds.listenerStarts r.listening).fritzShutdown := by
    rw [OwnsFds, server_fritzShutdown, hserver]
    exact owns_fritzShutdown hstart
  have hclosed := owns_cisrvDisconnect hshut
  set d := (s.fds.listenerStarts r.listening).fritzShutdown.cisrvDisconnect
  obtain ⟨hprocess', hfds', -⟩ := fds_listenerStarts d r.listeningAgain
  have hagain : Owns (d.listenerStarts r.listeningAgain).process
      (d.listenerStarts r.listeningAgain).fritz.fds := by
    rw [hprocess', hfds']
    exact hclosed
  exact owns_ownCloses (owns_fritzCleanup hagain)

theorem ownsFds_cisrvInit {r : StartupResults} {d : Descriptors}
    (h : Owns d.process d.fritz.fds) : OwnsFds (d.cisrvInit r).2 := by
  unfold Descriptors.cisrvInit
  split_ifs
  · exact owns_perm (owns_openFd h) (List.perm_append_singleton _ _).symm
  · simpa [OwnsFds, ServerHandles.fds] using h

theorem ownsFds_readFile {d : Descriptors} (h : OwnsFds d) (ok : Bool) :
    OwnsFds { d with process := (readFile ok d.process).2 } :=
  owns_readFile h ok

theorem ownsFds_cisrvRun {r : StartupResults} {d : Descriptors} (h : OwnsFds d)
    (hstate : d.server.state = .initialized) : OwnsFds (d.cisrvRun r).2 := by
  have hsock : d.server.fds = [d.server.sock] := by rw [ServerHandles.fds, hstate]
  rw [OwnsFds, hsock] at h
  have hpiped := owns_openPipe h
  have hrun : ¬ (d.server.state = .uninitialized ∨ d.server.state = .running) := by simp [hstate]
  rw [Descriptors.cisrvRun, if_neg hrun]
  dsimp only
  split_ifs with hpipe hthread
  · rw [OwnsFds, hsock]
    exact h
  · exact owns_perm hpiped (List.perm_append_comm_assoc [_, _] _ _)
  · rw [OwnsFds, ServerHandles.fds, hstate]
    exact owns_sublist hpiped (by simp)

theorem ownsFds_fritzConnect {r : StartupResults} {d : Descriptors} (h : OwnsFds d) :
    OwnsFds (d.fritzConnect r) := by
  unfold Descriptors.fritzConnect
  split_ifs with hinit hconnected hsocket hconnect
  · exact h
  · exact h
  · simpa [OwnsFds, FritzHandles.fds, hconnected] using h
  all_goals
    rw [OwnsFds, FritzHandles.fds, if_neg hconnected] at h
    have hopened := owns_openFd h
  · simpa [OwnsFds, FritzHandles.fds] using hopened
  · simpa [OwnsFds, FritzHandles.fds, hconnected] using owns_netutilCloseFd hopened

theorem ownsFds_fritzStartup {r : StartupResults} {d : Descriptors} (h : OwnsFds d) :
    OwnsFds (d.fritzStartup r).2 :=
  ownsFds_fritzConnect h

theorem none_mem_closes_twice (p : Process) :
    none ∈ (netutilCloseFd 0 (netutilCloseFd 0 p).2).2.closes := by
  simp [netutilCloseFd, Process.closeFd]

theorem mem_closes_netutilCleanup {p : Process} {c : Option Owner} (h : c ∈ p.closes) (fd : ℤ) :
    c ∈ (netutilCleanup fd p).closes := by
  unfold netutilCleanup Process.closeFd
  split_ifs
  · exact List.mem_append_left _ h
  · exact h

/-- The two ends of the pipe are 0 behind a failed `fritz_init`, and 0 is closed twice. -/
theorem not_ownCloses_fritzInit {r : StartupResults} (inherited : List Bool) {dbs : Databases}
    (hr : ¬ FritzInitialized r) : ¬ OwnCloses (Startup.shutdown r
      ⟨((Descriptors.start inherited).fritzInit r).2, dbs⟩).fds.process := by
  obtain ⟨hpipe, hconnected, hlistening, hthread, hserver⟩ :=
    fritzInit_failed (Descriptors.start inherited) hr
  set d := ((Descriptors.start inherited).fritzInit r).2
  have hlisten : ∀ starts, d.listenerStarts starts = d := fun starts => by
    simp [Descriptors.listenerStarts, hthread]
  have hshut : d.fritzShutdown = d := by
    simp [Descriptors.fritzShutdown, hlistening, hconnected]
  have hdisconnect : d.cisrvDisconnect = d := by
    simp [Descriptors.cisrvDisconnect, hserver, Descriptors.start]
  simp only [Startup.shutdown, hlisten, hshut, hdisconnect]
  intro hown
  have hnone : none ∈ d.fritzCleanup.process.closes := by
    simp only [Descriptors.fritzCleanup, hconnected, hlistening, hpipe, Bool.or_false,
      Bool.false_eq_true, if_false]
    exact mem_closes_netutilCleanup (none_mem_closes_twice d.process) _
  obtain ⟨k, hk⟩ := hown.1 none hnone
  cases hk

/-- The handles that are open, and numbers for those to come. -/
structure Sqlite.Live (q : Sqlite) (live : List ℕ) : Prop where
  holds : Holds q.log live
  fresh : ∀ h, .opened h ∈ q.log → h < q.handles

theorem live_perm {q : Sqlite} {live live' : List ℕ} (h : q.Live live) (hp : live.Perm live') :
    q.Live live' := ⟨holds_perm h.holds hp, h.fresh⟩

theorem live_new {q : Sqlite} {live : List ℕ} (h : q.Live live) :
    q.new.2.Live (q.new.1 :: live) := by
  refine ⟨holds_opened h.holds fun hm => Nat.lt_irrefl _ (h.fresh _ hm), fun x hx => ?_⟩
  rcases List.mem_append.1 hx with hx | hx
  · exact Nat.lt_succ_of_lt (h.fresh x hx)
  · obtain rfl : x = q.handles := by simpa using hx
    exact Nat.lt_succ_self _

theorem live_use {q : Sqlite} {o : Option ℕ} {live : List ℕ} (h : q.Live live)
    (ho : ∀ x ∈ o, x ∈ live) : (q.use o).Live live := by
  cases o with
  | none => exact h
  | some x =>
    exact ⟨holds_used h.holds (ho x rfl), fun y hy => h.fresh y (by simpa [Sqlite.use] using hy)⟩

theorem live_release {q : Sqlite} {o : Option ℕ} {live : List ℕ} (h : q.Live (o.toList ++ live)) :
    (q.release o).Live live := by
  cases o with
  | none => exact h
  | some x =>
    exact ⟨holds_released h.holds, fun y hy => h.fresh y (by simpa [Sqlite.release] using hy)⟩

theorem live_openDb {q : Sqlite} {live : List ℕ} (h : q.Live live) (answer : SqliteOpen) :
    (q.openDb answer).2.Live ((q.openDb answer).1.toList ++ live) := by
  cases answer with
  | noMemory => exact h
  | ok => exact live_new h
  | error => exact live_new h

theorem live_prepare {q : Sqlite} {db : Option ℕ} {live : List ℕ} (h : q.Live live)
    (hdb : ∀ x ∈ db, x ∈ live) (ok : Bool) :
    (q.prepare db ok).2.Live ((q.prepare db ok).1.toList ++ live) := by
  cases ok with
  | true => exact live_new (live_use h hdb)
  | false => exact live_use h hdb

/-- The handles of `dbhandler.c` and of `lookup.c`. -/
def Databases.live (d : Databases) : List ℕ :=
  d.dbhandlerStmts ++
    (d.dbhandlerDb.toList ++ (d.cidbFindNumberCacheStmt.toList ++ d.cidbDb.toList))

theorem live_releaseAll {stmts : List ℕ} {q : Sqlite} {live : List ℕ}
    (h : q.Live (stmts ++ live)) :
    (stmts.foldl (fun q stmt => q.release (some stmt)) q).Live live := by
  induction stmts generalizing q with
  | nil => exact h
  | cons stmt stmts ih => exact ih (live_release (o := some stmt) h)

theorem live_dbhandlerCleanup {d : Databases} (h : d.sqlite.Live d.live) :
    d.dbhandlerCleanup.sqlite.Live d.dbhandlerCleanup.live :=
  live_release (live_releaseAll h)

theorem live_cidbCleanup {d : Databases} (h : d.sqlite.Live d.live)
    (hstmts : d.dbhandlerStmts = []) (hdb : d.dbhandlerDb = none) :
    d.cidbCleanup.sqlite.Live [] := by
  rw [Databases.live, hstmts, hdb] at h
  exact live_release (live_release (by simpa using h))

theorem live_prepareStmts {answer : ℕ → Bool} {ids : List ℕ} {d : Databases}
    (h : d.sqlite.Live d.live) :
    (d.prepareStmts answer ids).2.sqlite.Live (d.prepareStmts answer ids).2.live := by
  induction ids generalizing d with
  | nil => exact h
  | cons id ids ih =>
    have hdb : ∀ x ∈ d.dbhandlerDb, x ∈ d.live := fun x hx => by
      simp [Databases.live, Option.mem_def.1 hx]
    have hprepared := live_prepare h hdb (answer id)
    unfold Databases.prepareStmts
    dsimp only
    have hnext : Sqlite.Live (d.sqlite.prepare d.dbhandlerDb (answer id)).2 (Databases.live { d with
        sqlite := (d.sqlite.prepare d.dbhandlerDb (answer id)).2
        dbhandlerStmts := d.dbhandlerStmts ++
          (d.sqlite.prepare d.dbhandlerDb (answer id)).1.toList }) := by
      refine live_perm hprepared ?_
      rw [Databases.live, Databases.live, List.append_assoc]
      exact List.perm_append_comm_assoc _ _ _
    split_ifs
    · exact ih hnext
    · exact hnext

theorem live_dbhandlerInit {r : StartupResults} {d : Databases} (h : d.sqlite.Live d.live)
    (hdb : d.dbhandlerDb = none) :
    (d.dbhandlerInit r).2.sqlite.Live (d.dbhandlerInit r).2.live := by
  let d₁ : Databases := { d with
    sqlite := (d.sqlite.openDb r.dbOpen).2, dbhandlerDb := (d.sqlite.openDb r.dbOpen).1 }
  have hopened : d₁.sqlite.Live d₁.live := by
    refine live_perm (live_openDb h r.dbOpen) ?_
    rw [Databases.live, hdb]
    exact List.perm_append_comm_assoc _ _ _
  have huse : ∀ q : Sqlite, q.Live d₁.live → (q.use d₁.dbhandlerDb).Live d₁.live := fun q hq =>
    live_use hq fun x hx => by simp [Databases.live, Option.mem_def.1 hx]
  let d₂ : Databases := { d₁ with sqlite := d₁.sqlite.use d₁.dbhandlerDb }
  have hcidata : d₂.sqlite.Live d₂.live := huse _ hopened
  let d₃ : Databases := { d₂ with sqlite := d₂.sqlite.use d₂.dbhandlerDb }
  have hcicaller : d₃.sqlite.Live d₃.live := huse _ hcidata
  have hprepared : (d₃.prepareStmts r.dbPrepare DBHANDLER_STMTS).2.sqlite.Live
      (d₃.prepareStmts r.dbPrepare DBHANDLER_STMTS).2.live := live_prepareStmts hcicaller
  unfold Databases.dbhandlerInit
  dsimp only
  split_ifs
  · exact live_dbhandlerCleanup hopened
  · exact live_dbhandlerCleanup hcidata
  · exact live_dbhandlerCleanup hcicaller
  · exact hprepared
  · exact live_dbhandlerCleanup hprepared

theorem cidb_prepareStmts (answer : ℕ → Bool) (ids : List ℕ) (d : Databases) :
    (d.prepareStmts answer ids).2.cidbDb = d.cidbDb ∧
      (d.prepareStmts answer ids).2.cidbFindNumberCacheStmt = d.cidbFindNumberCacheStmt := by
  induction ids generalizing d with
  | nil => exact ⟨rfl, rfl⟩
  | cons id ids ih =>
    unfold Databases.prepareStmts
    dsimp only
    split_ifs
    · exact ih _
    · exact ⟨rfl, rfl⟩

theorem cidb_dbhandlerInit (r : StartupResults) (d : Databases) :
    (d.dbhandlerInit r).2.cidbDb = d.cidbDb ∧
      (d.dbhandlerInit r).2.cidbFindNumberCacheStmt = d.cidbFindNumberCacheStmt := by
  unfold Databases.dbhandlerInit
  dsimp only
  split_ifs
  · exact ⟨rfl, rfl⟩
  · exact ⟨rfl, rfl⟩
  · exact ⟨rfl, rfl⟩
  · exact cidb_prepareStmts _ _ _
  · exact cidb_prepareStmts r.dbPrepare DBHANDLER_STMTS _

theorem live_cidbConnect {r : StartupResults} {d : Databases} (h : d.sqlite.Live d.live)
    (hdb : d.cidbDb = none) (hstmt : d.cidbFindNumberCacheStmt = none)
    (hr : r.cacheOpen = .noMemory ∨
      r.cacheOpen = .ok ∧ r.cacheTable = true ∧ r.cachePrepare = true) :
    (d.cidbConnect r).2.sqlite.Live (d.cidbConnect r).2.live := by
  rcases hr with hmemory | ⟨hopen, htable, hprepare⟩
  · simpa [Databases.cidbConnect, hmemory, Sqlite.openDb, Sqlite.release, Databases.live, hdb]
      using h
  · have hopened := live_openDb h r.cacheOpen
    have hdb' : ∀ x ∈ (d.sqlite.openDb r.cacheOpen).1,
        x ∈ (d.sqlite.openDb r.cacheOpen).1.toList ++ d.live := fun x hx => by
      simp [Option.mem_def.1 hx]
    have hprepared := live_prepare (live_use hopened hdb') hdb' true
    simp only [Databases.cidbConnect, hopen, htable, hprepare, ne_eq, not_true_eq_false,
      Bool.not_true, Bool.false_eq_true, if_false]
    rw [hopen] at hprepared
    refine live_perm hprepared ?_
    simp only [Databases.live, hdb, hstmt, Option.toList_none, List.append_nil]
    rw [← List.append_assoc d.dbhandlerStmts]
    exact (List.append_assoc _ _ _ ▸ List.perm_append_comm)

/-- A handle that is closed and still stored. -/
def Databases.ClosedKept (d : Databases) : Prop :=
  ∃ x, d.cidbDb = some x ∧ .opened x ∈ d.sqlite.log ∧ .released x ∈ d.sqlite.log

theorem closedKept_cidbConnect {r : StartupResults} (d : Databases)
    (hr : r.cacheOpen ≠ .noMemory)
    (hfail : ¬ (r.cacheOpen = .ok ∧ r.cacheTable = true ∧ r.cachePrepare = true)) :
    (d.cidbConnect r).2.ClosedKept ∧ (d.cidbConnect r).1 = false := by
  have hhandle : d.sqlite.openDb r.cacheOpen = (some d.sqlite.new.1, d.sqlite.new.2) := by
    cases hopen : r.cacheOpen with
    | noMemory => exact absurd hopen hr
    | ok => rfl
    | error => rfl
  unfold Databases.cidbConnect
  simp only [hhandle]
  split_ifs with hopen htable hprepare
  · refine ⟨⟨_, rfl, ?_, ?_⟩, rfl⟩ <;> simp [Sqlite.release, Sqlite.new]
  · refine ⟨⟨_, rfl, ?_, ?_⟩, rfl⟩ <;> simp [Sqlite.release, Sqlite.use, Sqlite.new]
  · have hnot : r.cachePrepare = false := by simpa using hprepare
    refine ⟨⟨_, rfl, ?_, ?_⟩, rfl⟩ <;>
      simp [Sqlite.release, Sqlite.use, Sqlite.prepare, Sqlite.new, hnot]
  · exact absurd ⟨not_not.1 hopen, by simpa using htable, by simpa using hprepare⟩ hfail

theorem mem_release {q : Sqlite} {c : Call ℕ} (h : c ∈ q.log) (o : Option ℕ) :
    c ∈ (q.release o).log := by
  cases o with
  | none => exact h
  | some x => exact List.mem_append_left _ h

theorem mem_releaseAll {stmts : List ℕ} {q : Sqlite} {c : Call ℕ} (h : c ∈ q.log) :
    c ∈ (stmts.foldl (fun q stmt => q.release (some stmt)) q).log := by
  induction stmts generalizing q with
  | nil => exact h
  | cons stmt stmts ih => exact ih (mem_release h _)

theorem not_settled_of_closedKept {d : Databases} (h : d.ClosedKept) :
    ¬ Settled d.dbhandlerCleanup.cidbCleanup.sqlite.log := by
  obtain ⟨x, hx, hopened, hreleased⟩ := h
  have hmem : ∀ c ∈ d.sqlite.log,
      c ∈ (d.dbhandlerCleanup.sqlite.release d.cidbFindNumberCacheStmt).log := fun c hc =>
    mem_release (mem_release (mem_releaseAll hc) _) _
  have hlog : d.dbhandlerCleanup.cidbCleanup.sqlite.log =
      (d.dbhandlerCleanup.sqlite.release d.cidbFindNumberCacheStmt).log ++ [.released x] := by
    change (Sqlite.release d.cidbDb _).log = _
    rw [hx]
    rfl
  rw [hlog]
  refine not_settled_of_count (h := x) (List.mem_append_left _ (hmem _ hopened)) ?_
  have hone := List.count_pos_iff.2 (hmem _ hreleased)
  rw [List.count_append, List.count_singleton_self]
  omega

theorem settled_of_live {d : Databases} (h : d.sqlite.Live d.live) :
    Settled d.dbhandlerCleanup.cidbCleanup.sqlite.log :=
  settled_of_holds (live_cidbCleanup (live_dbhandlerCleanup h) rfl rfl).holds

theorem orShutdown_eq_some {r : StartupResults} {call : Bool × Startup}
    {next : Startup → Option Startup} {s : Startup}
    (h : Startup.orShutdown r call next = some s) :
    (call.1 = true ∧ next call.2 = some s) ∨ (call.1 = false ∧ s = call.2.shutdown r) := by
  unfold Startup.orShutdown at h
  split_ifs at h with hcall
  · exact Or.inl ⟨hcall, h⟩
  · cases h
    exact Or.inr ⟨Bool.eq_false_iff.2 hcall, rfl⟩

theorem state_cisrvInit {r : StartupResults} {d : Descriptors} (h : (d.cisrvInit r).1 = true) :
    (d.cisrvInit r).2.server.state = .initialized := by
  unfold Descriptors.cisrvInit at h ⊢
  split_ifs at h ⊢
  rfl

theorem cisrvInit_ok_iff (r : StartupResults) (d : Descriptors) :
    (d.cisrvInit r).1 = true ↔ r.serverSocket = true := by
  unfold Descriptors.cisrvInit
  split_ifs with h <;> simp [h]

theorem ownCloses_of_initialized {r : StartupResults} {inherited : List Bool} {s : Startup}
    (hr : FritzInitialized r) (h : mainStartup r inherited = some s) :
    OwnCloses s.fds.process := by
  have hinit := ownsFds_fritzInit (d := Descriptors.start inherited) hr (owns_start inherited)
  have hserver := ownsFds_cisrvInit (r := r) hinit
  unfold mainStartup at h
  rcases orShutdown_eq_some h with ⟨-, h⟩ | ⟨hfail, rfl⟩
  · rcases orShutdown_eq_some h with ⟨hok, h⟩ | ⟨-, rfl⟩
    · rcases orShutdown_eq_some h with ⟨-, h⟩ | ⟨-, rfl⟩
      · have hrun := ownsFds_cisrvRun (r := r) (ownsFds_readFile hserver r.msnFile)
          (state_cisrvInit hok)
        rcases orShutdown_eq_some h with ⟨-, h⟩ | ⟨-, rfl⟩
        · have hstarted := ownsFds_readFile (ownsFds_fritzStartup (r := r) hrun) r.areaFile
          dsimp only at h
          split_ifs at h
          rcases orShutdown_eq_some h with ⟨-, h⟩ | ⟨-, rfl⟩
          · cases h
            exact ownCloses_shutdown hstarted
          · exact ownCloses_shutdown hstarted
        · exact ownCloses_shutdown hrun
      · exact ownCloses_shutdown hserver
    · exact ownCloses_shutdown hserver
  · exact absurd ((fritzInit_ok_iff r _).2 hr) (Bool.eq_false_iff.1 hfail)

theorem ownCloses_iff {r : StartupResults} {inherited : List Bool} {s : Startup}
    (h : mainStartup r inherited = some s) :
    OwnCloses s.fds.process ↔ FritzInitialized r := by
  refine ⟨fun hown => ?_, fun hr => ownCloses_of_initialized hr h⟩
  by_contra hr
  unfold mainStartup at h
  rcases orShutdown_eq_some h with ⟨hok, -⟩ | ⟨-, rfl⟩
  · exact hr ((fritzInit_ok_iff r _).1 hok)
  · exact not_ownCloses_fritzInit inherited hr hown

theorem settled_lookupInit_iff {r : StartupResults} {d : Databases} (h : d.sqlite.Live d.live)
    (hdb : d.cidbDb = none) (hstmt : d.cidbFindNumberCacheStmt = none)
    (hserver : r.serverSocket = true) :
    Settled (d.lookupInit r).2.dbhandlerCleanup.cidbCleanup.sqlite.log ↔
      ¬ CacheHandleClosed r := by
  unfold Databases.lookupInit
  by_cases hcurl : r.curl = true
  · rw [if_pos hcurl]
    by_cases hclosed : CacheHandleClosed r
    · obtain ⟨-, -, hmemory, hfail⟩ := id hclosed
      exact iff_of_false (not_settled_of_closedKept (closedKept_cidbConnect d hmemory hfail).1)
        (not_not.2 hclosed)
    · refine iff_of_true (settled_of_live (live_cidbConnect h hdb hstmt ?_)) hclosed
      by_contra hor
      rw [not_or] at hor
      exact hclosed ⟨hserver, hcurl, hor⟩
  · rw [if_neg hcurl]
    exact iff_of_true (settled_of_live h) fun hclosed => hcurl hclosed.2.1

theorem settled_iff {r : StartupResults} {inherited : List Bool} {s : Startup}
    (hr : FritzInitialized r) (h : mainStartup r inherited = some s) :
    Settled s.dbs.sqlite.log ↔ ¬ CacheHandleClosed r := by
  have hempty : Databases.start.sqlite.Live Databases.start.live :=
    ⟨holds_nil, by simp [Databases.start]⟩
  have hdbs := live_dbhandlerInit (r := r) hempty rfl
  obtain ⟨hdb, hstmt⟩ := cidb_dbhandlerInit r Databases.start
  unfold mainStartup at h
  rcases orShutdown_eq_some h with ⟨-, h⟩ | ⟨hfail, rfl⟩
  · rcases orShutdown_eq_some h with ⟨hok, h⟩ | ⟨hfail, rfl⟩
    · have hlookup := settled_lookupInit_iff hdbs hdb hstmt ((cisrvInit_ok_iff r _).1 hok)
      -- nothing behind `lookup_init` opens a handle
      rcases orShutdown_eq_some h with ⟨-, h⟩ | ⟨-, rfl⟩
      · rcases orShutdown_eq_some h with ⟨-, h⟩ | ⟨-, rfl⟩
        · dsimp only at h
          split_ifs at h
          rcases orShutdown_eq_some h with ⟨-, h⟩ | ⟨-, rfl⟩
          · cases h
            exact hlookup
          · exact hlookup
        · exact hlookup
      · exact hlookup
    · refine iff_of_true (settled_of_live hempty) fun hclosed => ?_
      exact absurd ((cisrvInit_ok_iff r _).2 hclosed.1) (Bool.eq_false_iff.1 hfail)
  · exact absurd ((fritzInit_ok_iff r _).2 hr) (Bool.eq_false_iff.1 hfail)

/-- Whenever `main` calls `_shutdown`, everything is closed once and nothing else, exactly when
`fritz_init` returned 0 and `cidb_connect` did not close a handle. -/
theorem cleanedUp_iff {r : StartupResults} {inherited : List Bool} {s : Startup}
    (h : mainStartup r inherited = some s) :
    CleanedUp s ↔ FritzInitialized r ∧ ¬ CacheHandleClosed r := by
  rw [CleanedUp, ownCloses_iff h]
  exact and_congr_right fun hr => settled_iff hr h

def allAnswer : StartupResults where
  host := true
  netlinkSocket := true
  netlinkBind := true
  fritzPipe := true
  serverSocket := true
  dbOpen := .ok
  dbCidata := true
  dbCicaller := true
  dbPrepare := fun _ => true
  curl := true
  cacheOpen := .ok
  cacheTable := true
  cachePrepare := true
  sources := true
  msnFile := true
  serverPipe := true
  serverThread := true
  fritzSocket := true
  fritzConnect := true
  fritzThread := true
  areaFile := true
  listening := true
  listeningAgain := false

/-- Without a file of area codes, with the listener not yet running. -/
theorem noAreaFile_cleanedUp :
    ∃ s, mainStartup { allAnswer with areaFile := false, listening := false }
      [true, true, true] = some s ∧ CleanedUp s := by
  obtain ⟨s, hs⟩ : ∃ s, mainStartup { allAnswer with areaFile := false, listening := false }
      [true, true, true] = some s := ⟨_, rfl⟩
  exact ⟨s, hs, (cleanedUp_iff hs).2 ⟨⟨rfl, rfl, rfl, rfl⟩, fun h => h.2.2.2 ⟨rfl, rfl, rfl⟩⟩⟩

/-- `pipe` fails in `fritz_init`: standard input is closed, and 0 once more. -/
theorem failed_pipe_closes_stdin : ¬ ∀ (r : StartupResults) (inherited : List Bool) (s : Startup),
    mainStartup r inherited = some s → CleanedUp s := by
  intro h
  obtain ⟨hown, -⟩ := h { allAnswer with fritzPipe := false } [true, true, true] _ rfl
  obtain ⟨k, hk⟩ := hown.1 (some .inherited) (by decide)
  cases hk

end Fritz2ci
