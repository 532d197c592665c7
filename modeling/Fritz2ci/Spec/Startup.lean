import Fritz2ci.Lib.Ledger
import Fritz2ci.Lib.OwnFds

/-! The start-up of `main` and `_shutdown`, call by call, for given answers of the calls outside
the program: what is opened and closed in the descriptor table and at SQLite. The threads and the
main loop do nothing with either in between. -/

namespace Fritz2ci

open FdTable Ledger

/-- What `sqlite3_open` answers; a failed call still leaves a handle unless memory runs out. -/
inductive SqliteOpen
  | ok | error | noMemory
  deriving DecidableEq, Repr

/-- The answers of the calls outside the program. -/
structure StartupResults where
  /-- the configuration has a Fritz host -/
  host : Bool
  netlinkSocket : Bool
  netlinkBind : Bool
  fritzPipe : Bool
  serverSocket : Bool
  dbOpen : SqliteOpen
  dbCidata : Bool
  dbCicaller : Bool
  /-- by the number of the statement -/
  dbPrepare : ℕ → Bool
  curl : Bool
  cacheOpen : SqliteOpen
  cacheTable : Bool
  cachePrepare : Bool
  sources : Bool
  msnFile : Bool
  serverPipe : Bool
  serverThread : Bool
  fritzSocket : Bool
  fritzConnect : Bool
  fritzThread : Bool
  areaFile : Bool
  /-- the listener has set its bit when `fritz_shutdown` is called, and when `fritz_cleanup` is -/
  listening : Bool
  listeningAgain : Bool

/-- The bits and descriptors of `_cifritz_server`, and whether `thread` is set. -/
structure FritzHandles where
  initialized : Bool
  connected : Bool
  listening : Bool
  thread : Bool
  sock : ℤ
  netlink : ℤ
  fdpipe : ℤ × ℤ

def FritzHandles.zero : FritzHandles := ⟨false, false, false, false, 0, 0, (0, 0)⟩

/-- `CISrvState*` -/
inductive CIServerState
  | uninitialized | initialized | connected | running
  deriving DecidableEq, Repr

structure ServerHandles where
  state : CIServerState
  sock : ℤ
  fdpipe : ℤ × ℤ

structure Descriptors where
  process : Process
  fritz : FritzHandles
  server : ServerHandles

def Descriptors.start (inherited : List Bool) : Descriptors :=
  ⟨Process.start inherited, .zero, ⟨.uninitialized, 0, (0, 0)⟩⟩

/-- `netutil_close_fd`, with what is left in the descriptor. -/
def netutilCloseFd (fd : ℤ) (p : Process) : ℤ × Process :=
  if 0 ≤ fd then (-1, p.closeFd fd) else (fd, p)

def netutilInitNetlink (r : StartupResults) (p : Process) : ℤ × Process :=
  if r.netlinkSocket then
    let (sock, p) := p.openFd
    -- a socket that cannot be bound is left open
    if r.netlinkBind then (sock, p) else (-1, p)
  else (-1, p)

def netutilCleanup (nlsock : ℤ) (p : Process) : Process :=
  if 0 ≤ nlsock then p.closeFd nlsock else p

def openPipe (p : Process) : (ℤ × ℤ) × Process :=
  let (fd₀, p) := p.openFd
  let (fd₁, p) := p.openFd
  ((fd₀, fd₁), p)

/-- `fopen`, reading and `fclose`. -/
def readFile (ok : Bool) (p : Process) : Bool × Process :=
  if ok then
    let (fd, p) := p.openFd
    (true, p.closeFd fd)
  else (false, p)

/-- `fritz_init` and whether it returns 0. -/
def Descriptors.fritzInit (r : StartupResults) (d : Descriptors) : Bool × Descriptors :=
  let d := { d with fritz := .zero }
  if !r.host then (false, d)
  else
    let (netlink, p) := netutilInitNetlink r d.process
    let d := { d with process := p, fritz := { d.fritz with netlink } }
    if netlink = -1 then (false, d)
    else if !r.fritzPipe then (false, d)
    else
      let (fdpipe, p) := openPipe d.process
      (true, { d with process := p, fritz := { d.fritz with fdpipe, initialized := true } })

/-- `_fritz_connect` -/
def Descriptors.fritzConnect (r : StartupResults) (d : Descriptors) : Descriptors :=
  if !d.fritz.initialized then d
  else if d.fritz.connected then d
  else if !r.fritzSocket then { d with fritz := { d.fritz with sock := -1 } }
  else
    let (sock, p) := d.process.openFd
    if r.fritzConnect then
      { d with process := p, fritz := { d.fritz with sock, connected := true } }
    else
      let (sock, p) := netutilCloseFd sock p
      { d with process := p, fritz := { d.fritz with sock } }

/-- `fritz_startup` and whether it returns 0. -/
def Descriptors.fritzStartup (r : StartupResults) (d : Descriptors) : Bool × Descriptors :=
  let d := d.fritzConnect r
  (r.fritzThread, { d with fritz := { d.fritz with thread := r.fritzThread } })

/-- The listener thread sets its bit once it runs. -/
def Descriptors.listenerStarts (starts : Bool) (d : Descriptors) : Descriptors :=
  if d.fritz.thread && starts then { d with fritz := { d.fritz with listening := true } } else d

/-- `fritz_shutdown` -/
def Descriptors.fritzShutdown (d : Descriptors) : Descriptors :=
  let d := if d.fritz.listening then
      { d with fritz := { d.fritz with thread := false, listening := false } } else d
  if d.fritz.connected then
    let (sock, p) := netutilCloseFd d.fritz.sock d.process
    { d with process := p, fritz := { d.fritz with sock, connected := false } }
  else d

/-- `fritz_cleanup` -/
def Descriptors.fritzCleanup (d : Descriptors) : Descriptors :=
  let d := if d.fritz.connected || d.fritz.listening then d.fritzShutdown else d
  let (fd₀, p) := netutilCloseFd d.fritz.fdpipe.1 d.process
  let (fd₁, p) := netutilCloseFd d.fritz.fdpipe.2 p
  { d with
    process := netutilCleanup d.fritz.netlink p
    fritz := { d.fritz with fdpipe := (fd₀, fd₁) } }

/-- `cisrv_init` and whether it returns 0. -/
def Descriptors.cisrvInit (r : StartupResults) (d : Descriptors) : Bool × Descriptors :=
  if r.serverSocket then
    let (sock, p) := d.process.openFd
    (true, { d with process := p, server := ⟨.initialized, sock, (0, 0)⟩ })
  else (false, { d with server := ⟨.uninitialized, -1, (0, 0)⟩ })

/-- `cisrv_run` and whether it returns 0. -/
def Descriptors.cisrvRun (r : StartupResults) (d : Descriptors) : Bool × Descriptors :=
  if d.server.state = .uninitialized ∨ d.server.state = .running then (false, d)
  else if !r.serverPipe then (false, d)
  else
    let (fdpipe, p) := openPipe d.process
    let d := { d with process := p, server := { d.server with fdpipe } }
    if r.serverThread then (true, { d with server := { d.server with state := .running } })
    else (false, d)

/-- `cisrv_disconnect` -/
def Descriptors.cisrvDisconnect (d : Descriptors) : Descriptors :=
  let d := if d.server.state = .running then
      { d with
        process := (d.process.closeFd d.server.fdpipe.1).closeFd d.server.fdpipe.2
        server := { d.server with state := .connected } }
    else d
  if d.server.state = .uninitialized then d
  else
    { d with
      process := d.process.closeFd d.server.sock
      server := { d.server with state := .initialized, sock := -1 } }

/-- The handles of SQLite, numbered as they are opened, and the calls made on them. -/
structure Sqlite where
  handles : ℕ
  log : List (Call ℕ)

/-- The globals of `dbhandler.c` and `lookup.c`, `none` for NULL; of `dbhandler_stmts` those that
are not NULL, in order. -/
structure Databases where
  sqlite : Sqlite
  dbhandlerDb : Option ℕ
  dbhandlerStmts : List ℕ
  cidbDb : Option ℕ
  cidbFindNumberCacheStmt : Option ℕ

def Databases.start : Databases := ⟨⟨0, []⟩, none, [], none, none⟩

def Sqlite.new (q : Sqlite) : ℕ × Sqlite :=
  (q.handles, ⟨q.handles + 1, q.log ++ [.opened q.handles]⟩)

/-- `sqlite3_open` -/
def Sqlite.openDb (answer : SqliteOpen) (q : Sqlite) : Option ℕ × Sqlite :=
  match answer with
  | .ok | .error => (some q.new.1, q.new.2)
  | .noMemory => (none, q)

/-- `sqlite3_exec` and other calls on a handle. -/
def Sqlite.use (h : Option ℕ) (q : Sqlite) : Sqlite :=
  match h with
  | some h => { q with log := q.log ++ [.used h] }
  | none => q

/-- `sqlite3_close` or `sqlite3_finalize`, which do nothing for NULL. -/
def Sqlite.release (h : Option ℕ) (q : Sqlite) : Sqlite :=
  match h with
  | some h => { q with log := q.log ++ [.released h] }
  | none => q

/-- `sqlite3_prepare_v2` -/
def Sqlite.prepare (db : Option ℕ) (ok : Bool) (q : Sqlite) : Option ℕ × Sqlite :=
  let q := q.use db
  if ok then (some q.new.1, q.new.2) else (none, q)

def DBHANDLER_STMTS : List ℕ := [0, 1, 2, 3]

/-- `dbhandler_cleanup` -/
def Databases.dbhandlerCleanup (d : Databases) : Databases :=
  let q := d.dbhandlerStmts.foldl (fun q stmt => q.release (some stmt)) d.sqlite
  { d with sqlite := q.release d.dbhandlerDb, dbhandlerStmts := [], dbhandlerDb := none }

/-- `PREPARE_STMT` for the statements in turn, up to the first that fails. -/
def Databases.prepareStmts (answer : ℕ → Bool) : List ℕ → Databases → Bool × Databases
  | [], d => (true, d)
  | id :: ids, d =>
    let (stmt, q) := d.sqlite.prepare d.dbhandlerDb (answer id)
    let d := { d with sqlite := q, dbhandlerStmts := d.dbhandlerStmts ++ stmt.toList }
    if answer id then d.prepareStmts answer ids else (false, d)

/-- `dbhandler_init` and whether it returns 0. -/
def Databases.dbhandlerInit (r : StartupResults) (d : Databases) : Bool × Databases :=
  let (db, q) := d.sqlite.openDb r.dbOpen
  let d := { d with sqlite := q, dbhandlerDb := db }
  if r.dbOpen ≠ .ok then (false, d.dbhandlerCleanup)
  else
    let d := { d with sqlite := d.sqlite.use d.dbhandlerDb }
    if !r.dbCidata then (false, d.dbhandlerCleanup)
    else
      let d := { d with sqlite := d.sqlite.use d.dbhandlerDb }
      if !r.dbCicaller then (false, d.dbhandlerCleanup)
      else
        let (ok, d) := d.prepareStmts r.dbPrepare DBHANDLER_STMTS
        if ok then (true, d) else (false, d.dbhandlerCleanup)

/-- `cidb_connect` and whether it returns 0. -/
def Databases.cidbConnect (r : StartupResults) (d : Databases) : Bool × Databases :=
  let (db, q) := d.sqlite.openDb r.cacheOpen
  let d := { d with sqlite := q, cidbDb := db }
  -- a handle that is closed here stays in `_cidb_db`
  if r.cacheOpen ≠ .ok then (false, { d with sqlite := d.sqlite.release d.cidbDb })
  else
    let d := { d with sqlite := d.sqlite.use d.cidbDb }
    if !r.cacheTable then (false, { d with sqlite := d.sqlite.release d.cidbDb })
    else
      let (stmt, q) := d.sqlite.prepare d.cidbDb r.cachePrepare
      if !r.cachePrepare then
        (false, { d with sqlite := q.release d.cidbDb, cidbFindNumberCacheStmt := none })
      else (true, { d with sqlite := q, cidbFindNumberCacheStmt := stmt })

/-- `cidb_cleanup` -/
def Databases.cidbCleanup (d : Databases) : Databases :=
  { d with sqlite := (d.sqlite.release d.cidbFindNumberCacheStmt).release d.cidbDb }

/-- `lookup_init` and whether it returns 0. -/
def Databases.lookupInit (r : StartupResults) (d : Databases) : Bool × Databases :=
  if r.curl then
    let (connected, d) := d.cidbConnect r
    (connected && r.sources, d)
  else (false, d)

structure Startup where
  fds : Descriptors
  dbs : Databases

/-- `_shutdown` -/
def Startup.shutdown (r : StartupResults) (s : Startup) : Startup :=
  let fds := (s.fds.listenerStarts r.listening).fritzShutdown
  let fds := fds.cisrvDisconnect
  let fds := (fds.listenerStarts r.listeningAgain).fritzCleanup
  let dbs := s.dbs.dbhandlerCleanup
  let dbs := dbs.cidbCleanup
  ⟨fds, dbs⟩

/-- A call of `main` that ends the start-up when it fails. -/
def Startup.orShutdown (r : StartupResults) (call : Bool × Startup)
    (next : Startup → Option Startup) : Option Startup :=
  if call.1 then next call.2 else some (call.2.shutdown r)

def Startup.onFds (f : Descriptors → Bool × Descriptors) (s : Startup) : Bool × Startup :=
  ((f s.fds).1, { s with fds := (f s.fds).2 })

def Startup.onDbs (f : Databases → Bool × Databases) (s : Startup) : Bool × Startup :=
  ((f s.dbs).1, { s with dbs := (f s.dbs).2 })

def Startup.readFile (ok : Bool) (s : Startup) : Bool × Startup :=
  s.onFds fun d => ((Fritz2ci.readFile ok d.process).1,
    { d with process := (Fritz2ci.readFile ok d.process).2 })

/-- `main` behind the configuration up to the end of `_shutdown`, `none` where it returns
without calling it. -/
def mainStartup (r : StartupResults) (inherited : List Bool) : Option Startup :=
  let s : Startup := ⟨Descriptors.start inherited, Databases.start⟩
  Startup.orShutdown r (s.onFds (Descriptors.fritzInit r)) fun s =>
  Startup.orShutdown r (s.onFds (Descriptors.cisrvInit r)) fun s =>
  -- a database that cannot be initialized ends nothing
  let s := (s.onDbs (Databases.dbhandlerInit r)).2
  Startup.orShutdown r (s.onDbs (Databases.lookupInit r)) fun s =>
  -- nor does a missing list of numbers
  let s := (s.readFile r.msnFile).2
  Startup.orShutdown r (s.onFds (Descriptors.cisrvRun r)) fun s =>
  let (ok, s) := s.onFds (Descriptors.fritzStartup r)
  if !ok then none
  else
    Startup.orShutdown r (s.readFile r.areaFile) fun s =>
    -- the main loop runs and ends
    some (s.shutdown r)

end Fritz2ci
