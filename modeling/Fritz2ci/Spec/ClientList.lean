import Fritz2ci.Spec.Listener

/-! The client list of the CI server over the whole life of the server: the listener with
failing calls, broadcasts of the Fritz thread, other users of the descriptor table and
`cisrv_disconnect` in the main thread. What runs under one hold of `clist_lock` is one step. -/

namespace Fritz2ci

open FdTable Socket

def FD_SETSIZE : ℕ := 1024

/-- An entry as `_cisrv_add_client` makes it, with any `int` for its descriptor. -/
structure ListedClient where
  sock : ℤ
  flags : UInt64
  version : UInt32
  /-- the connection `sock` was accepted for, which the code does not see -/
  conn : Option ℕ
  deriving DecidableEq, Repr

/-- A change of the flags and the version, which looks at nothing else. -/
def ListedClient.update (f : CIClient → CIClient) (e : ListedClient) : ListedClient :=
  let client := f { sock := e.sock.toNat, flags := e.flags, version := e.version, conn := 0 }
  { e with flags := client.flags, version := client.version }

def ListedClient.Marked (e : ListedClient) : Bool := e.flags &&& CISRV_CLIENT_REMOVE ≠ 0

/-- Where the listener stands: the call it makes next. -/
inductive ListenerAt
  | bind
  | build
  | select (fdSet : List ℤ)
  | accept (ready : List ℤ)
  /-- behind `accept`, in front of the lock of `_cisrv_add_client` -/
  | add (ready : List ℤ) (newsock : ℤ) (conn : Option ℕ)
  | dispatch (ready : List ℤ)
  | remove (ready : List ℤ)
  | ended
  deriving DecidableEq, Repr

/-- Where the main thread stands in `cisrv_disconnect`. -/
inductive DisconnectAt
  | before | join | broadcast | remove | closeAll | closeSock | done
  deriving DecidableEq, Repr

structure ServerRun where
  /-- `_cisrv_server.sock` -/
  sock : ℤ
  /-- the two ends of `fdpipe` -/
  fdpipe : ℕ × ℕ
  clientlist : List ListedClient
  fds : Table Opened
  /-- the number of connections accepted so far -/
  accepted : ℕ
  /-- what each `close` of a client socket hit, in order -/
  closes : List (Option Opened)
  listener : ListenerAt
  broadcasting : Bool
  disconnect : DisconnectAt

inductive RunEvent
  /-- `wait_for_bind` and `listen` -/
  | bind (ok : Bool)
  | build
  /-- the descriptors reported, `none` for -1 -/
  | select (answer : Option (List ℤ))
  | accept (ok : Bool)
  | add
  | dispatch (outcome : ℕ → Handled)
  | remove
  | broadcastSend (msgtype : CIServerMsg) (msgdata cmsg : List UInt8)
      (answers : ℕ → ℕ → SendAnswer)
  | broadcastRemove
  | disconnect
  | join
  | disconnectSend (msgdata cmsg : List UInt8) (answers : ℕ → ℕ → SendAnswer)
  | disconnectRemove
  | closeAllClients
  | closeSock
  /-- another part of the process opens or closes a descriptor of its own -/
  | otherOpen
  | otherClose (fd : ℕ)

/-- `FD_SET` for the listening socket, the pipe and every client. -/
def ServerRun.fdSet (s : ServerRun) : List ℤ :=
  s.sock :: s.fdpipe.1 :: s.clientlist.map ListedClient.sock

/-- `accept`: a fresh descriptor, or -1. -/
def ServerRun.acceptCall (ready : List ℤ) (ok : Bool) (s : ServerRun) : ServerRun :=
  if ok then
    { s with
      fds := openLowest (.client s.accepted) s.fds
      accepted := s.accepted + 1
      listener := .add ready (lowestFree s.fds) (some s.accepted) }
  else { s with listener := .add ready (-1) none }

/-- `_cisrv_add_client`, which takes what `accept` returned as it is. -/
def ServerRun.cisrvAddClient (newsock : ℤ) (conn : Option ℕ) (s : ServerRun) : ServerRun :=
  { s with clientlist := s.clientlist ++
      [{ sock := newsock, flags := 0, version := CI_MAKE_VERSION 2 0 0, conn := conn }] }

/-- `close` of a client socket. -/
def closeClient (sock : ℤ) (s : Table Opened × List (Option Opened)) :
    Table Opened × List (Option Opened) :=
  if 0 ≤ sock then (close sock.toNat s.1, s.2 ++ [lookup s.1 sock.toNat]) else (s.1, s.2 ++ [none])

/-- A pass over the list that shuts down, frees and unlinks some of the entries. -/
def ServerRun.removeClients (gone : ListedClient → Bool) (s : ServerRun) : ServerRun :=
  let (fds, closes) := (s.clientlist.filter gone).foldl (fun t e => closeClient e.sock t)
    (s.fds, s.closes)
  { s with clientlist := s.clientlist.filter fun e => !gone e, fds, closes }

def ServerRun.cisrvRemoveMarkedClients : ServerRun → ServerRun :=
  ServerRun.removeClients ListedClient.Marked

def ServerRun.cisrvCloseAllClients : ServerRun → ServerRun := ServerRun.removeClients fun _ => true

/-- `_cisrv_handle_client_message` for every client whose descriptor is reported. -/
def ServerRun.dispatchReady (ready : List ℤ) (outcome : ℕ → Handled) (s : ServerRun) : ServerRun :=
  { s with clientlist := s.clientlist.mapIdx fun i e =>
      if ready.contains e.sock then e.update (outcome i).apply else e }

/-- The loop of `cisrv_broadcast_message` over the clients. -/
def ServerRun.sendAll (msgtype : CIServerMsg) (msgdata cmsg : List UInt8)
    (answers : ℕ → ℕ → SendAnswer) (s : ServerRun) : ServerRun :=
  { s with clientlist := s.clientlist.mapIdx fun i e =>
      e.update fun client => (sendToClient msgtype msgdata cmsg (answers i) client).2 }

def listenerStep (s : ServerRun) : RunEvent → Option ServerRun
  | .bind ok =>
    match s.listener with
    | .bind => some { s with listener := if ok then .build else .ended }
    | _ => none
  | .build =>
    match s.listener with
    | .build => some { s with listener := .select s.fdSet }
    | _ => none
  | .select answer =>
    match s.listener, answer with
    | .select fdSet, some ready =>
      if ready ⊆ fdSet then some { s with listener := .accept ready } else none
    | .select _, none => some { s with listener := .ended }
    | _, _ => none
  | .accept ok =>
    match s.listener with
    | .accept ready =>
      if ready.contains s.sock then some (s.acceptCall ready ok)
      else some { s with listener := .dispatch ready }
    | _ => none
  | .add =>
    match s.listener with
    | .add ready newsock conn =>
      some { s.cisrvAddClient newsock conn with listener := .dispatch ready }
    | _ => none
  | .dispatch outcome =>
    match s.listener with
    | .dispatch ready => some { s.dispatchReady ready outcome with listener := .remove ready }
    | _ => none
  | .remove =>
    match s.listener with
    | .remove ready => some { s.cisrvRemoveMarkedClients with
        listener := if ready.contains (s.fdpipe.1 : ℤ) then .ended else .build }
    | _ => none
  | _ => none

/-- `cisrv_disconnect` of a running server. -/
def disconnectStep (s : ServerRun) : RunEvent → Option ServerRun
  | .disconnect => if s.disconnect = .before then some { s with disconnect := .join } else none
  | .join =>
    if s.disconnect = .join ∧ s.listener = .ended then
      some { s with fds := close s.fdpipe.2 (close s.fdpipe.1 s.fds), disconnect := .broadcast }
    else none
  | .disconnectSend msgdata cmsg answers =>
    if s.disconnect = .broadcast then
      some { s.sendAll .disconnect msgdata cmsg answers with disconnect := .remove }
    else none
  | .disconnectRemove =>
    if s.disconnect = .remove then
      some { s.cisrvRemoveMarkedClients with disconnect := .closeAll }
    else none
  | .closeAllClients =>
    if s.disconnect = .closeAll then
      some { s.cisrvCloseAllClients with disconnect := .closeSock }
    else none
  | .closeSock =>
    if s.disconnect = .closeSock then
      some { s with fds := close s.sock.toNat s.fds, sock := -1, disconnect := .done }
    else none
  | _ => none

def runStep (s : ServerRun) : RunEvent → Option ServerRun
  | .broadcastSend msgtype msgdata cmsg answers =>
    if s.broadcasting then none
    else some { s.sendAll msgtype msgdata cmsg answers with broadcasting := true }
  | .broadcastRemove =>
    if s.broadcasting then some { s.cisrvRemoveMarkedClients with broadcasting := false } else none
  | .otherOpen => some { s with fds := openLowest .other s.fds }
  | .otherClose fd =>
    if lookup s.fds fd = some .other then some { s with fds := close fd s.fds } else none
  | .disconnect => disconnectStep s .disconnect
  | .join => disconnectStep s .join
  | .disconnectSend msgdata cmsg answers => disconnectStep s (.disconnectSend msgdata cmsg answers)
  | .disconnectRemove => disconnectStep s .disconnectRemove
  | .closeAllClients => disconnectStep s .closeAllClients
  | .closeSock => disconnectStep s .closeSock
  | e => listenerStep s e

/-- Behind `cisrv_run`: the thread was created, nobody is connected. -/
structure Running (s : ServerRun) : Prop where
  sock : ∃ fd : ℕ, s.sock = fd ∧ lookup s.fds fd = some .server
  fdpipe : lookup s.fds s.fdpipe.1 = some .fdpipe ∧ lookup s.fds s.fdpipe.2 = some .fdpipe
  noClients : ∀ fd conn, lookup s.fds fd ≠ some (.client conn)
  clientlist : s.clientlist = []
  accepted : s.accepted = 0
  closes : s.closes = []
  listener : s.listener = .bind
  broadcasting : s.broadcasting = false
  disconnect : s.disconnect = .before

end Fritz2ci
