import Fritz2ci.Lib.FdTable
import Fritz2ci.Spec.CIServer

/-! The loop of `_cisrv_listen_thread_proc` next to the broadcasts of the Fritz thread. What
runs under one hold of `clist_lock` is one step. -/

namespace Fritz2ci

open FdTable Socket

/-- What a descriptor of the process is open on. -/
inductive Opened
  | server
  | fdpipe
  | client (conn : ℕ)
  | other
  deriving DecidableEq, Repr

/-- Where the listener stands: the call it makes next, with the set it has built or the
descriptors that `select` reported, each with what it was open on then. -/
inductive Listener
  | build
  | select (fdSet : List ℕ)
  | accept (ready : List (ℕ × Opened))
  | dispatch (ready : List (ℕ × Opened))
  | remove (ready : List (ℕ × Opened))
  | ended

structure CIServer where
  sock : ℕ
  /-- `fdpipe[0]` -/
  fdpipe : ℕ
  clientlist : List CIClient
  fds : Table Opened
  /-- the number of connections accepted so far -/
  accepted : ℕ
  listener : Listener
  /-- the Fritz thread is between the sends of a broadcast and its removal pass -/
  broadcasting : Bool

/-- What `_cisrv_handle_client_message` does to its client. -/
structure Handled where
  remove : Bool
  version : Option UInt32

def Handled.apply (o : Handled) (client : CIClient) : CIClient :=
  let client := { client with version := o.version.getD client.version }
  if o.remove then client.markRemove else client

inductive ServerEvent
  | build
  /-- the descriptors readable at the call -/
  | select (readable : List ℕ)
  | accept
  /-- the outcome for the client at each place of the list -/
  | dispatch (outcome : ℕ → Handled)
  | remove
  | broadcastSend (msgtype : CIServerMsg) (msgdata cmsg : List UInt8)
      (answers : ℕ → ℕ → SendAnswer)
  | broadcastRemove

/-- `FD_ISSET` -/
def fdIsSet (fd : ℕ) (ready : List (ℕ × Opened)) : Bool := (ready.map Prod.fst).contains fd

def CIServer.fdSet (s : CIServer) : List ℕ :=
  s.sock :: s.fdpipe :: s.clientlist.map CIClient.sock

/-- `select` reports the readable ones of the set, and fails when one of the set is closed. -/
def selectReady (fds : Table Opened) (fdSet readable : List ℕ) : Option (List (ℕ × Opened)) :=
  if ∀ fd ∈ fdSet, (lookup fds fd).isSome then
    some ((fdSet.filter (· ∈ readable)).filterMap fun fd => (lookup fds fd).map fun o => (fd, o))
  else none

/-- `accept` and `_cisrv_add_client`, when the listening socket is reported. -/
def CIServer.acceptClient (ready : List (ℕ × Opened)) (s : CIServer) : CIServer :=
  if fdIsSet s.sock ready then
    { s with
      clientlist := cisrvAddClient (lowestFree s.fds) s.accepted s.clientlist
      fds := openLowest (.client s.accepted) s.fds
      accepted := s.accepted + 1 }
  else s

/-- `_cisrv_handle_client_message` for every client whose descriptor is reported. -/
def CIServer.dispatchReady (ready : List (ℕ × Opened)) (outcome : ℕ → Handled) (s : CIServer) :
    CIServer :=
  { s with clientlist := s.clientlist.mapIdx fun i client =>
      if fdIsSet client.sock ready then (outcome i).apply client else client }

def CIServer.removeMarked (s : CIServer) : CIServer :=
  let (clientlist, closed) := cisrvRemoveMarkedClients s.clientlist
  { s with clientlist := clientlist, fds := closeAll closed s.fds }

/-- The loop of `cisrv_broadcast_message` over the clients. -/
def CIServer.sendAll (msgtype : CIServerMsg) (msgdata cmsg : List UInt8)
    (answers : ℕ → ℕ → SendAnswer) (s : CIServer) : CIServer :=
  { s with clientlist := s.clientlist.mapIdx fun i client =>
      (sendToClient msgtype msgdata cmsg (answers i) client).2 }

def serverStep (s : CIServer) : ServerEvent → Option CIServer
  | .build =>
    match s.listener with
    | .build => some { s with listener := .select s.fdSet }
    | _ => none
  | .select readable =>
    match s.listener with
    | .select fdSet =>
      match selectReady s.fds fdSet readable with
      | some ready => some { s with listener := .accept ready }
      | none => some { s with listener := .ended }
    | _ => none
  | .accept =>
    match s.listener with
    | .accept ready => some { s.acceptClient ready with listener := .dispatch ready }
    | _ => none
  | .dispatch outcome =>
    match s.listener with
    | .dispatch ready => some { s.dispatchReady ready outcome with listener := .remove ready }
    | _ => none
  | .remove =>
    match s.listener with
    | .remove ready => some { s.removeMarked with
        listener := if fdIsSet s.fdpipe ready then .ended else .build }
    | _ => none
  | .broadcastSend msgtype msgdata cmsg answers =>
    if s.broadcasting then none
    else some { s.sendAll msgtype msgdata cmsg answers with broadcasting := true }
  | .broadcastRemove =>
    if s.broadcasting then some { s.removeMarked with broadcasting := false } else none

/-- The listener in front of its loop: the listening socket and the pipe are open, and
nobody is connected. -/
structure Listening (s : CIServer) : Prop where
  sock : lookup s.fds s.sock = some .server
  fdpipe : lookup s.fds s.fdpipe = some .fdpipe
  clientlist : s.clientlist = []
  listener : s.listener = .build
  broadcasting : s.broadcasting = false

end Fritz2ci
