import Fritz2ci.Spec.Fritz

/-! `_shutdown` in the main thread next to the listener thread of `fritz.c`, which starts up and
runs `handle_fritz_message` call by call. -/

namespace Fritz2ci

open CString

/-- What `_shutdown` releases: the area-code filename, the MSN list, the prepared statements, the
mutex of the client list, the handles of the lookup and `_db_data_todo`. -/
inductive Resource
  | areaCodes | msnList | statements | clistLock | lookup | queue
  deriving DecidableEq, Repr

/-- The calls of `handle_fritz_message`, with what `lookup_get_caller_data` said before. -/
inductive HandlerCall
  | getAreaCode
  | msnlLookup
  | broadcastMessage
  | lookupGetCallerData
  | queueIsEmpty (found : Bool)
  | addData (found : Bool)
  | pushTail (found : Bool)
  | broadcastUpdate
  | broadcastComplete
  | msnlLookupCall
  | broadcastCall
  deriving DecidableEq, Repr

def HandlerCall.uses : HandlerCall → Resource
  | .getAreaCode => .areaCodes
  | .msnlLookup | .msnlLookupCall => .msnList
  | .lookupGetCallerData => .lookup
  | .queueIsEmpty _ | .pushTail _ => .queue
  | .addData _ => .statements
  | .broadcastMessage | .broadcastUpdate | .broadcastComplete | .broadcastCall => .clistLock

/-- The first call behind the section under `_db_data_queue_lock`. -/
def HandlerCall.stored (found : Bool) : HandlerCall :=
  if found then .broadcastUpdate else .broadcastComplete

/-- The call behind one that answered `ok`: found, empty, or added. -/
def HandlerCall.next (ok : Bool) : HandlerCall → Option HandlerCall
  | .getAreaCode => some .msnlLookup
  | .msnlLookup => some .broadcastMessage
  | .broadcastMessage => some .lookupGetCallerData
  | .lookupGetCallerData => some (.queueIsEmpty ok)
  | .queueIsEmpty found => if ok then some (.addData found) else some (.pushTail found)
  | .addData found => if ok then some (stored found) else some (.pushTail found)
  | .pushTail found => some (stored found)
  | .broadcastUpdate => some .broadcastComplete
  | .broadcastComplete => none
  | .msnlLookupCall => some .broadcastCall
  | .broadcastCall => none

/-- Where the listener thread stands: not yet running, in front of `select`, or in front of a call
of the handler. -/
inductive FritzListenerAt
  | created
  | select
  | handling (call : HandlerCall)
  | ended
  deriving DecidableEq, Repr

/-- The call `_shutdown` makes next. `fritz_shutdown` runs a second time (`again`) when
`fritz_cleanup` finds one of the bits set. -/
inductive ShutdownAt
  | freeAreaCodes
  | fritzShutdown (again : Bool)
  | join (again : Bool)
  | closeSock (again : Bool)
  | cisrvDisconnect
  | msnlCleanup
  | fritzCleanup
  | closePipe
  | dbhandlerCleanup
  | cisrvCleanup
  | lookupCleanup
  | queueFree
  | done
  deriving DecidableEq, Repr

structure ShutdownRun where
  srv : CIFritzServer
  /-- the control pipe and the netlink socket are open -/
  pipeOpen : Bool
  main : ShutdownAt
  listener : FritzListenerAt
  released : List Resource
  /-- the calls the listener made on what was released before -/
  late : List HandlerCall

inductive ShutdownEvent
  | main
  /-- a `_fritz_try_reconnect` source of the main loop fires -/
  | timer (r : ConnectResult)
  | listen
  | received (bytes : List UInt8)
  | netUp (r : ConnectResult)
  | netDown (ifindex : Int)
  | readPipe
  | selectFails
  | call (ok : Bool)

/-- What `handle_fritz_message` does first. -/
def callbackStart (cmsg : CIFritzCallMsg) : FritzListenerAt :=
  match cmsg.msgtype with
  | .ring => .handling .getAreaCode
  | .call => .handling .msnlLookupCall
  | .connect | .disconnect => .select

/-- Where the bytes of one `recv` take the listener. -/
def receivedStart (bytes : List UInt8) : FritzListenerAt :=
  if 1 ≤ bytes.length then
    match fritzParseNotification (some (ofBuffer bytes)) with
    | .ok cmsg => callbackStart cmsg
    | .error _ => .select
  else .select

/-- The part of `fritz_shutdown` behind the join. -/
def fritzShutdownSock (srv : CIFritzServer) : CIFritzServer :=
  if srv.connected then { srv with sock := -1, connected := false } else srv

/-- A step of `_shutdown`; `g_thread_join` waits. -/
def shutdownMain (s : ShutdownRun) : Option ShutdownRun :=
  match s.main with
  | .freeAreaCodes => some { s with
      released := .areaCodes :: s.released
      main := .fritzShutdown false }
  | .fritzShutdown again => some { s with
      srv := fritzShutdownRequest s.srv
      main := if s.srv.listening then .join again else .closeSock again }
  | .join again =>
    if s.listener = .ended then some { s with
      srv := { s.srv with listening := false }
      main := .closeSock again }
    else none
  | .closeSock again => some { s with
      srv := fritzShutdownSock s.srv
      main := if again then .closePipe else .cisrvDisconnect }
  | .cisrvDisconnect => some { s with main := .msnlCleanup }
  | .msnlCleanup => some { s with released := .msnList :: s.released, main := .fritzCleanup }
  | .fritzCleanup => some { s with
      -- `state >= CIFritzServerStateConnected`: one of the two upper bits is set
      main := if s.srv.connected || s.srv.listening then .fritzShutdown true else .closePipe }
  | .closePipe => some { s with pipeOpen := false, main := .dbhandlerCleanup }
  | .dbhandlerCleanup => some { s with
      released := .statements :: s.released
      main := .cisrvCleanup }
  | .cisrvCleanup => some { s with released := .clistLock :: s.released, main := .lookupCleanup }
  | .lookupCleanup => some { s with released := .lookup :: s.released, main := .queueFree }
  | .queueFree => some { s with released := .queue :: s.released, main := .done }
  | .done => none

/-- A call of the handler, which returns to the loop behind the last one. -/
def ShutdownRun.makeCall (call : HandlerCall) (ok : Bool) (s : ShutdownRun) : ShutdownRun :=
  { s with
    late := if call.uses ∈ s.released then s.late ++ [call] else s.late
    listener := match call.next ok with
      | some call' => .handling call'
      | none => .select }

def shutdownStep (s : ShutdownRun) : ShutdownEvent → Option ShutdownRun
  | .main => shutdownMain s
  | .timer r =>
    -- the main loop runs until `_shutdown` begins
    if s.main = .freeAreaCodes ∧ 0 < s.srv.timers then
      some { s with srv := fritzTryReconnect r s.srv }
    else none
  | .listen =>
    if s.listener = .created then
      some { s with srv := { s.srv with listening := true }, listener := .select }
    else none
  | .received bytes =>
    if s.listener = .select ∧ s.srv.connected ∧ bytes.length ≤ FRITZ_BUFFER_SIZE - 1 then
      some { s with srv := fritzListenSock bytes s.srv, listener := receivedStart bytes }
    else none
  | .netUp r =>
    if s.listener = .select ∧ s.pipeOpen then some { s with srv := fritzHandleNetUp r s.srv }
    else none
  | .netDown ifindex =>
    if s.listener = .select ∧ s.pipeOpen then
      some { s with srv := fritzHandleNetDown ifindex s.srv }
    else none
  | .readPipe =>
    if s.listener = .select ∧ s.pipeOpen ∧ s.srv.fdpipe ≠ [] then
      some { s with
        srv := fritzListenPipe s.srv
        listener := if isTerminating (pipeChunk s.srv) then .ended else .select }
    else none
  | .selectFails => if s.listener = .select then some { s with listener := .ended } else none
  | .call ok =>
    match s.listener with
    | .handling call => some (s.makeCall call ok)
    | _ => none

/-- Behind `fritz_startup`, whose own attempt met the result: the thread is created. -/
def ShutdownRun.started (r : ConnectResult) : ShutdownRun where
  srv := fritzTryConnect r fritzInit
  pipeOpen := true
  main := .freeAreaCodes
  listener := .created
  released := []
  late := []

end Fritz2ci
