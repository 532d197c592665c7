import Fritz2ci.Spec.Fritz

/-! `_fritz_connect` in the main loop and in the listener thread at once, cut at its blocking
call: a new socket is stored, `connect` returns on the socket stored by then, and the Connected
bit is set or the stored socket closed. -/

namespace Fritz2ci

/-- A socket that `_fritz_connect` created. -/
inductive SockState
  | unconnected | connected | closed
  deriving DecidableEq, Repr

/-- Where a thread stands in `_fritz_connect`. -/
inductive ConnectAt
  | idle
  | connecting
  /-- behind `connect`, in front of the branch on its result -/
  | returned (ok : Bool)
  deriving DecidableEq, Repr

/-- The main loop in `_fritz_try_reconnect`, the listener in `_fritz_try_connect`. -/
inductive FritzThread
  | mainLoop | listener
  deriving DecidableEq, Repr

structure Connecting where
  /-- the Connected bit -/
  connected : Bool
  /-- `_cifritz_server.sock` as the place of the socket below, `none` for -1 -/
  sock : Option ℕ
  /-- the sockets created so far, in order -/
  sockets : List SockState
  assocIfindex : Int
  /-- the armed `_fritz_try_reconnect` sources -/
  timers : ℕ
  phase : FritzThread → ConnectAt

inductive ConnectingEvent
  /-- a timer fires or a link comes up; what `socket` answers -/
  | begin (t : FritzThread) (ok : Bool)
  /-- what the call answers, and the interface it is bound to -/
  | connectReturns (t : FritzThread) (ok : Bool) (ifindex : Option Int)
  | finish (t : FritzThread)
  | netDown (ifindex : Int)
  /-- `recv` on the socket gave no bytes -/
  | lost
  deriving DecidableEq, Repr

def FritzThread.other : FritzThread → FritzThread
  | .mainLoop => .listener
  | .listener => .mainLoop

def Connecting.move (t : FritzThread) (p : ConnectAt) (s : Connecting) : Connecting :=
  { s with phase := fun u => if u = t then p else s.phase u }

/-- `netutil_close_fd (&_cifritz_server.sock)` -/
def Connecting.closeFd (s : Connecting) : Connecting :=
  match s.sock with
  | some i => { s with sock := none, sockets := s.sockets.set i .closed }
  | none => s

/-- A connected attempt ends the timer, a failed one of the listener arms a timer. -/
def Connecting.rearm (t : FritzThread) (connected : Bool) (s : Connecting) : Connecting :=
  match t, connected with
  | .mainLoop, true => { s with timers := s.timers - 1 }
  | .listener, false => { s with timers := s.timers + 1 }
  | _, _ => s

/-- The test of the bit, `socket` and the store. -/
def Connecting.begin (t : FritzThread) (ok : Bool) (s : Connecting) : Connecting :=
  if s.connected then s.rearm t true
  else if ok then
    { s with sock := some s.sockets.length, sockets := s.sockets ++ [SockState.unconnected] }.move t
      .connecting
  else { s with sock := none }.rearm t false

def connectingStep (s : Connecting) : ConnectingEvent → Option Connecting
  | .begin t ok =>
    if s.phase t = .idle ∧ (t = .mainLoop → 0 < s.timers) then some (s.begin t ok) else none
  | .connectReturns t ok ifindex =>
    if s.phase t = .connecting then
      if ok then
        match s.sock with
        | some i =>
          if s.sockets[i]? = some .unconnected then
            some ({ s with
              sockets := s.sockets.set i .connected
              assocIfindex := ifindex.getD s.assocIfindex }.move t (.returned true))
          else none
        | none => none
      else some (s.move t (.returned false))
    else none
  | .finish t =>
    match s.phase t with
    | .returned true => some (({ s with connected := true }.rearm t true).move t .idle)
    | .returned false => some ((s.closeFd.rearm t false).move t .idle)
    | _ => none
  | .netDown ifindex =>
    if s.phase .listener = .idle then
      if ifindex = s.assocIfindex then some { s.closeFd with connected := false } else some s
    else none
  | .lost =>
    if s.phase .listener = .idle ∧ s.sock ≠ none then some { s.closeFd with connected := false }
    else none

/-- Behind `fritz_startup`, whose own attempt met the result. -/
def Connecting.started : ConnectResult → Connecting
  | .noSocket => ⟨false, none, [], 0, 1, fun _ => .idle⟩
  | .refused => ⟨false, none, [.closed], 0, 1, fun _ => .idle⟩
  | .established _ ifindex => ⟨true, some 0, [.connected], ifindex.getD 0, 0, fun _ => .idle⟩

end Fritz2ci
