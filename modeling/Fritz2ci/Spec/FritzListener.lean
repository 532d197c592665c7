import Fritz2ci.Spec.Fritz

/-! The loop of `_fritz_listen_thread_proc` with the descriptors it waits for and those it
tests, from `fritz_startup` on. -/

namespace Fritz2ci

/-- `netutil_init_fd_set`: the set, and one more than its greatest member. -/
def netutilInitFdSet (fds : List ℤ) : List ℤ × ℤ :=
  let set := fds.filter (0 ≤ ·)
  (set, set.foldl max (-2) + 1)

/-- A message of the netlink socket with what a connection attempt would meet. -/
inductive NetEvent
  | up (attempt : ConnectResult)
  | down (ifindex : ℤ)

def NetEvent.handle (srv : CIFritzServer) : NetEvent → CIFritzServer
  | .up r => fritzHandleNetUp r srv
  | .down ifindex => fritzHandleNetDown ifindex srv

/-- What one round of the loop meets: the descriptors `select` reports, `none` for a
negative result, what `FD_ISSET` finds at a negative descriptor, what `recv` returns, and
the messages of the netlink socket. -/
structure Round where
  ready : Option (List ℤ)
  outside : Bool
  received : List UInt8
  netlink : List NetEvent

/-- An `FD_ISSET` with the set that was waited for. -/
structure FdTest where
  fd : ℤ
  fdSet : List ℤ
  deriving DecidableEq, Repr

structure FritzListener where
  srv : CIFritzServer
  /-- the end of `fdpipe` that is read -/
  pipe : ℕ
  netlink : ℕ
  running : Bool
  /-- every `FD_ISSET` so far -/
  tests : List FdTest

/-- Behind `fritz_startup`, with the descriptors of `fritz_init`. -/
def FritzListener.start (r : ConnectResult) (pipe netlink : ℕ) : FritzListener :=
  ⟨fritzStartup r, pipe, netlink, true, []⟩

def FritzListener.fdSet (s : FritzListener) : List ℤ :=
  (netutilInitFdSet [s.srv.sock, s.pipe, s.netlink]).1

/-- `FD_ISSET` after a `select` that reported `ready`. -/
def fdIsset (ready : List ℤ) (outside : Bool) (fd : ℤ) : Bool :=
  if fd < 0 then outside else fd ∈ ready

/-- The branch of the call monitor. `recv` on a negative descriptor fails. -/
def roundSock (ready : List ℤ) (round : Round) (srv : CIFritzServer) : CIFritzServer :=
  if fdIsset ready round.outside srv.sock then
    fritzListenSock (if srv.sock < 0 then [] else round.received) srv
  else srv

/-- The branch of the control pipe: whether the thread returns. -/
def roundPipe (ready : List ℤ) (round : Round) (pipe : ℕ) (srv : CIFritzServer) :
    Bool × CIFritzServer :=
  if fdIsset ready round.outside pipe then (isTerminating (pipeChunk srv), fritzListenPipe srv)
  else (false, srv)

def roundNetlink (ready : List ℤ) (round : Round) (netlink : ℕ) (srv : CIFritzServer) :
    CIFritzServer :=
  if fdIsset ready round.outside netlink then round.netlink.foldl NetEvent.handle srv else srv

/-- One round of the loop behind a `select` that reported `ready`. -/
def FritzListener.round (s : FritzListener) (ready : List ℤ) (round : Round) : FritzListener :=
  let test fd : FdTest := ⟨fd, s.fdSet⟩
  let srv := roundSock ready round s.srv
  let (returns, srv) := roundPipe ready round s.pipe srv
  if returns then
    { s with srv, running := false, tests := s.tests ++ [test s.srv.sock, test s.pipe] }
  else
    { s with
      srv := roundNetlink ready round s.netlink srv
      tests := s.tests ++ [test s.srv.sock, test s.pipe, test s.netlink] }

/-- Between the rounds the main loop runs the reconnect timer, or asks for the end. -/
inductive ListenerEvent
  | timer (attempt : ConnectResult)
  | shutdown
  | round (r : Round)

/-- One step, refused where no timer is armed, where the thread has returned or where
`select` reports what it was not asked for. -/
def fritzListenerStep (s : FritzListener) : ListenerEvent → Option FritzListener
  | .timer r => if 0 < s.srv.timers then some { s with srv := fritzTryReconnect r s.srv } else none
  | .shutdown => some { s with srv := fritzShutdownRequest s.srv }
  | .round round =>
    if s.running then
      match round.ready with
      | none => some { s with running := false }
      | some ready => if ready ⊆ s.fdSet then some (s.round ready round) else none
    else none

end Fritz2ci
