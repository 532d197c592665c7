import Fritz2ci.Spec.ClientList

/-! `_cisrv_listen_thread_proc` from its first line on: `wait_for_bind` goes round until the
address is free or the control pipe has input, and the loop over the clients follows. -/

namespace Fritz2ci

inductive BindAnswer
  | ok
  /-- `EADDRINUSE` -/
  | inUse
  | failed
  deriving DecidableEq, Repr

/-- The `select` of ten seconds on the control pipe. -/
inductive WaitAnswer
  | input
  | failed
  | timeout
  deriving DecidableEq, Repr

/-- What the calls answer in one pass of the loop in `wait_for_bind`. -/
structure BindAttempt where
  bind : BindAnswer
  wait : WaitAnswer
  deriving DecidableEq, Repr

/-- One pass: what the function returns, `none` when it goes round. -/
def BindAttempt.pass (ctrlfd : ℤ) (a : BindAttempt) : Option ℤ :=
  match a.bind with
  | .ok => some 0
  | .failed => some (-1)
  | .inUse =>
    if 0 ≤ ctrlfd then
      match a.wait with
      | .input => some 1
      | .failed => some (-1)
      | .timeout => none
    -- `sleep`
    else none

/-- What `wait_for_bind` returns, `none` while it has not. -/
def waitForBind (sock ctrlfd : ℤ) (attempts : List BindAttempt) : Option ℤ :=
  if sock < 0 then some (-1) else attempts.findSome? (BindAttempt.pass ctrlfd)

/-- Behind `wait_for_bind`. -/
def bound (rc : ℤ) (listens : Bool) : ListenerAt :=
  if rc = -1 then .ended else if rc = 1 then .ended else if listens then .build else .ended

inductive ThreadEvent
  /-- a pass in `wait_for_bind`, with what `listen` would answer behind it -/
  | attempt (a : BindAttempt) (listens : Bool)
  | run (e : RunEvent)

def threadStep (s : ServerRun) : ThreadEvent → Option ServerRun
  | .attempt a listens =>
    match s.listener with
    | .bind =>
      match a.pass s.fdpipe.1 with
      | none => some s
      | some rc => some { s with listener := bound rc listens }
    | _ => none
  | .run (.bind _) => none
  | .run e => runStep s e

end Fritz2ci
