import Fritz2ci.Lib.Decimal
import Fritz2ci.Lib.Machine

/-! `daemon.c`: the pid file that keeps a second daemon from starting. The parent of a daemon
writes its number, the daemon itself removes the file. -/

namespace Fritz2ci

open CString Decimal

/-- `fgets (buffer, 256, f)` on a file, when the buffer holds `old`. -/
def fgetsLine (content : List UInt8) (old : CStr) : CStr :=
  match fgetsAll 255 content with
  | [] => old
  | line :: _ => ofBuffer line

/-- The name that `check_process_running` reads from `/proc/<pid>/comm`; it returns before
the comparison when there is none. -/
def processName (pid : ℕ) (comm : List UInt8) : Option CStr :=
  let buffer := fgetsLine comm (ascii "/proc/" ++ printNat pid ++ ascii "/comm")
  if buffer.length = 0 then none
  else if buffer.getLast? = some 10 then some buffer.dropLast
  else some buffer

/-- `check_process_running`: whether it returns 0. `pidfile` is what can be read of the file,
`proc` what can be read of `/proc/<pid>/comm`, `garbage` the buffer before it is written. -/
def checkProcessRunning (comm : CStr) (pidfile : Option (List UInt8))
    (proc : ℕ → Option (List UInt8)) (garbage : CStr) : Bool :=
  match pidfile with
  | none => false
  | some content =>
    let pid := strtoul (fgetsLine content garbage)
    if pid = 0 then false
    else match proc pid with
      | none => false
      | some name => processName pid name = some comm

/-- The pid file and the processes, with the daemons that have not yet run `stop_daemon`, the
starts between the check and `fork`, and the children whose number is still to be written. -/
structure Daemons where
  pidfile : Option (List UInt8)
  proc : ℕ → Option (List UInt8)
  running : List ℕ
  passed : List CStr
  forked : List ℕ

inductive DaemonEvent
  /-- `start_daemon` up to `fork` -/
  | check (argv0 garbage : CStr)
  /-- `fork` for the start number `i`, and what `/proc/<pid>/comm` holds for the child -/
  | fork (i : ℕ) (pid : ℕ) (comm : List UInt8)
  | forkFails (i : ℕ)
  /-- the rest of `start_daemon` in the parent; `opened` is whether it can write the file -/
  | writePid (pid : ℕ) (opened : Bool)
  /-- `stop_daemon`, at the end of `_shutdown` -/
  | stop (pid : ℕ)
  /-- a process ends, with or without `_shutdown` -/
  | exit (pid : ℕ)
  /-- a process of another program -/
  | spawn (pid : ℕ) (comm : List UInt8)

/-- A number that `fork` can return: positive, an `int`, of no process alive. -/
def FreshPid (s : Daemons) (pid : ℕ) : Prop := 0 < pid ∧ pid < 2 ^ 31 ∧ s.proc pid = none

instance (s : Daemons) (pid : ℕ) : Decidable (FreshPid s pid) := inferInstanceAs (Decidable (_ ∧ _))

def daemonStep (s : Daemons) : DaemonEvent → Option Daemons
  | .check argv0 garbage =>
    -- a file that is not there is not looked into
    if s.pidfile.isSome && checkProcessRunning argv0 s.pidfile s.proc garbage then some s
    else some { s with passed := s.passed ++ [argv0] }
  | .fork i pid comm =>
    if i < s.passed.length ∧ FreshPid s pid then
      some { s with
        proc := Function.update s.proc pid (some comm)
        running := s.running ++ [pid]
        passed := s.passed.eraseIdx i
        forked := s.forked ++ [pid] }
    else none
  | .forkFails i =>
    if i < s.passed.length then some { s with passed := s.passed.eraseIdx i } else none
  | .writePid pid opened =>
    if pid ∈ s.forked then
      some { s with
        pidfile := if opened then some (printNat pid) else s.pidfile
        forked := s.forked.erase pid }
    else none
  | .stop pid =>
    if pid ∈ s.running then
      some { s with pidfile := none, running := s.running.erase pid }
    else none
  | .exit pid =>
    if (s.proc pid).isSome then
      some { s with proc := Function.update s.proc pid none, running := s.running.erase pid }
    else none
  | .spawn pid comm =>
    if FreshPid s pid then some { s with proc := Function.update s.proc pid (some comm) } else none

/-- No daemon is there yet, whatever file and processes are. -/
structure NoDaemons (s : Daemons) : Prop where
  running : s.running = []
  passed : s.passed = []
  forked : s.forked = []

example : processName 7 (ascii "fritz2ci\n") = some (ascii "fritz2ci") := by decide

end Fritz2ci
