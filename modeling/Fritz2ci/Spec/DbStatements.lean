import Fritz2ci.Spec.CallRows

/-! `dbhandler.c`: the prepared statements and what the handlers do to them, whatever SQLite
answers. A statement that was stepped takes no bind before its reset. -/

namespace Fritz2ci

open CString CTime

/-- `DBHANDLER_STMT_*` -/
inductive Stmt
  | insertCall | getCaller | getCalls | getNumCalls
  deriving DecidableEq, Repr

inductive StmtState
  | ready | stepped
  deriving DecidableEq, Repr

inductive StepEnd
  | done | busy | error
  deriving DecidableEq, Repr

/-- A result of `sqlite3_step`: a row with what the handler reads of it, or an end. -/
inductive StepResult (ρ : Type)
  | row (columns : ρ)
  | last (rc : StepEnd)
  deriving DecidableEq, Repr

structure DbHandler where
  stmts : Stmt → StmtState
  /-- The rows of `cidata`. -/
  rows : List CallRow

/-- After a successful `dbhandler_init`. -/
def DbHandler.init (rows : List CallRow) : DbHandler := ⟨fun _ => .ready, rows⟩

/-- Whether `sqlite3_bind_*` returns `SQLITE_OK` where it would on a statement that is ready. -/
def DbHandler.bind (h : DbHandler) (stmt : Stmt) (ok : Bool) : Bool := ok && h.stmts stmt = .ready

def DbHandler.step (h : DbHandler) (stmt : Stmt) : DbHandler :=
  { h with stmts := Function.update h.stmts stmt .stepped }

def DbHandler.reset (h : DbHandler) (stmt : Stmt) : DbHandler :=
  { h with stmts := Function.update h.stmts stmt .ready }

/-- `dbhandler_add_data`: `binds` are the answers to the binds of a ready statement, `rc` the
result of the step. `none` where `parse_datetime` runs over its buffer. -/
def DbHandler.addData (z : Zone) (h : DbHandler) (data : Option CIDataSet) (binds : ℕ → Bool)
    (rc : StepResult Unit) : Option (ℕ × DbHandler) :=
  match data with
  | none => some (1, h)
  | some data =>
    if !([1, 2].all fun pos => h.bind .insertCall (binds pos)) then some (1, h)
    else
      -- the third value bound is what `parse_datetime` makes of the date and the time of day
      match bindRow z data with
      | none => none
      | some row =>
        if !([3, 4, 5, 6, 7].all fun pos => h.bind .insertCall (binds pos)) then some (1, h)
        else
          let h := h.step .insertCall
          match rc with
          | .last .done =>
            some (0, ({ h with rows := h.rows ++ [row] }).reset .insertCall)
          | _ => some (1, h)

/-- `dbhandler_get_num_calls`; a column read without a row is 0. -/
def DbHandler.getNumCalls (h : DbHandler) (rc : StepResult ℤ) : ℤ × DbHandler :=
  let h := h.step .getNumCalls
  match rc with
  | .last .busy | .last .error => (0, h.reset .getNumCalls)
  | .last .done => (0, h.reset .getNumCalls)
  | .row count => (toGulong (toInt count), h.reset .getNumCalls)

/-- `dbhandler_get_caller`: what it returns and the name it copies out. The row has the name,
`none` for NULL; the binds are not looked at. -/
def DbHandler.getCaller (h : DbHandler) (number : Option CStr) (rc : StepResult (Option CStr)) :
    ℕ × Option CStr × DbHandler :=
  if !isValidNumber number then (1, none, h)
  else
    let h := h.step .getCaller
    match rc with
    | .row buf => (0, buf.map fun name => strlcpy name 256, h.reset .getCaller)
    | .last _ => (1, none, h.reset .getCaller)

/-- The loop over the rows: the calls read so far, last one first, and one more step. -/
def DbHandler.readRows (z : Zone) : List (ℤ × CallRow) → List CIDbCall → DbHandler →
    List CIDbCall × DbHandler
  | [], list, h => (list, h.step .getCalls)
  | row :: rows, list, h =>
    readRows z rows (⟨row.1, readRow z row.2⟩ :: list) (h.step .getCalls)

/-- The loop that gets the callers, with the answers to their steps. -/
def DbHandler.getCallers (env : Surroundings) : List CIDbCall →
    (ℕ → StepResult (Option CStr)) → DbHandler → List CIDbCall × DbHandler
  | [], _, h => ([], h)
  | call :: calls, answers, h =>
    let number := some (call.data .cidsNumberComplete)
    let (_, caller, h) :=
      if isValidNumber number then h.getCaller number (answers 0) else (1, none, h)
    let (calls, h) := getCallers env calls (fun i => answers (i + 1)) h
    ({ call with data := completeCall env caller call.data } :: calls, h)

/-- `dbhandler_get_calls`: `rows` are the rows stepped to and `rc` is the result that ends the
loop. -/
def DbHandler.getCalls (z : Zone) (env : Surroundings) (h : DbHandler)
    (rows : List (ℤ × CallRow)) (rc : StepEnd) (answers : ℕ → StepResult (Option CStr)) :
    Option (List CIDbCall) × DbHandler :=
  let (list, h) := readRows z rows [] h
  let h := h.reset .getCalls
  if rc = .done then
    let (list, h) := getCallers env list answers h
    (some list, h)
  else (none, h)

/-- A call of one of the handlers with the answers it gets. -/
inductive DbCall
  | addData (data : Option CIDataSet) (binds : ℕ → Bool) (rc : StepResult Unit)
  | getNumCalls (rc : StepResult ℤ)
  | getCalls (rows : List (ℤ × CallRow)) (rc : StepEnd) (answers : ℕ → StepResult (Option CStr))
  | getCaller (number : Option CStr) (rc : StepResult (Option CStr))

/-- `none` where the call has no defined behaviour. -/
def DbHandler.call (z : Zone) (env : Surroundings) (h : DbHandler) : DbCall → Option DbHandler
  | .addData data binds rc => (h.addData z data binds rc).map Prod.snd
  | .getNumCalls rc => some (h.getNumCalls rc).2
  | .getCalls rows rc answers => some (h.getCalls z env rows rc answers).2
  | .getCaller number rc => some (h.getCaller number rc).2.2

/-- The state behind a call, `none` from the first call without a defined behaviour on. -/
def callStep (z : Zone) (env : Surroundings) (h : Option DbHandler) (c : DbCall) :
    Option (Option DbHandler) :=
  some (h.bind fun h => h.call z env c)

end Fritz2ci
