import Fritz2ci.Spec.CallRows
import Fritz2ci.Spec.ClientMessage
import Mathlib.Data.List.Sort

/-! `ci-server.c`: what the handlers of `_cisrv_handle_client_message` answer from the two
tables, with `dbhandler_get_num_calls` and `dbhandler_get_calls`. SQL statements have their
standard meaning and do not fail; no call is stored while a request is handled. -/

namespace Fritz2ci

open CString

/-- The `caller` of a message. -/
structure CINetCaller where
  number : Option CStr
  name : Option CStr
  deriving DecidableEq, Repr

inductive ClientMsg
  | version (major minor patch : UInt32)
  | leave
  | dbNumCalls
  | dbCallList (user offset count : ℤ)
  | dbGetCaller (user : ℤ) (caller : CINetCaller)
  | dbAddCaller (user : ℤ) (caller : CINetCaller)
  | dbDelCaller (user : ℤ) (caller : CINetCaller)
  | dbGetCallerList (user : ℤ) (filter : Option CStr)
  | unhandled
  deriving DecidableEq, Repr

/-- What `cinet_msg_read_msg` makes of a message, with the fields that the handlers read. -/
structure ClientRequest where
  guid : UInt32
  msg : ClientMsg
  deriving DecidableEq, Repr

/-- The kind of a request, all that its effect on the client depends on. -/
def ClientMsg.kind : ClientMsg → CINetRequest
  | .version major minor patch => .version major minor patch
  | .leave => .leave
  | .dbNumCalls => .dbNumCalls
  | .dbCallList .. => .dbCallList
  | .dbGetCaller .. => .dbGetCaller
  | .dbAddCaller .. => .dbAddCaller
  | .dbDelCaller .. => .dbDelCaller
  | .dbGetCallerList .. => .dbGetCallerList
  | .unhandled => .unhandled

/-- An entry of a call list. -/
structure CICallInfo where
  id : ℤ
  values : List (String × CStr)
  deriving DecidableEq, Repr

inductive ServerMsg
  | version (major minor patch : ℕ)
  | leave
  | dbNumCalls (count : ℤ)
  | dbCallList (user offset count : ℤ) (calls : List CICallInfo)
  | dbGetCaller (user : ℤ) (number name : Option CStr)
  | dbAddCaller (user : ℤ) (caller : CINetCaller)
  | dbDelCaller (user : ℤ) (caller : CINetCaller)
  | dbGetCallerList (user : ℤ) (filter : Option CStr) (callers : List (CStr × CStr))
  deriving DecidableEq, Repr

structure ServerReply where
  guid : UInt32
  msg : ServerMsg
  deriving DecidableEq, Repr

/-- The rows of `cidata` with their keys: no row is ever deleted, so the next key is one more
than their number. `none` when a data set runs `parse_datetime` out of its buffer. -/
def cidataRows (z : CTime.Zone) (cidata : List CIDataSet) : Option (List (ℤ × CallRow)) :=
  (cidata.mapM (bindRow z)).map fun rows => rows.mapIdx fun i row => ((i : ℤ) + 1, row)

/-- `dbhandler_get_num_calls` -/
def dbhandlerGetNumCalls (db : Database) : ℤ := toGulong (toInt db.cidata.length)

/-- `limit ?,?`: a negative offset is none, a negative count is no limit. -/
def sqlLimit {α : Type} (offset count : ℤ) (rows : List α) : List α :=
  if count < 0 then rows.drop offset.toNat else (rows.drop offset.toNat).take count.toNat

/-- An order that `order by timestamp desc` allows. -/
def TimestampDesc (rows ordered : List (ℤ × CallRow)) : Prop :=
  ordered.Perm rows ∧ ordered.Pairwise fun r s => s.2.timestamp ≤ r.2.timestamp

/-- Calls of one second in the order of their insertion. -/
def byTimestamp (rows : List (ℤ × CallRow)) : List (ℤ × CallRow) :=
  rows.insertionSort fun r s => s.2.timestamp ≤ r.2.timestamp

theorem byTimestamp_desc (rows : List (ℤ × CallRow)) : TimestampDesc rows (byTimestamp rows) := by
  refine ⟨List.perm_insertionSort _ rows, ?_⟩
  have : Std.Total fun r s : ℤ × CallRow => s.2.timestamp ≤ r.2.timestamp :=
    ⟨fun r s => le_total _ _⟩
  have : IsTrans (ℤ × CallRow) fun r s => s.2.timestamp ≤ r.2.timestamp :=
    ⟨fun r s t h h' => le_trans h' h⟩
  exact List.pairwise_insertionSort _ rows

/-- What a request finds around it: the time zone, the area codes, the LIKE operator, and the
order in which the engine delivers the rows of `cidata`. -/
structure RequestEnv where
  zone : CTime.Zone
  surroundings : Surroundings
  like : CStr → CStr → Bool
  ordered : List (ℤ × CallRow) → List (ℤ × CallRow)
  desc : ∀ rows, TimestampDesc rows (ordered rows)

/-- One entry of the list, from the row to the end of the second loop. -/
def readDbCall (env : RequestEnv) (user : ℤ) (db : Database) (r : ℤ × CallRow) : CIDbCall where
  id := toInt r.1
  data := readCall env.zone env.surroundings
    (dbhandlerGetCaller user (some (strlcpy r.2.number 32)) db) r.2

/-- `dbhandler_get_calls`: the rows are prepended, so the last one comes first. -/
def dbhandlerGetCalls (env : RequestEnv) (user offset count : ℤ) (db : Database) :
    Option (List CIDbCall) :=
  (cidataRows env.zone db.cidata).map fun rows =>
    (sqlLimit offset count (env.ordered rows)).reverse.map (readDbCall env user db)

def callInfoFields : List (String × CIField) :=
  [("completenumber", .cidsNumberComplete), ("areacode", .cidsAreaCode), ("number", .cidsNumber),
    ("date", .cidsDate), ("time", .cidsTime), ("msn", .cidsMSN), ("alias", .cidsAlias),
    ("area", .cidsArea), ("name", .cidsName)]

def CIDbCall.info (call : CIDbCall) : CICallInfo :=
  ⟨call.id, callInfoFields.map fun f => (f.1, call.data f.2)⟩

/-- The handler of a message: the database behind it and the reply handed to `send`. -/
def handleClientMsg (env : RequestEnv) (db : Database) : ClientMsg →
    Option (Database × Option ServerMsg)
  | .version .. => some (db, some (.version 3 0 0))
  | .leave => some (db, some .leave)
  | .dbNumCalls => some (db, some (.dbNumCalls (dbhandlerGetNumCalls db)))
  | .dbCallList user offset count =>
    -- the loop over the calls prepends and reverses
    (dbhandlerGetCalls env user offset count db).map fun calls =>
      (db, some (.dbCallList user offset count (calls.map CIDbCall.info)))
  | .dbGetCaller user caller =>
    some (db, some (.dbGetCaller user caller.number (dbhandlerGetCaller user caller.number db)))
  | .dbAddCaller user caller =>
    -- the result is not looked at, and the message goes back as it came
    some ((dbhandlerAddCaller user caller.number caller.name db).2, some (.dbAddCaller user caller))
  | .dbDelCaller user caller =>
    some ((dbhandlerRemoveCaller user caller.number caller.name db).2,
      some (.dbDelCaller user caller))
  | .dbGetCallerList user filter =>
    some (db, some (.dbGetCallerList user filter (dbhandlerGetCallers env.like user filter db)))
  | .unhandled => some (db, none)

/-- The two tables, the clients, and everything handed to `send` for a reply, with the
connection of the client. -/
structure Service where
  db : Database
  clientlist : List CIClient
  accepted : ℕ
  sent : List (ℕ × ServerReply)

inductive ServiceEvent
  | connect (sock : ℕ)
  /-- a message of an unmarked client; a marked one is removed before the next `select` -/
  | request (conn : ℕ) (env : RequestEnv) (r : ClientRequest)
  | removeMarked
  /-- the Fritz thread stores a call -/
  | ring (data : CIDataSet)

def serviceStep (s : Service) : ServiceEvent → Option Service
  | .connect sock => some { s with
      clientlist := cisrvAddClient sock s.accepted s.clientlist
      accepted := s.accepted + 1 }
  | .request conn env r =>
    if ∃ client ∈ s.clientlist, client.conn = conn ∧ ¬ client.Marked then
      (handleClientMsg env s.db r.msg).map fun p => { s with
        db := p.1
        clientlist := s.clientlist.map fun client =>
          if client.conn = conn then handleRequest client r.msg.kind else client
        sent := s.sent ++ (p.2.map fun m => (conn, ⟨r.guid, m⟩)).toList }
    else none
  | .removeMarked => some { s with clientlist := (cisrvRemoveMarkedClients s.clientlist).1 }
  | .ring data => some { s with db := (dbhandlerAddData true data s.db).2 }

end Fritz2ci
