import Fritz2ci.Lib.Socket
import Fritz2ci.Spec.CIData

/-! `ci-server.c`: the client list and `cisrv_broadcast_message`. The encoding of a message
by libcinet is a parameter. -/

namespace Fritz2ci

open CString Socket

inductive CIServerMsg
  | message | update | disconnect | complete | call
  deriving DecidableEq, Repr

structure CIClient where
  sock : ℕ
  flags : UInt64
  version : UInt32
  /-- the connection `sock` was accepted for, which the code does not see -/
  conn : ℕ
  deriving DecidableEq, Repr

def CISRV_CLIENT_REMOVE : UInt64 := (1 : UInt64) <<< 0

def CIClient.markRemove (client : CIClient) : CIClient :=
  { client with flags := client.flags ||| CISRV_CLIENT_REMOVE }

def CIClient.Marked (client : CIClient) : Prop := client.flags &&& CISRV_CLIENT_REMOVE ≠ 0

instance (client : CIClient) : Decidable client.Marked := inferInstanceAs (Decidable (_ ≠ _))

def CI_MAKE_VERSION (maj min pat : UInt32) : UInt32 :=
  (maj <<< 16 ||| min <<< 8 ||| pat) &&& 0x00ffffff

def CI_VERSION_MAJ (ver : UInt32) : UInt32 := (ver >>> 16) &&& 0x000000ff
def CI_VERSION_MIN (ver : UInt32) : UInt32 := (ver >>> 8) &&& 0x000000ff
def CI_VERSION_PAT (ver : UInt32) : UInt32 := ver &&& 0x000000ff

def CI_CHECK_VERSION (ver min : UInt32) : Bool :=
  CI_VERSION_MAJ min ≤ CI_VERSION_MAJ ver && CI_VERSION_MIN min ≤ CI_VERSION_MIN ver &&
    CI_VERSION_PAT min ≤ CI_VERSION_PAT ver

/-- `_cisrv_add_client` -/
def cisrvAddClient (sock conn : ℕ) (clientlist : List CIClient) : List CIClient :=
  clientlist ++ [{ sock := sock, flags := 0, version := CI_MAKE_VERSION 2 0 0, conn := conn }]

/-- `_cisrv_remove_marked_clients`: the clients left and the descriptors shut down. -/
def cisrvRemoveMarkedClients : List CIClient → List CIClient × List ℕ
  | [] => ([], [])
  | client :: tmp =>
    let (clientlist, closed) := cisrvRemoveMarkedClients tmp
    if client.flags &&& CISRV_CLIENT_REMOVE ≠ 0 then (clientlist, client.sock :: closed)
    else (client :: clientlist, closed)

inductive CINetMsgType
  | eventRing | eventCall | shutdown
  deriving DecidableEq, Repr

inductive MultipartStage
  | init | update | complete
  deriving DecidableEq, Repr

inductive CINetValue
  | string (s : Option CStr)
  | stage (s : MultipartStage)

/-- A message with the values set on it, in order. -/
structure CINetMsg where
  msgtype : CINetMsgType
  values : List (String × CINetValue)

def CINetMsg.setValue (msg : CINetMsg) (key : String) (value : CINetValue) : CINetMsg :=
  { msg with values := msg.values ++ [(key, value)] }

/-- `data->f[0] ? data->f : NULL` under a key. -/
def CINetMsg.setField (data : CIDataSet) (msg : CINetMsg) (entry : String × CIField) : CINetMsg :=
  let s := data entry.2
  msg.setValue entry.1 (.string (if byteAt s 0 ≠ 0 then some s else none))

def ringFields : List (String × CIField) :=
  [("completenumber", .cidsNumberComplete), ("number", .cidsNumber), ("name", .cidsName),
    ("date", .cidsDate), ("time", .cidsTime), ("msn", .cidsMSN), ("alias", .cidsAlias),
    ("area", .cidsArea), ("areacode", .cidsAreaCode)]

def callFields : List (String × CIField) :=
  [("completenumber", .cidsNumberComplete), ("date", .cidsDate), ("time", .cidsTime),
    ("msn", .cidsMSN), ("alias", .cidsAlias)]

def eventRing (data : CIDataSet) (msgid : Option CStr) : CINetMsg :=
  let msg := ringFields.foldl (CINetMsg.setField data) ⟨.eventRing, []⟩
  match msgid with
  | some s => msg.setValue "msgid" (.string (some s))
  | none => msg

/-- The message for clients that frame it, `none` where the broadcast returns 1. -/
def netMessage (msgtype : CIServerMsg) (data : Option CIDataSet) (msgid : Option CStr) :
    Option CINetMsg :=
  match msgtype, data with
  | .message, some data => some ((eventRing data msgid).setValue "stage" (.stage .init))
  | .update, some data => some ((eventRing data msgid).setValue "stage" (.stage .update))
  | .complete, some data => some ((eventRing data msgid).setValue "stage" (.stage .complete))
  | .call, some data => some (callFields.foldl (CINetMsg.setField data) ⟨.eventCall, []⟩)
  | .disconnect, _ => some ⟨.shutdown, []⟩
  | _, none => none

def msgCode : CIServerMsg → UInt8
  | .message => 109
  | .update => 117
  | .disconnect => 100
  | .complete => 99
  | .call => 63

/-- The bytes of the `CINetMessage` that older clients get. -/
def legacyMessage (msgtype : CIServerMsg) (data : Option CIDataSet) : List UInt8 :=
  msgCode msgtype :: (data.getD CIDataSet.zero).bytes

def sizeofCINetMessage : ℕ := 1 + sizeofCIDataSet

/-- A signed result as the `size_t` it is converted to next to a `sizeof`. -/
def toSize (rc : Int) : ℕ := (rc % 2 ^ 64).toNat

/-- The loop of `send` calls over a framed message: the buffers handed to `send`, and
whether the client gets marked. -/
def sendFramed (answer : ℕ → SendAnswer) (msgdata : List UInt8) (bytesWritten : ℕ) :
    List (List UInt8) × Bool :=
  if _ : bytesWritten < msgdata.length then
    let rc := (answer 0).rc (msgdata.length - bytesWritten)
    if _ : rc ≤ 0 then ([msgdata.drop bytesWritten], true)
    else
      let (sent, marked) := sendFramed (fun k => answer (k + 1)) msgdata (bytesWritten + rc.toNat)
      (msgdata.drop bytesWritten :: sent, marked)
  else ([], false)
termination_by msgdata.length - bytesWritten
decreasing_by omega

/-- The single `send` of the struct. The comparison is between `size_t`s. -/
def sendLegacy (answer : ℕ → SendAnswer) (cmsg : List UInt8) : List (List UInt8) × Bool :=
  ([cmsg], decide (toSize ((answer 0).rc sizeofCINetMessage) < sizeofCINetMessage))

/-- What the loop over the clients does for one of them. -/
def sendToClient (msgtype : CIServerMsg) (msgdata cmsg : List UInt8) (answer : ℕ → SendAnswer)
    (client : CIClient) : List (List UInt8) × CIClient :=
  let (sent, marked) :=
    if CI_CHECK_VERSION client.version (CI_MAKE_VERSION 3 0 0) then sendFramed answer msgdata 0
    else if msgtype ≠ .call then sendLegacy answer cmsg
    else ([], false)
  (sent, if marked then client.markRemove else client)

/-- What a broadcast returns and leaves behind, with the buffers sent to each client of the
list it found and the descriptors it closed. -/
structure Broadcast where
  rc : ℕ
  sent : List (List (List UInt8))
  clientlist : List CIClient
  closed : List ℕ

/-- `cisrv_broadcast_message`. `answers i k` is what the call number `k` of `send` on the
client number `i` meets. -/
def cisrvBroadcastMessage (encode : CINetMsg → List UInt8) (answers : ℕ → ℕ → SendAnswer)
    (msgtype : CIServerMsg) (data : Option CIDataSet) (msgid : Option CStr)
    (clientlist : List CIClient) : Broadcast :=
  match netMessage msgtype data msgid with
  | none => ⟨1, clientlist.map fun _ => [], clientlist, []⟩
  | some msg =>
    let send i := sendToClient msgtype (encode msg) (legacyMessage msgtype data) (answers i)
    let results := clientlist.mapIdx send
    let (left, closed) := cisrvRemoveMarkedClients (results.map Prod.snd)
    ⟨0, results.map Prod.fst, left, closed⟩

/-- From 3.0.0 on the check compares the major version alone. -/
theorem checkVersion_three_iff (ver : UInt32) :
    CI_CHECK_VERSION ver (CI_MAKE_VERSION 3 0 0) ↔ 3 ≤ CI_VERSION_MAJ ver := by
  have hmaj : CI_VERSION_MAJ (CI_MAKE_VERSION 3 0 0) = 3 := by decide
  have hmin : CI_VERSION_MIN (CI_MAKE_VERSION 3 0 0) = 0 := by decide
  have hpat : CI_VERSION_PAT (CI_MAKE_VERSION 3 0 0) = 0 := by decide
  simp [CI_CHECK_VERSION, hmaj, hmin, hpat]

@[simp] theorem marked_markRemove (client : CIClient) : client.markRemove.Marked := by
  intro h
  have hbit := congrArg (fun f => f.toBitVec.getLsbD 0) h
  simp [CIClient.markRemove, CISRV_CLIENT_REMOVE] at hbit

theorem removeMarkedClients_eq (clientlist : List CIClient) :
    cisrvRemoveMarkedClients clientlist = (clientlist.filter fun c => ¬ c.Marked,
      (clientlist.filter fun c => c.Marked).map CIClient.sock) := by
  induction clientlist with
  | nil => rfl
  | cons client tmp ih =>
    by_cases h : client.Marked
    · simp [cisrvRemoveMarkedClients, show _ ≠ _ from h, h, ih]
    · have h' : client.flags &&& CISRV_CLIENT_REMOVE = 0 := not_not.1 h
      simp [cisrvRemoveMarkedClients, h', h, ih]

end Fritz2ci
