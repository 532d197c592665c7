import Fritz2ci.Spec.AreaCodes
import Fritz2ci.Spec.CIServer
import Fritz2ci.Spec.DbHandler
import Fritz2ci.Spec.MsnLookup
import Fritz2ci.Spec.Notification

/-! `handle_fritz_message`: what one notification makes the program store and send. -/

namespace Fritz2ci

open CString CTime

/-- What the handler finds around it while it runs: the area-code index and file, the MSN
list, the message id of the moment, the name `lookup_get_caller_data` puts into a data set
when it returns 0, and whether the database takes an insert. -/
structure Surroundings where
  areaCodes : AreaCodes
  areaFile : Option (List UInt8)
  msnList : List MSNLookup
  msgid : CStr
  lookup : CIDataSet → Option CStr
  accepts : Bool

/-- The database, `_db_data_todo`, the records written to the backup file and the
broadcasts made. -/
structure Program where
  db : Database
  dbDataTodo : List CIDataSet
  backup : List CIDataSet
  broadcasts : List (CIServerMsg × CIDataSet × Option CStr)

def AreaBuffer.field : AreaBuffer → CIField
  | .numAreaCode => .cidsAreaCode
  | .numNumber => .cidsNumber
  | .strArea => .cidsArea

def strcpyAll (x : Fill) (writes : List (AreaBuffer × CStr)) : Fill :=
  writes.foldl (fun x w => x.strcpy w.1.field w.2) x

/-- `ci_get_area_code` on the fields of the data set. -/
def fillArea (env : Surroundings) (x : Fill) : Fill :=
  strcpyAll x (ciGetAreaCode env.areaCodes env.areaFile (x.set .cidsNumberComplete)).2

/-- `msnl_lookup (set.cidsMSN, set.cidsAlias)` -/
def fillAlias (env : Surroundings) (x : Fill) : Fill :=
  match msnlLookup env.msnList (x.set .cidsMSN) with
  | some a => x.strcpy .cidsAlias a
  | none => x

/-- The data set of a RING as `backup_data_write` gets it. -/
def fillRing (env : Surroundings) (cmsg : CIFritzCallMsg) : Fill :=
  let x := Fill.start.strcpy .cidsTime (strftime 16 (formatTime cmsg.datetime))
  let x := x.strcpy .cidsNumberComplete cmsg.callingNumber
  let x := x.strcpy .cidsMSN cmsg.calledNumber
  let x := x.strcpy .cidsService (ascii "Telefonie")
  let x := x.strcpy .cidsFix (ascii "Fix")
  let x := fillArea env x
  let x := x.strcpy .cidsName (x.set .cidsArea)
  let x := fillAlias env x
  x.strcpy .cidsDate (strftime 16 (formatGermanDate cmsg.datetime))

/-- The date is written a second time behind the backup. -/
def fillRingIso (env : Surroundings) (cmsg : CIFritzCallMsg) : Fill :=
  (fillRing env cmsg).strcpy .cidsDate (strftime 16 (formatIsoDate cmsg.datetime))

def fillCall (env : Surroundings) (cmsg : CIFritzCallMsg) : Fill :=
  let x := Fill.start.strcpy .cidsTime (strftime 16 (formatTime cmsg.datetime))
  let x := x.strcpy .cidsDate (strftime 16 (formatIsoDate cmsg.datetime))
  let x := x.strcpy .cidsNumberComplete cmsg.calledNumber
  let x := x.strcpy .cidsMSN cmsg.callingNumber
  fillAlias env x

/-- The data set with every string that the handler and `ci_get_area_code` write into it. -/
def filled (env : Surroundings) (cmsg : CIFritzCallMsg) : Fill :=
  match cmsg.msgtype with
  | .ring => fillRingIso env cmsg
  | .call => fillCall env cmsg
  | _ => Fill.start

def Program.broadcast (m : CIServerMsg) (set : CIDataSet) (msgid : Option CStr) (p : Program) :
    Program :=
  { p with broadcasts := p.broadcasts ++ [(m, set, msgid)] }

/-- The data set of a RING behind the reverse lookup. -/
def ringSet (env : Surroundings) (cmsg : CIFritzCallMsg) : CIDataSet :=
  let set := (filled env cmsg).set
  match env.lookup set with
  | some name => Function.update set .cidsName name
  | none => set

/-- The section of the handler under `_db_data_queue_lock`. -/
def storeOrQueue (accepts : Bool) (set : CIDataSet) (p : Program) : Program :=
  if p.dbDataTodo.isEmpty then
    let (dbrc, db) := dbhandlerAddData accepts set p.db
    if dbrc ≠ 0 then { p with db := db, dbDataTodo := p.dbDataTodo ++ [set] }
    else { p with db := db }
  else { p with dbDataTodo := p.dbDataTodo ++ [set] }

/-- `handle_fritz_message` with a non-NULL message. -/
def handleFritzMessage (env : Surroundings) (p : Program) (cmsg : CIFritzCallMsg) : Program :=
  match cmsg.msgtype with
  | .ring =>
    let set := (filled env cmsg).set
    let p := { p with backup := p.backup ++ [(fillRing env cmsg).set] }
    let p := p.broadcast .message set (some env.msgid)
    let p := storeOrQueue env.accepts (ringSet env cmsg) p
    let p := if (env.lookup set).isSome then
        p.broadcast .update (ringSet env cmsg) (some env.msgid) else p
    p.broadcast .complete (ringSet env cmsg) (some env.msgid)
  | .call => p.broadcast .call (filled env cmsg).set none
  | _ => p

end Fritz2ci
