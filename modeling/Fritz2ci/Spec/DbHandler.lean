import Fritz2ci.Lib.KeyedTable
import Fritz2ci.Spec.CIData

/-! `dbhandler.c`: the two tables, the SQL statements in their standard meaning, and the
handlers. `changes` is what `sqlite3_changes` returns for the shared connection. -/

namespace Fritz2ci

open CString KeyedTable

/-- A row of `cicaller`; its schema declares no key. -/
structure CallerRow where
  clientid : Int
  number : CStr
  name : CStr
  deriving DecidableEq, Repr

def CallerRow.key (r : CallerRow) : Int × CStr := (r.clientid, r.number)

structure Database where
  cidata : List CIDataSet
  cicaller : List CallerRow
  changes : ℕ

def Database.empty : Database := ⟨[], [], 0⟩

def isValidNumber : Option CStr → Bool
  | none => false
  | some s => s ≠ [] && s.all isDigit

/-- `dbhandler_add_data` for a database that accepts or refuses the insert. -/
def dbhandlerAddData (accepts : Bool) (data : CIDataSet) (db : Database) : ℕ × Database :=
  if accepts then (0, { db with cidata := db.cidata ++ [data], changes := 1 }) else (1, db)

/-- `update cicaller set name=.. where clientid=.. and number=..` -/
def sqlUpdateCaller (user : Int) (number name : CStr) (db : Database) : Database :=
  { db with
    cicaller := db.cicaller.map fun r => if r.key = (user, number) then { r with name } else r
    changes := db.cicaller.countP fun r => r.key = (user, number) }

/-- `insert into cicaller (clientid,number,name) values (..)` -/
def sqlInsertCaller (user : Int) (number name : CStr) (db : Database) : Database :=
  { db with cicaller := db.cicaller ++ [⟨user, number, name⟩], changes := 1 }

/-- `delete from cicaller where clientid=.. and number=.. and name=..`; a NULL name equals
no name. -/
def sqlDeleteCaller (user : Int) (number : CStr) (name : Option CStr) (db : Database) : Database :=
  match name with
  | none => { db with changes := 0 }
  | some name => { db with
      cicaller := db.cicaller.filter fun r => !(r.key = (user, number) && r.name = name)
      changes := db.cicaller.countP fun r => r.key = (user, number) && r.name = name }

/-- `dbhandler_add_caller` when no other thread uses the connection. -/
def dbhandlerAddCaller (user : Int) (number name : Option CStr) (db : Database) : ℕ × Database :=
  match number, name with
  | some number, some name =>
    if !isValidNumber (some number) then (1, db)
    else
      let db := sqlUpdateCaller user number name db
      if db.changes = 0 then
        let db := sqlInsertCaller user number name db
        if 0 < db.changes then (0, db) else (1, db)
      else (0, db)
  | _, _ => (1, db)

/-- `dbhandler_remove_caller` -/
def dbhandlerRemoveCaller (user : Int) (number name : Option CStr) (db : Database) :
    ℕ × Database :=
  match number with
  | none => (1, db)
  | some n => if !isValidNumber (some n) then (1, db) else (0, sqlDeleteCaller user n name db)

/-- `dbhandler_get_caller`: the name copied out when it returns 0, `none` when it
returns 1. -/
def dbhandlerGetCaller (user : Int) (number : Option CStr) (db : Database) : Option CStr :=
  match number with
  | none => none
  | some n =>
    if !isValidNumber (some n) then none
    else (toMap CallerRow.key CallerRow.name db.cicaller (user, n)).map fun name =>
      strlcpy name 256

/-- `dbhandler_get_callers`: number and name of the selected rows, last one first. `like`
is the LIKE operator, pattern first. -/
def dbhandlerGetCallers (like : CStr → CStr → Bool) (user : Int) (filter : Option CStr)
    (db : Database) : List (CStr × CStr) :=
  let selected : List CallerRow := match filter with
    | none | some [] => db.cicaller.filter fun r => r.clientid = user
    | some q => db.cicaller.filter fun r => r.clientid = user &&
        (like (ascii "%" ++ q ++ ascii "%") r.name || like (ascii "%" ++ q ++ ascii "%") r.number)
  (selected.map fun r => (r.number, r.name)).reverse

theorem sqlUpdateCaller_changes {user : Int} {number name : CStr} {db : Database} :
    (sqlUpdateCaller user number name db).changes = 0 ↔
      ∀ r ∈ db.cicaller, r.key ≠ (user, number) := by
  simp [sqlUpdateCaller]

end Fritz2ci
