import Fritz2ci.Lib.LocalTime
import Fritz2ci.Spec.Main

/-! `dbhandler.c`: a call on its way into a row of `cidata` and back. Its date and time of day
are stored as one integer. -/

namespace Fritz2ci

open CString CTime

/-- The conversion of a 64-bit integer to `int`, which `sqlite3_bind_int` takes. -/
def toInt (n : ℤ) : ℤ := n.bmod (2 ^ 32)

def toGulong (n : ℤ) : ℤ := n % 2 ^ 64

def toTime (n : ℤ) : ℤ := n.bmod (2 ^ 64)

def atoi (s : CStr) : ℤ := toInt (strtol s)

/-- `while (s[j] != sep) { buf[i++] = s[j++]; }` and the step over the separator: what is in
`buf` and what is left of the string. `none` if there is no separator to stop at, or no room in
the 64 bytes of `buf`. -/
def copyUntil (sep : UInt8) (s : CStr) : Option (CStr × CStr) :=
  let buf := s.takeWhile (· ≠ sep)
  if buf.length < s.length ∧ buf.length < 64 then some (buf, s.drop (buf.length + 1)) else none

/-- The three numbers of a date or of a time of day. -/
def splitNumbers (sep : UInt8) (s : CStr) : Option (ℤ × ℤ × ℤ) := do
  let (a, s) ← copyUntil sep s
  let (b, s) ← copyUntil sep s
  if s.length < 64 then some (atoi a, atoi b, atoi s) else none

/-- The difference of two `int`s, the second not negative; `none` where it overflows. -/
def subInt (a b : ℤ) : Option ℤ := if -2 ^ 31 ≤ a - b then some (a - b) else none

def parseDate (date : Option CStr) (t : BrokenDown) : Option BrokenDown :=
  match date with
  | none => some t
  | some s => do
    let (year, mon, mday) ← splitNumbers 45 s
    let year ← subInt year 1900
    let mon ← subInt mon 1
    some { t with year, mon, mday }

def parseTime (time : Option CStr) (t : BrokenDown) : Option BrokenDown :=
  match time with
  | none => some t
  | some s => (splitNumbers 58 s).map fun n =>
      { t with hour := n.1, min := n.2.1, sec := n.2.2 }

/-- `parse_datetime`; without daylight saving time `tm_isdst` makes no difference. -/
def parseDatetime (z : Zone) (date time : Option CStr) : Option ℤ :=
  ((parseDate date BrokenDown.zero).bind (parseTime time)).map fun t => toGulong (mktime z t)

/-- The columns of `cidata` behind its key. -/
structure CallRow where
  number : CStr
  name : CStr
  timestamp : ℤ
  msn : CStr
  msnAlias : CStr
  service : CStr
  fix : CStr
  deriving DecidableEq, Repr

/-- The values that `dbhandler_add_data` binds. -/
def bindRow (z : Zone) (data : CIDataSet) : Option CallRow :=
  (parseDatetime z (some (data .cidsDate)) (some (data .cidsTime))).map fun timestamp =>
    { number := data .cidsNumberComplete
      name := data .cidsName
      timestamp := toInt timestamp
      msn := data .cidsMSN
      msnAlias := data .cidsAlias
      service := data .cidsService
      fix := data .cidsFix }

/-- One turn of the first loop of `dbhandler_get_calls`, on a zeroed `CIDbCall`. -/
def readRow (z : Zone) (row : CallRow) : CIDataSet
  | .cidsNumberComplete => strlcpy row.number 32
  | .cidsName => strlcpy row.name 256
  | .cidsDate =>
    strftime 16 (formatIsoDate (localtime z (toTime (toGulong row.timestamp))))
  | .cidsTime =>
    strftime 16 (formatTime (localtime z (toTime (toGulong row.timestamp))))
  | .cidsMSN => strlcpy row.msn 16
  | .cidsAlias => strlcpy row.msnAlias 256
  | .cidsService => strlcpy row.service 256
  | .cidsFix => strlcpy row.fix 256
  | .cidsNumber | .cidsArea | .cidsAreaCode => []

/-- One turn of the second loop, with the name that `dbhandler_get_caller` copies out. -/
def completeCall (env : Surroundings) (caller : Option CStr) (data : CIDataSet) : CIDataSet :=
  if isValidNumber (some (data .cidsNumberComplete)) then
    let data := (ciGetAreaCode env.areaCodes env.areaFile (data .cidsNumberComplete)).2.foldl
      (fun d w => Function.update d w.1.field w.2) data
    match caller with
    | some name => Function.update data .cidsName name
    | none => data
  else data

/-- The data set that `dbhandler_get_calls` returns for a row. -/
def readCall (z : Zone) (env : Surroundings) (caller : Option CStr) (row : CallRow) : CIDataSet :=
  completeCall env caller (readRow z row)

structure CIDbCall where
  id : ℤ
  data : CIDataSet

example : atoi (ascii "2147483648") = -2147483648 := by decide

end Fritz2ci
