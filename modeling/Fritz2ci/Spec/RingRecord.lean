import Fritz2ci.Lib.LocalTime
import Fritz2ci.Spec.Main

/-! `main.c`: `generate_msg_id` and `backup_data_write`, what a ring is named and where it is
written down. -/

namespace Fritz2ci

open CString CTime

/-- `"%03d"` of a number below 1000 -/
def threeDigits (n : ℕ) : CStr := (48 + n / 100 % 10).toUInt8 :: twoDigits n

/-- `"%y%m%d%H%M%S"` -/
def formatStamp (t : Tm) : CStr :=
  twoDigits (t.year % 100) ++ twoDigits (t.mon + 1) ++ twoDigits t.mday ++ twoDigits t.hour ++
    twoDigits t.min ++ twoDigits t.sec

/-- `generate_msg_id` when `gettimeofday` tells these seconds and microseconds. -/
def generateMsgId (z : Zone) (sec : ℤ) (usec : ℕ) : CStr :=
  strftime 16 (formatStamp (localtime z sec)) ++ threeDigits (usec / 1000 % 1000)

/-- `§` in the encoding of the source. -/
def sectionSign : CStr := [194, 167]

def quoted (s : CStr) : CStr := [34] ++ s ++ [34]

/-- The fields that `backup_data_write` prints, in order. -/
def backupFields (set : CIDataSet) : List CStr :=
  [set .cidsNumberComplete, quoted (set .cidsName), quoted (set .cidsDate), quoted (set .cidsTime),
    set .cidsMSN, quoted (set .cidsAlias), quoted (set .cidsService), set .cidsFix]

def backupLine (set : CIDataSet) : CStr := sectionSign.intercalate (backupFields set) ++ [10]

/-- `backup_data_write`, where a backup file is named: what the file holds afterwards, `opened`
being whether `fopen` succeeds. -/
def backupDataWrite (opened : Bool) (file : List UInt8) (set : CIDataSet) : List UInt8 :=
  if opened then file ++ backupLine set else file

example : generateMsgId Zone.utc 0 999999 = ascii "700101000000999" := by decide

end Fritz2ci
