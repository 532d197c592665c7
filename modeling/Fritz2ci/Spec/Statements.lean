import Fritz2ci.Lib.SqlText
import Fritz2ci.Spec.Lookup

/-! The statements that `dbhandler.c` and `lookup.c` have `sqlite3_mprintf` write. -/

namespace Fritz2ci

open CString SqlText

inductive Statement
  | updateCaller (user : ℤ) (number name : CStr)
  | insertCaller (user : ℤ) (number name : CStr)
  | deleteCaller (user : ℤ) (number : CStr) (name : Option CStr)
  | selectCallers (user : ℤ) (filter : Option CStr)
  | insertCache (caller : CICaller)

def Statement.format : Statement → List UInt8
  | .updateCaller .. => ascii "update cicaller set name=%Q where clientid=%d and number=%Q"
  | .insertCaller .. => ascii "insert into cicaller (clientid,number,name) values (%d,%Q,%Q)"
  | .deleteCaller .. => ascii "delete from cicaller where clientid=%d and number=%Q and name=%Q"
  | .selectCallers _ none | .selectCallers _ (some []) =>
    ascii "select number, name from cicaller where clientid=%d"
  | .selectCallers _ (some (_ :: _)) =>
    ascii "select number, name from cicaller where clientid=%d and " ++
      ascii "(name like '%%%q%%' or number like '%%%q%%')"
  | .insertCache _ =>
    ascii "insert into %s (number, name, city, street, postalcode, comment, category) " ++
      ascii "values (%Q,%Q,%Q,%Q,%Q,%Q,%d)"

def Statement.args : Statement → List FormatArg
  | .updateCaller user number name => [.text name, .int user, .text number]
  | .insertCaller user number name => [.int user, .text number, .text name]
  | .deleteCaller user number name => [.int user, .text number, .text name]
  | .selectCallers user none | .selectCallers user (some []) => [.int user]
  | .selectCallers user (some (b :: filter)) =>
    [.int user, .text (some (b :: filter)), .text (some (b :: filter))]
  | .insertCache caller =>
    [.text (ascii "callercache"), .text caller.numberComplete, .text (caller.fields .name),
      .text (caller.fields .city), .text (caller.fields .street),
      .text (caller.fields .postalCode), .text none, .int 0]

def Statement.sql (st : Statement) : List UInt8 := mprintf st.format st.args

end Fritz2ci
