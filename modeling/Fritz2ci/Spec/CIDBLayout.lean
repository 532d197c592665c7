import Fritz2ci.Spec.CIDBPayload

/-! The layouts documented in cidbmessages.h as sets of byte strings, apart from the code
that writes and reads them. -/

namespace Fritz2ci

open CString LittleEndian Reading

/-- The length in front of a string: one byte, or 255 and two bytes. -/
def LengthWord (x : List UInt8) (len : UInt16) : Prop :=
  (∃ b : UInt8, b ≠ 255 ∧ x = [b] ∧ len = b.toUInt16) ∨ x = 255 :: bytes16 len

/-- `[string]` -/
def StringWord (x : List UInt8) (str : CStr) : Prop :=
  ∃ p len text, LengthWord p len ∧ text.length = len.toNat ∧ x = p ++ text ∧ str = ofBuffer text

/-- `[table]`: its dimensions, the column names and the rows -/
def TableWord (x : List UInt8) (nrows ncols : UInt16) (names : List CStr)
    (rows : List (List CStr)) : Prop :=
  ∃ y z, x = bytes16 nrows ++ bytes16 ncols ++ y ++ z ∧
    ManyOf StringWord ncols.toNat y names ∧
    ManyOf (ManyOf StringWord ncols.toNat) nrows.toNat z rows

def IsString (x : List UInt8) : Prop := ∃ str, StringWord x str

def IsTable (x : List UInt8) : Prop := ∃ nrows ncols names rows, TableWord x nrows ncols names rows

/-- `[ushort n] [strings ..]` -/
def IsStrings (x : List UInt8) : Prop :=
  ∃ (n : UInt16) (y : List UInt8) (strs : List CStr),
    x = bytes16 n ++ y ∧ ManyOf StringWord n.toNat y strs

/-- `k` bytes of fixed fields and a word of `L` behind them. -/
def Behind (k : ℕ) (L : List UInt8 → Prop) (x : List UInt8) : Prop :=
  ∃ y z, x = y ++ z ∧ y.length = k ∧ L z

/-- The bytes of fixed fields in front of the table of a query, `none` where it has no table. -/
def queryTable : CIDBMsgCmd → Option ℕ
  | .writeCaller => some 4
  | .writeCall => some 0
  | _ => none

def respTable : CIDBMsgCmd → Option ℕ
  | .callerList => some 2
  | .readCaller => some 2
  | .callList => some 2
  | _ => none

def tableOffset (cmd subcmd : UInt8) : Option ℕ :=
  (CIDBMsgCmd.ofCode cmd).bind fun c =>
    if subcmd = CIDBMSG_SUBCMD_QUERY then queryTable c
    else if subcmd = CIDBMSG_SUBCMD_RESP then respTable c
    else none

/-- The row offsets of a table can be computed as `int`s. -/
def RowsIndexed (nrows ncols : UInt16) : Prop := (nrows.toNat - 1) * ncols.toNat < 2 ^ 31

instance (nrows ncols : UInt16) : Decidable (RowsIndexed nrows ncols) :=
  inferInstanceAs (Decidable (_ < _))

/-- What stands behind the header of a query. -/
def IsQuery : CIDBMsgCmd → List UInt8 → Prop
  | .register => fun x => x.length = 0
  | .callerList => Behind 2 IsString
  | .readCaller => Behind 4 IsString
  | .writeCaller => Behind 4 IsTable
  | .writeCall => IsTable
  | .callList => fun x => x.length = 6
  | .showtables => fun x => x.length = 0
  | .describeTable => IsString
  | .deleteCaller => Behind 2 IsStrings
  | .listInfo => fun x => x.length = 0
  | .listen => fun x => x.length = 4

/-- What stands behind the header of a response. -/
def IsResponse : CIDBMsgCmd → List UInt8 → Prop
  | .register => fun x => x.length = 4
  | .callerList => Behind 2 IsTable
  | .readCaller => Behind 2 IsTable
  | .writeCaller => fun x => x.length = 6
  | .writeCall => fun x => x.length = 6
  | .callList => Behind 2 IsTable
  | .showtables => Behind 2 IsStrings
  | .describeTable => Behind 2 IsStrings
  | .deleteCaller => fun x => x.length = 2
  | .listInfo => fun x => x.length = 6
  | .listen => fun x => x.length = 2

def lengthBytes (len : UInt16) : List UInt8 :=
  if 255 ≤ len then 255 :: bytes16 len else [len.toUInt8]

/-- A string as it is written: its length in 16 bits and as many of its bytes. -/
def stringBytes (str : Option CStr) : List UInt8 :=
  lengthBytes (strlen str) ++ (str.getD []).take (strlen str).toNat

section Payload

variable (stray : ℕ → Option CStr)

/-- The names and the rows of a table, with the offsets of the rows in 16 bits. -/
def tableStrings (table : CIDBTable) : List (Option CStr) :=
  table.names stray ++ (List.range table.nrows.toNat).flatMap fun i =>
    (List.range table.ncols.toNat).map fun j =>
      entry stray table.fields (i * table.ncols.toNat % 2 ^ 16 + j)

def tableBytes (table : CIDBTable) : List UInt8 :=
  bytes16 table.nrows ++ bytes16 table.ncols ++ (tableStrings stray table).flatMap stringBytes

variable (dbmsg : CIDBMessage)

def firstString : Option CStr := if dbmsg.stringlist.isSome then dbmsg.string stray 0 else none

def stringsBytes : List UInt8 :=
  bytes16 dbmsg.nstrings ++
    (List.range dbmsg.nstrings.toNat).flatMap fun i => stringBytes (dbmsg.string stray i)

def optionalStringsBytes : List UInt8 :=
  if dbmsg.stringlist.isSome then stringsBytes stray dbmsg else bytes16 0

def queryPayload : CIDBMsgCmd → List UInt8
  | .register => []
  | .callerList => bytes16 dbmsg.userid ++ stringBytes (firstString stray dbmsg)
  | .readCaller =>
    bytes16 dbmsg.userid ++ bytes16 dbmsg.flags.toUInt16 ++ stringBytes (firstString stray dbmsg)
  | .writeCaller =>
    bytes16 dbmsg.userid ++ bytes16 dbmsg.flags.toUInt16 ++ tableBytes stray dbmsg.table
  | .writeCall => tableBytes stray dbmsg.table
  | .callList => bytes32 dbmsg.offset ++ bytes16 dbmsg.count
  | .showtables => []
  | .describeTable =>
    if dbmsg.stringlist.isSome then stringBytes (dbmsg.string stray 0) else bytes16 0
  | .deleteCaller => bytes16 dbmsg.userid ++ stringsBytes stray dbmsg
  | .listInfo => []
  | .listen => bytes32 dbmsg.mask

def respPayload : CIDBMsgCmd → List UInt8
  | .register => bytes16 dbmsg.errcode ++ bytes16 dbmsg.clientid
  | .callerList => bytes16 dbmsg.errcode ++ tableBytes stray dbmsg.table
  | .readCaller => bytes16 dbmsg.errcode ++ tableBytes stray dbmsg.table
  | .writeCaller => bytes16 dbmsg.errcode ++ bytes32 dbmsg.index
  | .writeCall => bytes16 dbmsg.errcode ++ bytes32 dbmsg.index
  | .callList => bytes16 dbmsg.errcode ++ tableBytes stray dbmsg.table
  | .showtables => bytes16 dbmsg.errcode ++ optionalStringsBytes stray dbmsg
  | .describeTable => bytes16 dbmsg.errcode ++ optionalStringsBytes stray dbmsg
  | .deleteCaller => bytes16 dbmsg.errcode
  | .listInfo => bytes16 dbmsg.errcode ++ bytes32 dbmsg.maxentries
  | .listen => bytes16 dbmsg.errcode

/-- The bytes the write pass puts behind one another. -/
def payload : List UInt8 :=
  match CIDBMsgCmd.ofCode dbmsg.cmd with
  | none => []
  | some c =>
    if dbmsg.subcmd = CIDBMSG_SUBCMD_QUERY then queryPayload stray dbmsg c
    else respPayload stray dbmsg c

end Payload

end Fritz2ci
