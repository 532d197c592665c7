import Fritz2ci.Spec.CIDBMessages

/-! `cidbmsg_write_message` with its two passes and `cidbmsg_read_message`. -/

namespace Fritz2ci

open CString Stores Reading

structure CIDBMessage where
  cmd : UInt8
  subcmd : UInt8
  msgid : UInt32
  clientid : UInt16
  errcode : UInt16
  userid : UInt16
  flags : UInt32
  nstrings : UInt16
  /-- `none` for NULL, also in the array -/
  stringlist : Option (List (Option CStr))
  table : CIDBTable
  index : UInt32
  offset : UInt32
  count : UInt16
  mask : UInt32
  maxentries : UInt32
  deriving DecidableEq, Repr

/-- All fields zero but the command and the subcommand. -/
def CIDBMessage.ofCmd (cmd subcmd : UInt8) : CIDBMessage :=
  { cmd, subcmd, msgid := 0, clientid := 0, errcode := 0, userid := 0, flags := 0
    nstrings := 0, stringlist := none, table := ⟨0, 0, [], []⟩, index := 0, offset := 0
    count := 0, mask := 0, maxentries := 0 }

/-- What `stringlist[i]` gives. -/
def CIDBMessage.string (stray : ℕ → Option CStr) (dbmsg : CIDBMessage) (i : ℕ) : Option CStr :=
  entry stray (dbmsg.stringlist.getD []) i

/-- What a string takes in a message besides the one byte of its length. -/
def textSize (str : Option CStr) : ℕ :=
  (if 255 ≤ strlen str then 2 else 0) + (strlen str).toNat

section WriteMessage

variable (stray : ℕ → Option CStr) (dbmsg : CIDBMessage)

/-- The text of `stringlist[i]` if there is a list. -/
def optionalText (i : ℕ) : ℕ :=
  if dbmsg.stringlist.isSome then textSize (dbmsg.string stray i) else 0

def stringsSize : ℕ :=
  if dbmsg.stringlist.isSome then
    (List.range dbmsg.nstrings.toNat).foldl (fun n i => n + 1 + textSize (dbmsg.string stray i)) 0
  else 0

/-- The table behind `k` bytes of fields. -/
def tableSize (k : ℕ) : Option ℕ := (cidbmsgTableGetSize stray dbmsg.table).map (k + ·)

/-- The size of a query in the first `switch` of `cidbmsg_write_message`, before the
reduction to 32 bits. -/
def querySize : CIDBMsgCmd → Option ℕ
  | .register => some 0
  | .callerList => some (3 + optionalText stray dbmsg 0)
  | .readCaller => some (5 + optionalText stray dbmsg 0)
  | .writeCaller => tableSize stray dbmsg 4
  | .writeCall => tableSize stray dbmsg 0
  | .callList => some 6
  | .showtables => some 0
  | .deleteCaller => some (6 + optionalText stray dbmsg 0 + optionalText stray dbmsg 1)
  | .listInfo => some 0
  | .describeTable => some (1 + optionalText stray dbmsg 0)
  | .listen => some 4

def respSize : CIDBMsgCmd → Option ℕ
  | .register => some 4
  | .callerList => tableSize stray dbmsg 2
  | .readCaller => tableSize stray dbmsg 2
  | .writeCaller => some 6
  | .writeCall => some 6
  | .callList => tableSize stray dbmsg 2
  | .showtables => some (4 + stringsSize stray dbmsg)
  | .deleteCaller => some 2
  | .listInfo => some 6
  | .describeTable => some (4 + stringsSize stray dbmsg)
  | .listen => some 2

/-- The first `switch`, `none` where it returns 0 and `some none` where C defines nothing. The
branch of `CIDBMSG_CMD_LISTEN` takes every subcommand that is no query for a response. -/
def sizePass : Option (Option ℕ) :=
  match CIDBMsgCmd.ofCode dbmsg.cmd with
  | none => none
  | some c =>
    if dbmsg.subcmd = CIDBMSG_SUBCMD_QUERY then some (querySize stray dbmsg c)
    else if dbmsg.subcmd = CIDBMSG_SUBCMD_RESP ∨ c = .listen then some (respSize stray dbmsg c)
    else none

/-- The stores of the second `switch` and the entries of `stringlist` it reads. -/
structure WritePass where
  stores : List (Store UInt8)
  entries : List ℕ

/-- `stringlist[0]` at an offset, the empty string where it is NULL or there is no list. -/
def writeFirst (off : ℕ) (fields : List (Store UInt8)) : WritePass :=
  if dbmsg.stringlist.isSome then
    if (dbmsg.string stray 0).isSome then
      ⟨fields ++ shift off (cidbmsgWriteString (dbmsg.string stray 0)).1, [0, 0]⟩
    else ⟨fields ++ [cidbSetUchar off 0], [0]⟩
  else ⟨fields ++ [cidbSetUchar off 0], []⟩

/-- `pos += cidbmsg_write_string (&msg->data[pos], stringlist[i])` -/
def writeNext (i : ℕ) : Writer UInt8 := fun pos =>
  let (stores, n) := cidbmsgWriteString (dbmsg.string stray i)
  (shift pos stores, (pos + n) % 2 ^ 32)

/-- `nstrings` and the strings behind a first field. -/
def writeStrings (field : UInt16) : WritePass :=
  ⟨[cidbSetUshort 0 field, cidbSetUshort 2 dbmsg.nstrings] ++
      (writeMany (writeNext stray dbmsg) (List.range dbmsg.nstrings.toNat) 4).1,
    List.range dbmsg.nstrings.toNat⟩

def writeOptionalStrings : WritePass :=
  if dbmsg.stringlist.isSome then writeStrings stray dbmsg dbmsg.errcode
  else ⟨[cidbSetUshort 0 dbmsg.errcode, cidbSetUshort 2 0], []⟩

def writeTableAt (off : ℕ) (fields : List (Store UInt8)) : Option WritePass :=
  (cidbmsgWriteTable stray dbmsg.table).map fun (stores, _) => ⟨fields ++ shift off stores, []⟩

def queryPass : CIDBMsgCmd → Option WritePass
  | .register => some ⟨[], []⟩
  | .callerList => some (writeFirst stray dbmsg 2 [cidbSetUshort 0 dbmsg.userid])
  | .readCaller =>
    some (writeFirst stray dbmsg 4
      [cidbSetUshort 0 dbmsg.userid, cidbSetUshort 2 dbmsg.flags.toUInt16])
  | .writeCaller =>
    writeTableAt stray dbmsg 4
      [cidbSetUshort 0 dbmsg.userid, cidbSetUshort 2 dbmsg.flags.toUInt16]
  | .writeCall => writeTableAt stray dbmsg 0 []
  | .callList => some ⟨[cidbSetUlong 0 dbmsg.offset, cidbSetUshort 4 dbmsg.count], []⟩
  | .showtables => some ⟨[], []⟩
  | .describeTable =>
    if dbmsg.stringlist.isSome then some ⟨(cidbmsgWriteString (dbmsg.string stray 0)).1, [0]⟩
    -- two bytes, where the size pass counts one
    else some ⟨[cidbSetUshort 0 0], []⟩
  | .deleteCaller => some (writeStrings stray dbmsg dbmsg.userid)
  | .listInfo => some ⟨[], []⟩
  | .listen => some ⟨[cidbSetUlong 0 dbmsg.mask], []⟩

def respPass : CIDBMsgCmd → Option WritePass
  | .register => some ⟨[cidbSetUshort 0 dbmsg.errcode, cidbSetUshort 2 dbmsg.clientid], []⟩
  | .callerList => writeTableAt stray dbmsg 2 [cidbSetUshort 0 dbmsg.errcode]
  | .readCaller => writeTableAt stray dbmsg 2 [cidbSetUshort 0 dbmsg.errcode]
  | .writeCaller => some ⟨[cidbSetUshort 0 dbmsg.errcode, cidbSetUlong 2 dbmsg.index], []⟩
  | .writeCall => some ⟨[cidbSetUshort 0 dbmsg.errcode, cidbSetUlong 2 dbmsg.index], []⟩
  | .callList => writeTableAt stray dbmsg 2 [cidbSetUshort 0 dbmsg.errcode]
  | .showtables => some (writeOptionalStrings stray dbmsg)
  | .describeTable => some (writeOptionalStrings stray dbmsg)
  | .deleteCaller => some ⟨[cidbSetUshort 0 dbmsg.errcode], []⟩
  | .listInfo => some ⟨[cidbSetUshort 0 dbmsg.errcode, cidbSetUlong 2 dbmsg.maxentries], []⟩
  | .listen => some ⟨[cidbSetUshort 0 dbmsg.errcode], []⟩

/-- The second `switch` -/
def writePass : Option WritePass :=
  match CIDBMsgCmd.ofCode dbmsg.cmd with
  | none => some ⟨[], []⟩
  | some c =>
    if dbmsg.subcmd = CIDBMSG_SUBCMD_QUERY then queryPass stray dbmsg c else respPass stray dbmsg c

structure Encoded where
  ret : ℕ
  msg : CIDBMsg
  pass : WritePass

/-- `prior` is what the message buffer held before, `fresh` what the allocated data holds.
`none` where C defines nothing. -/
def cidbmsgWriteMessage (fresh : ℕ → UInt8) (prior : CIDBMsg) : Option Encoded :=
  match sizePass stray dbmsg with
  | none => some
    { ret := 0
      msg := { prior with
        header := { prior.header with
          clientId := dbmsg.clientid, msgCommand := dbmsg.cmd, msgSubcommand := dbmsg.subcmd
          msgId := dbmsg.msgid } }
      pass := ⟨[], []⟩ }
  | some none => none
  | some (some size) =>
    let dataSize := UInt32.ofNat size
    -- the `memset` ends two bytes in front of the end of the header
    let header : CIDBMsgHeader :=
      { clientId := dbmsg.clientid, msgCommand := dbmsg.cmd, msgSubcommand := dbmsg.subcmd
        msgId := dbmsg.msgid, msgFlags := 0, dataSize, partSize := 0
        offset := prior.header.offset &&& 0xffff0000 }
    if dataSize = 0 then some { ret := 0, msg := { header, data := none }, pass := ⟨[], []⟩ }
    else (writePass stray dbmsg).map fun pass =>
      { ret := dataSize.toNat, msg := { header, data := some (applyAll fresh pass.stores) }, pass }

end WriteMessage

section ReadMessage

variable (stray : ℕ → Option CStr)

/-- `pos += cidbmsg_read_string (&msg->data[pos], &dbmsg->stringlist[i])` -/
def readNext : Cursor UInt8 CStr := fun pos => do
  let (str, n) ← skip pos cidbmsgReadString
  pure (str, (pos + n) % 2 ^ 32)

/-- A string at an offset becomes the only one of the list. -/
def readFirst (off : ℕ) (dbmsg : CIDBMessage) : Reading UInt8 (Option CIDBMessage) := do
  let (str, _) ← skip off cidbmsgReadString
  pure (some { dbmsg with nstrings := 1, stringlist := some [some str] })

def readStrings (dbmsg : CIDBMessage) : Reading UInt8 (Option CIDBMessage) := do
  let nstrings ← cidbGetUshort 2
  if nstrings = 0 then
    pure (some { dbmsg with nstrings })
  else do
    let (strs, _) ← many readNext nstrings.toNat 4
    pure (some { dbmsg with nstrings, stringlist := some (strs.map some) })

/-- `none` where C defines nothing. -/
def readTableAt (off : ℕ) (dbmsg : CIDBMessage) : Reading UInt8 (Option CIDBMessage) := do
  let result ← skip off (cidbmsgReadTable stray)
  pure (result.map fun (table, _) => { dbmsg with table })

/-- The branches of the `switch` for a query. `null` tells whether `msg->data` is NULL, which
`cidbmsg_read_table` and `cidbmsg_read_string` notice when they are called with it. -/
def readQuery (null : Bool) (dbmsg : CIDBMessage) : CIDBMsgCmd → Reading UInt8 (Option CIDBMessage)
  | .register => pure (some dbmsg)
  | .callerList => do
    let userid ← cidbGetUshort 0
    readFirst 2 { dbmsg with userid }
  | .readCaller => do
    let userid ← cidbGetUshort 0
    let flags ← cidbGetUshort 2
    readFirst 4 { dbmsg with userid, flags := flags.toUInt32 }
  | .writeCaller => do
    let userid ← cidbGetUshort 0
    let flags ← cidbGetUshort 2
    readTableAt stray 4 { dbmsg with userid, flags := flags.toUInt32 }
  | .writeCall => if null then pure (some dbmsg) else readTableAt stray 0 dbmsg
  | .callList => do
    let offset ← cidbGetUlong 0
    let count ← cidbGetUshort 4
    pure (some { dbmsg with offset, count })
  | .showtables => pure (some dbmsg)
  | .describeTable =>
    -- without data the entry of the new list stays as `malloc` left it
    if null then pure (some { dbmsg with nstrings := 1, stringlist := some [stray 0] })
    else readFirst 0 dbmsg
  | .deleteCaller => do
    let userid ← cidbGetUshort 0
    readStrings { dbmsg with userid }
  | .listInfo => pure (some dbmsg)
  | .listen => do
    let mask ← cidbGetUlong 0
    pure (some { dbmsg with mask })

/-- The branches for a response, which all begin with the error code. -/
def readResp (dbmsg : CIDBMessage) (cmd : CIDBMsgCmd) : Reading UInt8 (Option CIDBMessage) := do
  let errcode ← cidbGetUshort 0
  let dbmsg := { dbmsg with errcode }
  match cmd with
  | .register => do
    let clientid ← cidbGetUshort 2
    pure (some { dbmsg with clientid })
  | .callerList => readTableAt stray 2 dbmsg
  | .readCaller => readTableAt stray 2 dbmsg
  | .writeCaller => do
    let index ← cidbGetUlong 2
    pure (some { dbmsg with index })
  | .writeCall => do
    let index ← cidbGetUlong 2
    pure (some { dbmsg with index })
  | .callList => readTableAt stray 2 dbmsg
  | .showtables => readStrings dbmsg
  | .describeTable => readStrings dbmsg
  | .deleteCaller => pure (some dbmsg)
  | .listInfo => do
    let maxentries ← cidbGetUlong 2
    pure (some { dbmsg with maxentries })
  | .listen => pure (some dbmsg)

def cidbmsgReadMessage (header : CIDBMsgHeader) (null : Bool) :
    Reading UInt8 (Option CIDBMessage) :=
  let dbmsg := CIDBMessage.ofCmd header.msgCommand header.msgSubcommand
  match CIDBMsgCmd.ofCode header.msgCommand with
  | none => pure (some dbmsg)
  | some cmd =>
    if header.msgSubcommand = CIDBMSG_SUBCMD_QUERY then readQuery stray null dbmsg cmd
    else if header.msgSubcommand = CIDBMSG_SUBCMD_RESP then readResp stray dbmsg cmd
    else pure (some dbmsg)

/-- The message `cidbmsg_read_message` leaves in `dbmsg`, `none` where C defines nothing. -/
def CIDBMsg.read (msg : CIDBMsg) : Option CIDBMessage :=
  val (cidbmsgReadMessage stray msg.header msg.data.isNone) msg.memory

end ReadMessage

end Fritz2ci
