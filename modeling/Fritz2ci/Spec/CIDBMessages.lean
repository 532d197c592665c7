import Fritz2ci.Lib.CString
import Fritz2ci.Lib.LittleEndian
import Fritz2ci.Lib.Reading
import Fritz2ci.Lib.Stores

/-! The header, the strings and the tables of a CIDB message, and its parts on the wire.
Writing gives the stores made, reading the bytes looked at; a pointer into a buffer is the
offset it stands at. -/

namespace Fritz2ci

open CString LittleEndian Stores Reading

def CIDBMSG_SUBCMD_QUERY : UInt8 := 0x80

def CIDBMSG_SUBCMD_RESP : UInt8 := 0x81

def CIDBMSG_MSG_TOTAL_SIZE : ℕ := 2048

def CIDBMSG_HEADER_SIZE : ℕ := 22

def CIDBMSG_DATA_SIZE : ℕ := CIDBMSG_MSG_TOTAL_SIZE - CIDBMSG_HEADER_SIZE

inductive CIDBMsgCmd
  | register | callerList | readCaller | writeCaller | writeCall | callList | showtables
  | describeTable | deleteCaller | listInfo | listen
  deriving DecidableEq, Repr

/-- `CIDBMSG_CMD_REGISTER` to `CIDBMSG_CMD_LISTEN` -/
def CIDBMsgCmd.code : CIDBMsgCmd → UInt8
  | .register => 0x01
  | .callerList => 0x02
  | .readCaller => 0x03
  | .writeCaller => 0x04
  | .writeCall => 0x05
  | .callList => 0x06
  | .showtables => 0x07
  | .describeTable => 0x08
  | .deleteCaller => 0x09
  | .listInfo => 0x0a
  | .listen => 0x0b

/-- The label a `switch` over the command takes, `none` for `default`. -/
def CIDBMsgCmd.ofCode (cmd : UInt8) : Option CIDBMsgCmd :=
  [register, callerList, readCaller, writeCaller, writeCall, callList, showtables,
    describeTable, deleteCaller, listInfo, listen].find? (·.code = cmd)

structure CIDBMsgHeader where
  clientId : UInt16
  msgCommand : UInt8
  msgSubcommand : UInt8
  msgId : UInt32
  msgFlags : UInt16
  dataSize : UInt32
  partSize : UInt32
  offset : UInt32
  deriving DecidableEq, Repr

/-- `data` is the memory from the pointer on, `none` for NULL. -/
structure CIDBMsg where
  header : CIDBMsgHeader
  data : Option (ℕ → UInt8)

/-- The memory behind `msg->data`. A NULL pointer is never followed on purpose. -/
def CIDBMsg.memory (msg : CIDBMsg) : ℕ → UInt8 := msg.data.getD fun _ => 0

/-- NULL and the empty array are both `[]`. -/
structure CIDBTable where
  nrows : UInt16
  ncols : UInt16
  columnNames : List (Option CStr)
  fields : List (Option CStr)
  deriving DecidableEq, Repr

def cidbSetUchar (off : ℕ) (val : UInt16) : Store UInt8 := ⟨off, [val.toUInt8]⟩

def cidbSetUshort (off : ℕ) (val : UInt16) : Store UInt8 := ⟨off, bytes16 val⟩

def cidbSetUlong (off : ℕ) (val : UInt32) : Store UInt8 := ⟨off, bytes32 val⟩

def cidbGetUchar (off : ℕ) : Reading UInt8 UInt8 := cell off

def cidbGetUshort (off : ℕ) : Reading UInt8 UInt16 := do
  let b₀ ← cell off
  let b₁ ← cell (off + 1)
  pure (value16 b₀ b₁)

def cidbGetUlong (off : ℕ) : Reading UInt8 UInt32 := do
  let b₀ ← cell off
  let b₁ ← cell (off + 1)
  let b₂ ← cell (off + 2)
  let b₃ ← cell (off + 3)
  pure (value32 b₀ b₁ b₂ b₃)

def cidbmsgPrepareHeader (header : CIDBMsgHeader) : List (Store UInt8) :=
  [cidbSetUshort 0 header.clientId, cidbSetUchar 2 header.msgCommand.toUInt16,
    cidbSetUchar 3 header.msgSubcommand.toUInt16, cidbSetUlong 4 header.msgId,
    cidbSetUshort 8 header.msgFlags, cidbSetUlong 10 header.dataSize,
    cidbSetUlong 14 header.partSize, cidbSetUlong 18 header.offset]

def cidbmsgReadHeader : Reading UInt8 CIDBMsgHeader := do
  let clientId ← cidbGetUshort 0
  let msgCommand ← cidbGetUchar 2
  let msgSubcommand ← cidbGetUchar 3
  let msgId ← cidbGetUlong 4
  let msgFlags ← cidbGetUshort 8
  let dataSize ← cidbGetUlong 10
  let partSize ← cidbGetUlong 14
  let offset ← cidbGetUlong 18
  pure { clientId, msgCommand, msgSubcommand, msgId, msgFlags, dataSize, partSize, offset }

/-- `strlen` in an `unsigned short`, 0 for NULL. -/
def strlen (str : Option CStr) : UInt16 := UInt16.ofNat (str.getD []).length

def cidbmsgStrlen : Reading UInt8 (UInt16 × ℕ) := do
  let len ← cidbGetUchar 0
  if len = 255 then do
    let len ← cidbGetUshort 1
    pure (len, 3)
  else
    pure (len.toUInt16, 1)

def cidbmsgSetStrlen (len : UInt16) : List (Store UInt8) × ℕ :=
  if 255 ≤ len then ([cidbSetUchar 0 0xff, cidbSetUshort 1 len], 3)
  else ([cidbSetUchar 0 len], 1)

def cidbmsgReadStr (len : UInt16) : Reading UInt8 CStr := do
  let buffer ← cells len.toNat
  pure (ofBuffer buffer)

def cidbmsgWriteString (str : Option CStr) : List (Store UInt8) × ℕ :=
  let len := strlen str
  let (stores, bytes) := cidbmsgSetStrlen len
  (stores ++ [⟨bytes, (str.getD []).take len.toNat⟩], bytes + len.toNat)

def cidbmsgReadString : Reading UInt8 (CStr × ℕ) := do
  let (len, bytes) ← cidbmsgStrlen
  let str ← skip bytes (cidbmsgReadStr len)
  pure (str, bytes + len.toNat)

/-- An entry of a pointer array. `stray` is what memory holds at entries that were never
stored or that do not belong to the array. -/
def entry (stray : ℕ → Option CStr) (array : List (Option CStr)) (i : ℕ) : Option CStr :=
  array.getD i (stray i)

/-- `i * ncols`, which is computed as an `int`, in an `unsigned short`: `none` where the `int`
overflows and C defines nothing. -/
def rowidx (ncols : UInt16) (i : ℕ) : Option ℕ :=
  let product := i * ncols.toNat
  if product < 2 ^ 31 then some (product % 2 ^ 16) else none

/-- The row offsets that a loop over the rows computes. -/
def rowidxs (nrows ncols : UInt16) : Option (List ℕ) :=
  (List.range nrows.toNat).mapM (rowidx ncols)

/-- The strings that the loop over the column names visits. -/
def CIDBTable.names (stray : ℕ → Option CStr) (table : CIDBTable) : List (Option CStr) :=
  (List.range table.ncols.toNat).map (entry stray table.columnNames)

/-- The strings that the loops over the column names and the fields visit. -/
def CIDBTable.visited (stray : ℕ → Option CStr) (table : CIDBTable) :
    Option (List (Option CStr)) :=
  (rowidxs table.nrows table.ncols).map fun rows =>
    table.names stray ++ rows.flatMap fun row =>
      (List.range table.ncols.toNat).map fun j => entry stray table.fields (row + j)

/-- `none` where C defines nothing: here `strlen` is called with a column name that is NULL too. -/
def cidbmsgTableGetSize (stray : ℕ → Option CStr) (table : CIDBTable) : Option ℕ :=
  if none ∈ table.names stray then none
  else (table.visited stray).map fun strs => strs.foldl
    (fun bytes str => (bytes + (if 255 ≤ strlen str then 3 else 1) + (strlen str).toNat) % 2 ^ 32) 4

/-- One round of the loops of `cidbmsg_write_table`. -/
def writeEntry (str : Option CStr) : Writer UInt8 := fun bytes =>
  let len := strlen str
  let (stores, n) := cidbmsgSetStrlen len
  let bytes' := (bytes + n) % 2 ^ 32
  (shift bytes stores ++ [⟨bytes', (str.getD []).take len.toNat⟩], (bytes' + len.toNat) % 2 ^ 32)

def cidbmsgWriteTable (stray : ℕ → Option CStr) (table : CIDBTable) :
    Option (List (Store UInt8) × ℕ) :=
  (table.visited stray).map fun strs =>
    let (stores, bytes) := writeMany writeEntry strs 4
    ([cidbSetUshort 0 table.nrows, cidbSetUshort 2 table.ncols] ++ stores, bytes)

/-- One round of the loops of `cidbmsg_read_table`. -/
def readEntry : Cursor UInt8 CStr := fun bytes => do
  let (len, offset) ← skip bytes cidbmsgStrlen
  let str ← skip ((bytes + offset) % 2 ^ 32) (cidbmsgReadStr len)
  pure (str, ((bytes + offset) % 2 ^ 32 + len.toNat) % 2 ^ 32)

/-- The array of fields after its entries were assigned row by row. -/
def placeFields (stray : ℕ → Option CStr) (nrows ncols : UInt16) (rows : List (List CStr)) :
    Option (List (Option CStr)) :=
  (rowidxs nrows ncols).map fun idxs =>
    (List.range (nrows.toNat * ncols.toNat)).map
      (applyAll stray ((idxs.zip rows).map fun (idx, row) => ⟨idx, row.map some⟩))

def cidbmsgReadTable (stray : ℕ → Option CStr) : Reading UInt8 (Option (CIDBTable × ℕ)) := do
  let nrows ← cidbGetUshort 0
  let ncols ← cidbGetUshort 2
  let (names, bytes) ← many readEntry ncols.toNat 4
  let (rows, bytes) ← many (many readEntry ncols.toNat) nrows.toNat bytes
  pure ((placeFields stray nrows ncols rows).map fun fields =>
    ({ nrows, ncols, columnNames := names.map some, fields }, bytes))

/-- The blocks of a table that `free` is called with. -/
inductive TableBlock
  | name (i : ℕ) | field (i : ℕ) | columnNames | fields
  deriving DecidableEq, Repr

/-- `for (i = 0; i < bound; i++) if (array[i]) free(array[i]);` from a value of the counter,
which has 16 bits. `none` where the fuel does not last to the end. -/
def freeLoop (bound : ℕ) (array : List (Option CStr)) (block : ℕ → TableBlock) :
    ℕ → UInt16 → Option (List TableBlock)
  | 0, _ => none
  | fuel + 1, i =>
    if i.toNat < bound then
      (freeLoop bound array block fuel (i + 1)).map fun freed =>
        if (array.getD i.toNat none).isSome then block i.toNat :: freed else freed
    else some []

/-- `ncols*nrows` as an `int`, `none` where it overflows and C defines nothing. -/
def CIDBTable.cellCount (table : CIDBTable) : Option ℕ :=
  let product := table.ncols.toNat * table.nrows.toNat
  if product < 2 ^ 31 then some product else none

/-- An array, NULL if it is empty: its entries in a loop up to `bound`, and then itself. -/
def freeArray (fuel : ℕ) (bound : Option ℕ) (array : List (Option CStr)) (block : ℕ → TableBlock)
    (self : TableBlock) : Option (List TableBlock) :=
  if array = [] then some []
  else bound.bind fun n => (freeLoop n array block fuel 0).map (· ++ [self])

/-- `cidbmsg_table_free`: the blocks freed, in order, and the table behind it. -/
def cidbmsgTableFree (fuel : ℕ) (table : CIDBTable) : Option (List TableBlock × CIDBTable) :=
  (freeArray fuel (some table.ncols.toNat) table.columnNames .name .columnNames).bind fun names =>
    (freeArray fuel table.cellCount table.fields .field .fields).map fun cells =>
      (names ++ cells, { nrows := 0, ncols := 0, columnNames := [], fields := [] })

structure CIDBMsgTransmission where
  completeMsg : CIDBMsg
  offset : UInt32

/-- `data[off .. off + n)` -/
def CIDBMsg.slice (msg : CIDBMsg) (off n : ℕ) : List UInt8 :=
  (List.range n).map fun i => msg.memory (off + i)

/-- The part in `[offset, offset + partSize)`: its stores into the message buffer, the bytes
to send and the transmission behind it. -/
def CIDBMsgTransmission.part (msg : CIDBMsgTransmission) (partSize : UInt32) :
    List (Store UInt8) × ℕ × CIDBMsgTransmission :=
  let header := { msg.completeMsg.header with partSize, offset := msg.offset }
  (cidbmsgPrepareHeader header ++
      [⟨CIDBMSG_HEADER_SIZE, msg.completeMsg.slice msg.offset.toNat partSize.toNat⟩],
    partSize.toNat + CIDBMSG_HEADER_SIZE,
    { completeMsg := { msg.completeMsg with header }, offset := msg.offset + partSize })

def cidbmsgTransmissionStart (msg : CIDBMsgTransmission) :
    List (Store UInt8) × ℕ × CIDBMsgTransmission :=
  let dataSize := msg.completeMsg.header.dataSize
  { msg with offset := 0 }.part
    (if UInt32.ofNat CIDBMSG_DATA_SIZE < dataSize then UInt32.ofNat CIDBMSG_DATA_SIZE else dataSize)

/-- The size of a part behind the first. -/
def nextPartSize (dataSize offset : UInt32) : UInt32 :=
  if UInt32.ofNat CIDBMSG_DATA_SIZE ≤ dataSize - offset then UInt32.ofNat CIDBMSG_DATA_SIZE
  else dataSize - offset

/-- `none` is the return value 0, which ends the transmission. -/
def cidbmsgTransmissionContinue (msg : CIDBMsgTransmission) :
    Option (List (Store UInt8) × ℕ × CIDBMsgTransmission) :=
  if msg.completeMsg.header.dataSize ≤ msg.offset then none
  else some (msg.part (nextPartSize msg.completeMsg.header.dataSize msg.offset))

end Fritz2ci
