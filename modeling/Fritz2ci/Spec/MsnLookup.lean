import Fritz2ci.Lib.CString

/-! `msn_lookup.c`: the aliases of the called numbers. `msnlLookup` is the lookup among entries
whose strings end within their arrays, `msnlLookupIn` the one in the memory that
`msnl_read_file` has written. -/

namespace Fritz2ci

open CString

def MSNL_MSN_SIZE : ℕ := 32

def MSNL_ALIAS_SIZE : ℕ := 256

/-- An entry whose strings end within their arrays. -/
structure MSNLookup where
  msn : CStr
  msnAlias : CStr
  msn_fits : msn.length < MSNL_MSN_SIZE
  alias_fits : msnAlias.length < MSNL_ALIAS_SIZE

/-- `msnl_lookup`: the alias copied out when it returns 0, `none` when it returns 1. -/
def msnlLookup (msnList : List MSNLookup) (msn : CStr) : Option CStr :=
  (msnList.find? fun e => e.msn = msn).map MSNLookup.msnAlias

/-- The arrays of an entry in memory. -/
inductive EntryArray
  | msn | msnAlias
  deriving DecidableEq, Repr

def EntryArray.size : EntryArray → ℕ
  | .msn => MSNL_MSN_SIZE
  | .msnAlias => MSNL_ALIAS_SIZE

def EntryArray.offset : EntryArray → ℕ
  | .msn => 0
  | .msnAlias => MSNL_MSN_SIZE

/-- `data->array[index] = byte` -/
structure EntryWrite where
  array : EntryArray
  index : ℕ
  byte : UInt8
  deriving DecidableEq, Repr

/-- Bytes behind the entry are not kept. -/
def EntryWrite.store (mem : List UInt8) (w : EntryWrite) : List UInt8 :=
  mem.set (w.array.offset + w.index) w.byte

/-- An entry from `g_malloc0` with the writes made through its arrays. -/
structure MSNEntry where
  writes : List EntryWrite
  deriving DecidableEq, Repr

def MSNEntry.mem (e : MSNEntry) : List UInt8 :=
  e.writes.foldl EntryWrite.store (List.replicate (MSNL_MSN_SIZE + MSNL_ALIAS_SIZE) 0)

/-- The string that starts at an array, as far as it lies in the entry. -/
def MSNEntry.strAt (e : MSNEntry) (a : EntryArray) : CStr := ofBuffer (e.mem.drop a.offset)

def isBlank (b : UInt8) : Bool := b = 32 || b = 9

def skipBlanks (s : CStr) : CStr := s.dropWhile isBlank

/-- A loop that copies into an array from index `j` on: its writes, the index behind them and
the bytes it leaves. -/
def copyLoop (stop : UInt8 → Bool) (a : EntryArray) : ℕ → CStr → List EntryWrite × ℕ × CStr
  | j, [] => ([], j, [])
  | j, b :: rest =>
    if !stop b && decide (j < a.size) then
      let (ws, k, rest') := copyLoop stop a (j + 1) rest
      (⟨a, j, b⟩ :: ws, k, rest')
    else ([], j, b :: rest)

def endsMsn (b : UInt8) : Bool := isBlank b || b = 0 || b = 10

def endsAlias (b : UInt8) : Bool := b = 0 || b = 10

/-- `_read_line`; each terminator goes to the index at which its loop has ended. -/
def readLine (buffer : CStr) : MSNEntry :=
  let (msn, j, rest) := copyLoop endsMsn .msn 0 (skipBlanks buffer)
  let (msnAlias, k, _) := copyLoop endsAlias .msnAlias 0 (skipBlanks rest)
  ⟨[⟨.msn, 0, 0⟩, ⟨.msnAlias, 0, 0⟩] ++ msn ++ [⟨.msn, j, 0⟩] ++ msnAlias ++ [⟨.msnAlias, k, 0⟩]⟩

/-- `msnl_read_file`: what it returns and `_msn_list` after it; `file` is what `fopen` finds. -/
def msnlReadFile (msnList : List MSNEntry) (file : Option (List UInt8)) : ℕ × List MSNEntry :=
  match file with
  | none => (1, msnList)
  | some content =>
    let msnList := (fgetsAll 511 content).foldl (fun es buffer => readLine (ofBuffer buffer) :: es)
      msnList
    (0, msnList.reverse)

/-- `msnl_lookup` on the entries in memory, with the results of `msnlLookup`. -/
def msnlLookupIn (msnList : List MSNEntry) (msn : CStr) : Option CStr :=
  (msnList.find? fun e => e.strAt .msn = msn).map fun e => e.strAt .msnAlias

theorem msnlLookup_length_lt {msnList : List MSNLookup} {msn a : CStr}
    (h : msnlLookup msnList msn = some a) : a.length < MSNL_ALIAS_SIZE := by
  obtain ⟨e, -, rfl⟩ := Option.map_eq_some_iff.1 h
  exact e.alias_fits

end Fritz2ci
