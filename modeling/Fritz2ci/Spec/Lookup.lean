import Fritz2ci.Spec.CIData
import Fritz2ci.Spec.PrepareUrl
import Mathlib.Data.Int.Basic
import Mathlib.Data.List.Infix

/-! `lookup.c`: the reverse lookup of a number in the cache and in a source on the web. The
regular expressions, `g_convert` and the transfer are what the surroundings answer. -/

namespace Fritz2ci

open CString

/-- The `CI_FIELD_*` kinds. -/
inductive CallerField
  | name | postalCode | city | street
  deriving DecidableEq, Repr

/-- The declared size of the array of a field in `CICaller`. -/
def CallerField.size : CallerField → ℕ
  | .name | .city | .street => 256
  | .postalCode => 8

/-- What the lookup uses of `CICaller`. -/
structure CICaller where
  numberComplete : CStr
  fields : CallerField → CStr

/-- `g_malloc0` and the copy of the number. -/
def CICaller.ofNumber (number : CStr) : CICaller := ⟨number, fun _ => []⟩

/-- A compiled expression: the words at the positions of its groups where it matches. -/
structure GRegex where
  fetch : CStr → Option (ℤ → CStr)
  captured : ∀ line words, fetch line = some words → ∀ position, words position <:+: line

/-- A field whose content names no kind (`none`) is matched without effect. -/
structure CIRLPatternField where
  position : ℤ
  field : Option CallerField

structure CIRLPattern where
  fields : List CIRLPatternField
  expression : GRegex

structure CIRLSource where
  id : ℕ
  query : CStr
  splitLines : Bool
  patterns : List CIRLPattern

/-- What `_cirlw_match_patterns` has found so far: the record it fills, the bits of `_fnd`,
the charset declared last, and every string copied into a field. -/
structure Matching where
  fields : CallerField → CStr
  fnd : CallerField → Bool
  charset : Option CStr
  copies : List (CallerField × CStr)

/-- `strcpy` into a field of the record. -/
def Matching.strcpy (m : Matching) (f : CallerField) (s : CStr) : Matching :=
  { m with fields := Function.update m.fields f s, copies := m.copies ++ [(f, s)] }

/-- The `switch` over the kind of a field. -/
def matchField (words : ℤ → CStr) (m : Matching) (pf : CIRLPatternField) : Matching :=
  match pf.field with
  | some f =>
    let m := m.strcpy f (words pf.position)
    { m with fnd := Function.update m.fnd f true }
  | none => m

def matchPattern (line : CStr) (m : Matching) (p : CIRLPattern) : Matching :=
  match p.expression.fetch line with
  | some words => p.fields.foldl (matchField words) m
  | none => m

/-- One line: the patterns of the source and, as the last expression, that of a charset. -/
def matchLine (patterns : List CIRLPattern) (charset : GRegex) (m : Matching) (line : CStr) :
    Matching :=
  let m := patterns.foldl (matchPattern line) m
  match charset.fetch line with
  | some words => { m with charset := some (words 1) }
  | none => m

/-- `_cirlw_remove_escapes`: the string left in place. -/
def cirlwRemoveEscapes : CStr → CStr
  | [] => []
  | b :: rest =>
    if b = 37 then
      match rest with
      | 50 :: 48 :: rest' => 32 :: cirlwRemoveEscapes rest'
      | rest => b :: cirlwRemoveEscapes rest
    else b :: cirlwRemoveEscapes rest

def Matching.removeEscapes (m : Matching) (f : CallerField) : Matching :=
  { m with fields := Function.update m.fields f (cirlwRemoveEscapes (m.fields f)) }

/-- The conversion of one field; a text `g_convert` cannot convert stays. -/
def convertField (gConvert : CStr → CStr → Option CStr) (charset : CStr) (f : CallerField)
    (m : Matching) : Matching :=
  if m.fnd f then
    let m := match gConvert charset (m.fields f) with
      | some word => m.strcpy f word
      | none => m
    m.removeEscapes f
  else m

/-- The postal code is not converted. -/
def unescapePostalCode (m : Matching) : Matching :=
  if m.fnd .postalCode then m.removeEscapes .postalCode else m

/-- The block behind the loops. -/
def convertFields (gConvert : CStr → CStr → Option CStr) (m : Matching) : Matching :=
  match m.charset with
  | some charset =>
    convertField gConvert charset .street <| unescapePostalCode <|
      convertField gConvert charset .city <| convertField gConvert charset .name m
  | none => m

/-- Where nothing has been matched yet. -/
def Matching.start (fields : CallerField → CStr) : Matching := ⟨fields, fun _ => false, none, []⟩

/-- The pointers that `g_try_malloc` is called for. -/
inductive TryMalloc
  | out | reg | pats
  deriving DecidableEq, Repr

/-- `_cirlw_match_patterns` on the memory a transfer left, `none` where no byte arrived: the
result and what has been found. `gTryMalloc` tells which sizes are granted. -/
def cirlwMatchPatterns (gTryMalloc : TryMalloc → ℤ → Bool) (charset : GRegex)
    (gConvert : CStr → CStr → Option CStr) (source : CIRLSource) (mem : Option (List UInt8))
    (fields : CallerField → CStr) : ℕ × Matching :=
  let npat := source.patterns.length
  if npat = 0 then (1, Matching.start fields)
  else if !gTryMalloc .reg (8 * (npat + 1)) then (1, Matching.start fields)
  else if !gTryMalloc .pats (8 * npat) then (1, Matching.start fields)
  else if source.splitLines then
    match mem with
    | none => (1, Matching.start fields)
    | some body =>
      let lines := strsplit (ofBuffer body) 10
      (0, convertFields gConvert
        (lines.foldl (matchLine source.patterns charset) (Matching.start fields)))
  else (0, Matching.start fields)

/-- Every string copied was, with its terminator, no longer than the array of its field. -/
def Matching.Fits (m : Matching) : Prop := ∀ c ∈ m.copies, c.2.length + 1 ≤ c.1.size

instance (m : Matching) : Decidable m.Fits := inferInstanceAs (Decidable (∀ c ∈ m.copies, _))

/-- `found != 0` -/
def Matching.foundAny (m : Matching) : Bool :=
  m.fnd .name || m.fnd .postalCode || m.fnd .city || m.fnd .street

/-- What the lookup meets while it runs: the sources read and the id configured, the
expression for a charset, the curl handle, what `g_try_malloc` and `g_convert` answer, and
the transfer, `none` where it fails. -/
structure Web where
  sources : List CIRLSource
  lookupSourceId : ℕ
  charset : GRegex
  curl : Bool
  gTryMalloc : TryMalloc → ℤ → Bool
  gConvert : CStr → CStr → Option CStr
  perform : CStr → Option (Option (List UInt8))

/-- `_cirlw_find_source` -/
def cirlwFindSource (sources : List CIRLSource) (sid : ℕ) : Option CIRLSource :=
  sources.find? fun s => s.id = sid

/-- Why a lookup has no defined end. -/
inductive LookupFault
  | url (f : UrlFault)
  | overrun
  deriving DecidableEq, Repr

/-- `cirlw_get_caller`: the result, the record and whether a transfer was made. -/
structure WebAnswer where
  rc : ℕ
  caller : CICaller
  requested : Bool

def cirlwGetCaller (fuel : ℕ) (web : Web) (sourceid : ℕ) (caller : CICaller) :
    Except LookupFault WebAnswer :=
  match cirlwFindSource web.sources sourceid with
  | none => .ok ⟨1, caller, false⟩
  | some source =>
    match cirlwPrepareUrl (web.gTryMalloc .out) fuel source.query caller.numberComplete with
    | .error f => .error (.url f)
    | .ok none => .ok ⟨1, caller, false⟩
    | .ok (some url) =>
      if !web.curl then .ok ⟨1, caller, false⟩
      else match web.perform url with
        | none => .ok ⟨1, caller, true⟩
        | some mem =>
          let (err, m) := cirlwMatchPatterns web.gTryMalloc web.charset web.gConvert source mem
            caller.fields
          if m.Fits then
            .ok ⟨if m.foundAny then err else 4, { caller with fields := m.fields }, true⟩
          else .error .overrun

/-- `cidb_find_caller` on the rows of `callercache`: the record with the four columns of
the first row for its number. -/
def cidbFindCaller (callercache : List CICaller) (caller : CICaller) : Option CICaller :=
  (callercache.find? fun r => r.numberComplete = caller.numberComplete).map fun r =>
    { caller with fields := r.fields }

/-- `cidb_insert_caller` -/
def cidbInsertCaller (callercache : List CICaller) (caller : CICaller) : List CICaller :=
  callercache ++ [caller]

/-- What a call of `lookup_get_caller_data` leaves. -/
structure LookupAnswer where
  rc : ℕ
  cidata : CIDataSet
  callercache : List CICaller
  requested : Bool

/-- `lookup_get_caller_data` on a data set. -/
def lookupGetCallerData (fuel : ℕ) (web : Web) (callercache : List CICaller)
    (cidata : CIDataSet) : Except LookupFault LookupAnswer :=
  let caller := CICaller.ofNumber (cidata .cidsNumberComplete)
  match cidbFindCaller callercache caller with
  | some caller =>
    .ok ⟨0, Function.update cidata .cidsName (caller.fields .name), callercache, false⟩
  | none =>
    match cirlwGetCaller fuel web web.lookupSourceId caller with
    | .error f => .error f
    | .ok answer =>
      if answer.rc = 0 then
        .ok ⟨0, Function.update cidata .cidsName (answer.caller.fields .name),
          cidbInsertCaller callercache answer.caller, answer.requested⟩
      else .ok ⟨1, cidata, callercache, answer.requested⟩

/-- `DynMem`: the block behind `mem`, `none` for NULL, and the bytes received. -/
structure DynMem where
  size : ℕ
  mem : Option (List UInt8)
  deriving DecidableEq, Repr

/-- `_cirlw_read_data`: the result and the memory left. `gTryRealloc` tells which sizes
`g_try_realloc` grants. -/
def cirlwReadData (gTryRealloc : ℕ → Bool) (ptr : List UInt8) (mem : DynMem) : ℕ × DynMem :=
  if gTryRealloc (mem.size + ptr.length + 1) then
    (ptr.length, ⟨mem.size + ptr.length, some ((mem.mem.getD []).take mem.size ++ ptr ++ [0])⟩)
  else (2 ^ 64 - 1, { mem with mem := none })

/-- `curl_easy_perform` over the parts in which an answer arrives: it goes on while all of a part
is taken. -/
def transferParts (gTryRealloc : ℕ → Bool) : List (List UInt8) → DynMem → Bool × DynMem
  | [], mem => (true, mem)
  | ptr :: rest, mem =>
    let (realsize, mem) := cirlwReadData gTryRealloc ptr mem
    if realsize = ptr.length then transferParts gTryRealloc rest mem else (false, mem)

/-- The memory that a transfer leaves, `none` where there is no answer or not all of it has been
taken. -/
def performParts (gTryRealloc : ℕ → Bool) (parts : Option (List (List UInt8))) :
    Option (Option (List UInt8)) :=
  parts.bind fun parts =>
    let (ok, mem) := transferParts gTryRealloc parts ⟨0, none⟩
    if ok then some mem.mem else none

end Fritz2ci
