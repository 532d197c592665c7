import Fritz2ci.Lib.Heap
import Fritz2ci.Spec.Lookup

/-! The blocks of memory that a lookup takes and frees: `lookup_get_caller_data` and what it calls,
once more, with every allocation, every use of a block and every `g_free` in its place. The values
are those of the functions of the same names. -/

namespace Fritz2ci.OnHeap

open CString Heap

/-- `reg`, `pats` and the expressions in `reg`. -/
structure Expressions where
  reg : ℕ
  pats : ℕ
  compiled : List (CIRLPattern × ℕ)
  charset : ℕ

/-- `strcpy` from a word, for a field of a known kind. -/
def copyWord (pf : CIRLPatternField) (word : ℕ) : HeapM Unit :=
  if pf.field.isSome then touch word else pure ()

/-- The body of the loop over the fields of a pattern. -/
def matchField (matchinfo : ℕ) (words : ℤ → CStr) (m : Matching) (pf : CIRLPatternField) :
    HeapM Matching := do
  touch matchinfo
  let word ← malloc
  copyWord pf word
  free (some word)
  pure (Fritz2ci.matchField words m pf)

/-- The loop over the fields, where the expression matches. -/
def matchFields (e : Expressions) (matchinfo : ℕ) (line : CStr) (m : Matching) (p : CIRLPattern) :
    HeapM Matching :=
  match p.expression.fetch line with
  | some words => do
    touch e.pats
    p.fields.foldlM (matchField matchinfo words) m
  | none => pure m

def matchPattern (e : Expressions) (line : CStr) (m : Matching) (p : CIRLPattern × ℕ) :
    HeapM Matching := do
  touch e.reg
  touch p.2
  let matchinfo ← malloc
  touch matchinfo
  let m ← matchFields e matchinfo line m p.1
  free (some matchinfo)
  pure m

/-- The last expression; the string that `charset` pointed to before is not freed. -/
def matchCharset (charset : GRegex) (matchinfo : ℕ) (line : CStr) (s : Matching × Option ℕ) :
    HeapM (Matching × Option ℕ) :=
  match charset.fetch line with
  | some words => do
    touch matchinfo
    let block ← malloc
    pure ({ s.1 with charset := some (words 1) }, some block)
  | none => pure s

def matchLine (e : Expressions) (charset : GRegex) (lines : ℕ) (s : Matching × Option ℕ)
    (line : CStr) : HeapM (Matching × Option ℕ) := do
  touch lines
  let m ← e.compiled.foldlM (matchPattern e line) s.1
  touch e.reg
  touch e.charset
  let matchinfo ← malloc
  touch matchinfo
  let s ← matchCharset charset matchinfo line (m, s.2)
  free (some matchinfo)
  pure s

/-- `g_convert`, the copy and the `g_free` behind it. -/
def convertWord (gConvert : CStr → CStr → Option CStr) (charset s : CStr) : HeapM Unit :=
  match gConvert charset s with
  | some _ => do
    let word ← malloc
    touch word
    free (some word)
  | none => free none

def convertField (gConvert : CStr → CStr → Option CStr) (charset : CStr) (block : ℕ)
    (f : CallerField) (m : Matching) : HeapM Matching :=
  if m.fnd f then do
    touch block
    convertWord gConvert charset (m.fields f)
    pure (Fritz2ci.convertField gConvert charset f m)
  else pure (Fritz2ci.convertField gConvert charset f m)

def convertFields (gConvert : CStr → CStr → Option CStr) (s : Matching × Option ℕ) :
    HeapM Matching :=
  match s.1.charset, s.2 with
  | some charset, some block => do
    let m ← convertField gConvert charset block .name s.1
    let m ← convertField gConvert charset block .city m
    let m ← convertField gConvert charset block .street (unescapePostalCode m)
    free (some block)
    pure m
  | _, _ => pure s.1

def compile (reg pats : ℕ) (compiled : List (CIRLPattern × ℕ)) (p : CIRLPattern) :
    HeapM (List (CIRLPattern × ℕ)) := do
  let regex ← malloc
  touch reg
  touch pats
  pure (compiled ++ [(p, regex)])

def unref (reg : ℕ) (_ : Unit) (p : CIRLPattern × ℕ) : HeapM Unit := do
  touch reg
  free (some p.2)

/-- The branch for sources that are read by lines, on the block that `_cirlw_memory` points to. -/
def matchBody (e : Expressions) (charset : GRegex) (gConvert : CStr → CStr → Option CStr)
    (mem : DynMem × Option ℕ) (fields : CallerField → CStr) : HeapM (ℕ × Matching) :=
  match mem.1.mem, mem.2 with
  | some body, some block => do
    touch block
    let lines ← malloc
    let s ← (strsplit (ofBuffer body) 10).foldlM (matchLine e charset lines)
      (Matching.start fields, none)
    free (some lines)
    let m ← convertFields gConvert s
    pure (0, m)
  | _, _ => pure (1, Matching.start fields)

def matchSource (e : Expressions) (charset : GRegex) (gConvert : CStr → CStr → Option CStr)
    (source : CIRLSource) (mem : DynMem × Option ℕ) (fields : CallerField → CStr) :
    HeapM (ℕ × Matching) :=
  if source.splitLines then matchBody e charset gConvert mem fields
  else pure (0, Matching.start fields)

def matchWith (e : Expressions) (charset : GRegex) (gConvert : CStr → CStr → Option CStr)
    (source : CIRLSource) (mem : DynMem × Option ℕ) (fields : CallerField → CStr) :
    HeapM (ℕ × Matching) := do
  let result ← matchSource e charset gConvert source mem fields
  e.compiled.foldlM (unref e.reg) ()
  free (some e.charset)
  free (some e.reg)
  free (some e.pats)
  pure result

/-- The loop that compiles the expressions, and what is behind it. -/
def matchTables (reg pats : ℕ) (charset : GRegex) (gConvert : CStr → CStr → Option CStr)
    (source : CIRLSource) (mem : DynMem × Option ℕ) (fields : CallerField → CStr) :
    HeapM (ℕ × Matching) := do
  let compiled ← source.patterns.foldlM (compile reg pats) []
  let last ← malloc
  touch reg
  matchWith ⟨reg, pats, compiled, last⟩ charset gConvert source mem fields

def cirlwMatchPatterns (gTryMalloc : TryMalloc → ℤ → Bool) (charset : GRegex)
    (gConvert : CStr → CStr → Option CStr) (source : CIRLSource) (mem : DynMem × Option ℕ)
    (fields : CallerField → CStr) : HeapM (ℕ × Matching) :=
  let npat := source.patterns.length
  if npat = 0 then pure (1, Matching.start fields)
  else do
    match ← tryMalloc (gTryMalloc .reg (8 * (npat + 1))) with
    | none => pure (1, Matching.start fields)
    | some reg =>
      match ← tryMalloc (gTryMalloc .pats (8 * npat)) with
      | none => do
        free (some reg)
        pure (1, Matching.start fields)
      | some pats => matchTables reg pats charset gConvert source mem fields

/-- `g_try_realloc` frees the old block unless it refuses; then NULL takes its place. -/
def cirlwReadData (gTryRealloc : ℕ → Bool) (ptr : List UInt8) (mem : DynMem × Option ℕ) :
    HeapM (ℕ × DynMem × Option ℕ) :=
  let taken := Fritz2ci.cirlwReadData gTryRealloc ptr mem.1
  if gTryRealloc (mem.1.size + ptr.length + 1) then do
    free mem.2
    let block ← malloc
    touch block
    pure (taken.1, taken.2, some block)
  else pure (taken.1, taken.2, none)

def transferParts (gTryRealloc : ℕ → Bool) :
    List (List UInt8) → DynMem × Option ℕ → HeapM (Bool × DynMem × Option ℕ)
  | [], mem => pure (true, mem)
  | ptr :: rest, mem => do
    let taken ← cirlwReadData gTryRealloc ptr mem
    if taken.1 = ptr.length then transferParts gTryRealloc rest taken.2 else pure (false, taken.2)

/-- The answer of a source: the parts that arrive, and whether the transfer ends well behind
them. -/
structure Transfer where
  parts : List (List UInt8)
  complete : Bool

/-- The transfer as `cirlw_get_caller` looks at it. -/
def Transfer.perform (gTryRealloc : ℕ → Bool) (t : Transfer) : Option (Option (List UInt8)) :=
  if t.complete then performParts gTryRealloc (some t.parts) else none

/-- The branches on what `curl_easy_perform` returns. -/
def judgeAnswer (web : Web) (ok : Bool) (mem : DynMem × Option ℕ) (source : CIRLSource)
    (caller : CICaller) : HeapM (Except LookupFault WebAnswer) :=
  if ok then do
    let result ← cirlwMatchPatterns web.gTryMalloc web.charset web.gConvert source mem
      caller.fields
    pure (if result.2.Fits then
      .ok ⟨if result.2.foundAny then result.1 else 4, { caller with fields := result.2.fields },
        true⟩
      else .error .overrun)
  else pure (.ok ⟨1, caller, true⟩)

/-- From `curl_easy_perform` on. -/
def readAnswer (web : Web) (gTryRealloc : ℕ → Bool) (t : Transfer) (source : CIRLSource)
    (caller : CICaller) : HeapM (Except LookupFault WebAnswer) := do
  let transferred ← transferParts gTryRealloc t.parts (⟨0, none⟩, none)
  let answer ← judgeAnswer web (transferred.1 && t.complete) transferred.2 source caller
  free transferred.2.2
  pure answer

/-- Behind the url. -/
def askSource (web : Web) (gTryRealloc : ℕ → Bool) (t : Transfer) (source : CIRLSource)
    (caller : CICaller) : HeapM (Except LookupFault WebAnswer) :=
  if !web.curl then pure (.ok ⟨1, caller, false⟩) else readAnswer web gTryRealloc t source caller

def cirlwGetCaller (fuel : ℕ) (web : Web) (gTryRealloc : ℕ → Bool) (fetch : CStr → Transfer)
    (sourceid : ℕ) (caller : CICaller) : HeapM (Except LookupFault WebAnswer) :=
  match cirlwFindSource web.sources sourceid with
  | none => pure (.ok ⟨1, caller, false⟩)
  | some source =>
    match cirlwPrepareUrl (web.gTryMalloc .out) fuel source.query caller.numberComplete with
    | .error f => pure (.error (.url f))
    | .ok none => pure (.ok ⟨1, caller, false⟩)
    | .ok (some url) => do
      let block ← malloc
      touch block
      let answer ← askSource web gTryRealloc (fetch url) source caller
      free (some block)
      pure answer

/-- The record of the caller is taken and never freed. -/
def lookupGetCallerData (fuel : ℕ) (web : Web) (gTryRealloc : ℕ → Bool) (fetch : CStr → Transfer)
    (callercache : List CICaller) (cidata : CIDataSet) :
    HeapM (Except LookupFault LookupAnswer) := do
  let block ← malloc
  touch block
  match cidbFindCaller callercache (CICaller.ofNumber (cidata .cidsNumberComplete)) with
  | some caller => do
    touch block
    pure (.ok ⟨0, Function.update cidata .cidsName (caller.fields .name), callercache, false⟩)
  | none => do
    let answer ← cirlwGetCaller fuel web gTryRealloc fetch web.lookupSourceId
      (CICaller.ofNumber (cidata .cidsNumberComplete))
    touch block
    pure (match answer with
      | .error f => .error f
      | .ok answer =>
        if answer.rc = 0 then
          .ok ⟨0, Function.update cidata .cidsName (answer.caller.fields .name),
            cidbInsertCaller callercache answer.caller, answer.requested⟩
        else .ok ⟨1, cidata, callercache, answer.requested⟩)

end Fritz2ci.OnHeap
