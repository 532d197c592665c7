import Fritz2ci.Lib.CString

/-! `_cirlw_prepare_url` of `lookup.c`: the query template of a source with the number put
in. The index `i` into the template is modelled by what the template holds from `i` on. -/

namespace Fritz2ci

open CString

/-- What keeps the preparation from returning: a read behind the terminator of the
template, a store behind the 32 bytes of `pattern`, or a loop not yet left. -/
inductive UrlFault
  | overread
  | overflow
  | running
  deriving DecidableEq, Repr

/-- `sizeof (pattern)` -/
def PATTERN_SIZE : ℕ := 32

/-- The conversion to a `gint`. -/
def toGint (n : ℤ) : ℤ := n.bmod (2 ^ 32)

def percent : UInt8 := 37

/-- A '%' that no digit follows opens a placeholder. -/
def opensPlaceholder (b : UInt8) (rest : CStr) : Bool := b = percent && !isDigit (byteAt rest 0)

/-- The loop that copies the bytes up to the next '%' into `pattern`, of which `k` are
stored already, and terminates them. Over the terminator of the template it goes on. -/
def readPattern : CStr → ℕ → Except UrlFault CStr
  | [], k => .error (if k < PATTERN_SIZE then .overread else .overflow)
  | b :: rest, k =>
    if k < PATTERN_SIZE then
      if b = percent then .ok [] else (readPattern rest (k + 1)).map (b :: ·)
    else .error .overflow

def numberPattern : CStr := ascii "NUMBER"

/-- `_getsubstitutediff` -/
def getsubstitutediff (str number : CStr) : Except UrlFault ℤ :=
  if byteAt str 0 ≠ percent then .ok 0
  else do
    let pattern ← readPattern str.tail 0
    if pattern = numberPattern then return toGint (number.length - pattern.length - 2)
    else return 0

/-- `do { i++; } while (url[i] != '%')` from behind an opening '%', and the step over the
closing one. -/
def skipPlaceholder : CStr → Except UrlFault CStr
  | [] => .error .overread
  | b :: rest => if b = percent then .ok rest else skipPlaceholder rest

/-- The first pass: what the substitutions add to the length. -/
def urlDiff (number : CStr) : ℕ → CStr → ℤ → Except UrlFault ℤ
  | _, [], diff => .ok diff
  | 0, _ :: _, _ => .error .running
  | n + 1, b :: rest, diff =>
    if opensPlaceholder b rest then do
      let d ← getsubstitutediff (b :: rest) number
      let url ← skipPlaceholder rest
      urlDiff number n url (toGint (diff + d))
    else urlDiff number n rest diff

/-- The second pass: the text put into `out`. -/
def urlText (number : CStr) : ℕ → CStr → Except UrlFault CStr
  | _, [] => .ok []
  | 0, _ :: _ => .error .running
  | n + 1, b :: rest =>
    if opensPlaceholder b rest then do
      let pattern ← readPattern rest 0
      if pattern = numberPattern then
        (urlText number n (rest.drop (pattern.length + 1))).map (number ++ ·)
      else
        -- `i -= k+2` undoes the step over the placeholder
        urlText number n (b :: rest)
    else (urlText number n rest).map (b :: ·)

/-- `length+1+diff`, the size asked of `g_try_malloc`. -/
def urlSize (number : CStr) (fuel : ℕ) (url : CStr) : Except UrlFault ℤ := do
  let diff ← urlDiff number fuel url 0
  return url.length + 1 + diff

/-- `_cirlw_prepare_url` with at most `fuel` rounds of each loop; `none` is the NULL
returned where `g_try_malloc` cannot serve the size. -/
def cirlwPrepareUrl (gTryMalloc : ℤ → Bool) (fuel : ℕ) (url number : CStr) :
    Except UrlFault (Option CStr) := do
  let size ← urlSize number fuel url
  if gTryMalloc size then return some (← urlText number fuel url) else return none

end Fritz2ci
