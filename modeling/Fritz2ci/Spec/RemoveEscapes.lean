import Fritz2ci.Lib.CString
import Fritz2ci.Lib.Rewriting

/-! `_cirlw_remove_escapes` of `lookup.c` on the memory it is given: the loop with its two
indices into the string that it shortens. -/

namespace Fritz2ci

open CString Rewriting

/-- What keeps the loop from ending: an index that is no `gint`, or rounds still to go. -/
inductive EscapeFault
  | overflow
  | running
  deriving DecidableEq, Repr

abbrev Unescaping := Rewriter EscapeFault UInt8

/-- A sum of indices, none of them negative, in a `gint`: C gives no meaning to a greater one. -/
def gint (n : ℕ) : Unescaping ℕ := if n < 2 ^ 31 then pure n else throw .overflow

/-- `str[n]` -/
def strAt (n : ℕ) : Unescaping UInt8 := do load (← gint n)

/-- `str[i+d+1] == '2' && str[i+d+2] == '0'` -/
def spaceFollows (i d : ℕ) : Unescaping Bool := do
  if (← strAt (i + d + 1)) = 50 then return (← strAt (i + d + 2)) = 48 else return false

/-- `if (d > 0) str[i] = str[i+d];` -/
def moveDown (i d : ℕ) : Unescaping Unit := do
  if 0 < d then store i (← strAt (i + d))

/-- The body of the loop before `i++`, with the `d` it leaves. -/
def escapeRound (i d : ℕ) : Unescaping ℕ := do
  if (← strAt (i + d)) = 37 then
    if ← spaceFollows i d then
      store i 32
      gint (d + 2)
    else
      moveDown i d
      return d
  else
    moveDown i d
    return d

def removeEscapesLoop : ℕ → ℕ → ℕ → Unescaping Unit
  | 0, _, _ => throw .running
  | fuel + 1, i, d => do
    if (← strAt (i + d)) = 0 then store i 0
    else
      let d' ← escapeRound i d
      removeEscapesLoop fuel (← gint (i + 1)) d'

/-- `_cirlw_remove_escapes` with at most `fuel` rounds: the memory from `str` on behind it. -/
def cirlwRemoveEscapesInPlace (fuel : ℕ) (str : ℕ → UInt8) :
    Except EscapeFault (Block UInt8) :=
  (removeEscapesLoop fuel 0 0 ⟨str, []⟩).map (·.2)

end Fritz2ci
