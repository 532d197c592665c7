import Fritz2ci.Lib.CString
import Mathlib.Logic.Function.Basic

/-! `ci_areacodes.c`: the search for the area code of a number. The file is read line by
line from the offset that a table indexed by two digits gives. -/

namespace Fritz2ci

open CString

structure AreaCodes where
  /-- `_ciac_filename`, `none` for NULL -/
  filename : Option CStr
  /-- `_ciac_indizes` -/
  indizes : ℕ → ℕ

/-- The three output buffers of `ci_get_area_code`. -/
inductive AreaBuffer
  | numAreaCode | numNumber | strArea
  deriving DecidableEq, Repr

/-- `i` after the first loop over a line: the digits that line and number share. -/
def matchedDigits : CStr → CStr → ℕ
  | b :: line, c :: num =>
    if isDigit b && digitValue b == digitValue c then matchedDigits line num + 1 else 0
  | _, _ => 0

/-- The first test on a line: more than two digits agree and the line's code ends there. -/
def codeMatches (line num : CStr) : Bool :=
  let i := matchedDigits line num
  decide (2 < i) && !isDigit (byteAt line i)

/-- The second test on a line: its code lies behind the number. -/
def codeBehind (line num : CStr) : Bool :=
  let i := matchedDigits line num
  decide (digitValue (byteAt num i) < digitValue (byteAt line i))

/-- The rest of the line up to its end, behind the code and the blanks after it. -/
def areaName (line : CStr) (i : ℕ) : CStr :=
  ((line.drop i).dropWhile gIsSpace).takeWhile (· ≠ 10)

def unknown : CStr := ascii "<unknown>"

/-- The loop over the lines: the result code and the strings written on the way. -/
def searchLines (num : CStr) : List CStr → ℕ × List (AreaBuffer × CStr)
  | [] => (1, [])
  | line :: rest =>
    let i := matchedDigits line num
    if codeMatches line num then
      (0, [(.numAreaCode, num.take i), (.numNumber, num.drop i), (.strArea, areaName line i)])
    else if codeBehind line num then (1, [(.numAreaCode, unknown)])
    else searchLines num rest

/-- `index`: the second and third digit of the number. -/
def areaIndex (num : CStr) : ℕ :=
  let index := if isDigit (byteAt num 1) then (digitValue (byteAt num 1)).toNat else 0
  if isDigit (byteAt num 2) then 10 * index + (digitValue (byteAt num 2)).toNat else index

/-- The lines read from the offset in the slot of the number. -/
def searchedLines (ac : AreaCodes) (content : List UInt8) (num : CStr) : List CStr :=
  (fgetsAll 255 (content.drop (ac.indizes (areaIndex num)))).map ofBuffer

/-- `ci_get_area_code` with distinct buffers: the result code and, in order, the strings
written to the buffers. `file` is what `fopen` of the configured name finds. -/
def ciGetAreaCode (ac : AreaCodes) (file : Option (List UInt8)) (numComplete : CStr) :
    ℕ × List (AreaBuffer × CStr) :=
  match ac.filename with
  | none => (1, [])
  | some _ =>
    let reset := [(.numAreaCode, unknown), (.numNumber, numComplete), (.strArea, unknown)]
    if !isDigit (byteAt numComplete 0) then (1, reset)
    else
      -- only the first byte is overwritten here, the rest of "<unknown>" stays
      let first := reset ++ [(.numAreaCode, byteAt numComplete 0 :: unknown.tail)]
      if 0 < areaIndex numComplete ∧ ac.indizes (areaIndex numComplete) = 0 then
        (1, first ++ [(.numAreaCode, unknown)])
      else
        match file with
        | none => (1, first)
        | some content =>
          let (rc, w) := searchLines numComplete (searchedLines ac content numComplete)
          (rc, first ++ w)

/-- `ci_init_area_codes` -/
def ciInitAreaCodes : AreaCodes := { filename := none, indizes := fun _ => 0 }

/-- One line of `ci_read_area_codes_from_file`: the first line for a slot sets it, and a slot
that holds 0 counts as not set. -/
def indexLine (indizes : ℕ → ℕ) (pos : ℕ) (buffer : CStr) : ℕ → ℕ :=
  if 3 ≤ buffer.length ∧ isDigit (byteAt buffer 0) ∧ isDigit (byteAt buffer 1) ∧
      isDigit (byteAt buffer 2) then
    let index :=
      10 * (digitValue (byteAt buffer 1)).toNat + (digitValue (byteAt buffer 2)).toNat
    if indizes index = 0 then Function.update indizes index pos else indizes
  else indizes

/-- The loop over the lines; `pos` is what `ftell` gives. -/
def indexLines (indizes : ℕ → ℕ) : ℕ → List (List UInt8) → ℕ → ℕ
  | _, [] => indizes
  | pos, buffer :: rest =>
    indexLines (indexLine indizes pos (ofBuffer buffer)) (pos + buffer.length) rest

/-- `ci_read_area_codes_from_file`; `file` is what `fopen` finds. -/
def ciReadAreaCodesFromFile (ac : AreaCodes) (filename : Option CStr)
    (file : Option (List UInt8)) : ℕ × AreaCodes :=
  match filename, file with
  | none, _ => (1, ac)
  | some name, none => (1, { ac with filename := some name })
  | some name, some content =>
    (0, { filename := some name, indizes := indexLines ac.indizes 0 (fgetsAll 255 content) })

/-- What a buffer holds in the end, `none` where nothing was written to it. -/
def lastWritten (buffer : AreaBuffer) (writes : List (AreaBuffer × CStr)) : Option CStr :=
  (writes.reverse.find? (·.1 = buffer)).map (·.2)

theorem matchedDigits_le (line num : CStr) : matchedDigits line num ≤ num.length := by
  induction line generalizing num with
  | nil => simp [matchedDigits]
  | cons b line ih =>
    cases num with
    | nil => simp [matchedDigits]
    | cons c num =>
      simp only [matchedDigits, List.length_cons]
      split
      · exact Nat.succ_le_succ (ih num)
      · exact Nat.zero_le _

theorem areaName_length_le (line : CStr) (i : ℕ) : (areaName line i).length ≤ line.length := by
  unfold areaName
  calc _ ≤ ((line.drop i).dropWhile gIsSpace).length := (List.takeWhile_prefix _).length_le
    _ ≤ (line.drop i).length := (List.dropWhile_suffix _).length_le
    _ ≤ line.length := (List.drop_suffix _ _).length_le

theorem searchedLines_length_le (ac : AreaCodes) (content : List UInt8) (num : CStr) :
    ∀ line ∈ searchedLines ac content num, line.length ≤ 255 := by
  intro line hl
  obtain ⟨buf, hb, rfl⟩ := List.mem_map.1 hl
  exact (ofBuffer_length_le buf).trans (fgetsAll_length_le (by decide) _ buf hb)

end Fritz2ci
