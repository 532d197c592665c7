import Fritz2ci.Proofs.AreaSearch

/-! What a failed search for an area code leaves in the buffers. The first byte of the area
code is overwritten before the search, and only two of the exits behind that undo it. -/

namespace Fritz2ci

open CString

/-- The three buffers as the start of the function leaves them. -/
structure Unknown (num : CStr) (writes : List (AreaBuffer × CStr)) : Prop where
  numAreaCode : lastWritten .numAreaCode writes = some unknown
  numNumber : lastWritten .numNumber writes = some num
  strArea : lastWritten .strArea writes = some unknown

/-- `ci_get_area_code` returns non-zero only with the buffers reset. -/
def FailureUnknown (ac : AreaCodes) (file : Option (List UInt8)) (num : CStr) : Prop :=
  (ciGetAreaCode ac file num).1 ≠ 0 → Unknown num (ciGetAreaCode ac file num).2

def SlotEmpty (ac : AreaCodes) (num : CStr) : Prop :=
  0 < areaIndex num ∧ ac.indizes (areaIndex num) = 0

instance (ac : AreaCodes) (num : CStr) : Decidable (SlotEmpty ac num) :=
  inferInstanceAs (Decidable (_ ∧ _))

/-- One of the lines has a code that begins the number or lies behind it. -/
def SearchStops (lines : List CStr) (num : CStr) : Prop :=
  ∃ line ∈ lines, codeMatches line num ∨ codeBehind line num

instance (lines : List CStr) (num : CStr) : Decidable (SearchStops lines num) :=
  inferInstanceAs (Decidable (∃ line ∈ lines, _))

theorem searchStops_cons (line : CStr) (lines : List CStr) (num : CStr) :
    SearchStops (line :: lines) num ↔
      (codeMatches line num ∨ codeBehind line num) ∨ SearchStops lines num := by
  simp [SearchStops]

theorem searchLines_fails (num : CStr) (lines : List CStr) :
    (SearchStops lines num → (searchLines num lines).1 ≠ 0 →
        searchLines num lines = (1, [(.numAreaCode, unknown)])) ∧
      (¬ SearchStops lines num → searchLines num lines = (1, [])) := by
  induction lines with
  | nil => exact ⟨fun h => by simp [SearchStops] at h, fun _ => rfl⟩
  | cons line lines ih =>
    rw [searchStops_cons, searchLines]
    by_cases hm : codeMatches line num
    · simp [hm]
    · by_cases hb : codeBehind line num
      · simp [hm, hb]
      · simpa [hm, hb] using ih

def beforeSearch (num : CStr) : List (AreaBuffer × CStr) :=
  [(.numAreaCode, unknown), (.numNumber, num), (.strArea, unknown)] ++
    [(.numAreaCode, byteAt num 0 :: unknown.tail)]

theorem unknown_of_reset (num : CStr) :
    Unknown num (beforeSearch num ++ [(.numAreaCode, unknown)]) :=
  ⟨rfl, rfl, rfl⟩

/-- A digit is not the `<` it was written over. -/
theorem not_unknown_beforeSearch {num : CStr} (h : isDigit (byteAt num 0)) :
    ¬ Unknown num (beforeSearch num) := by
  intro hu
  have hcode : some (byteAt num 0 :: unknown.tail) = some unknown := hu.numAreaCode
  have hfirst : byteAt num 0 = 60 := (List.cons.inj (Option.some.inj hcode)).1
  have hbound := (digit_bounds h).2
  rw [hfirst] at hbound
  exact absurd hbound (by decide)

theorem getAreaCode_searched {ac : AreaCodes} {name num : CStr} (content : List UInt8)
    (hname : ac.filename = some name) (hdigit : isDigit (byteAt num 0))
    (hslot : ¬ SlotEmpty ac num) :
    ciGetAreaCode ac (some content) num =
      ((searchLines num (searchedLines ac content num)).1,
        beforeSearch num ++ (searchLines num (searchedLines ac content num)).2) := by
  rw [SlotEmpty] at hslot
  unfold ciGetAreaCode beforeSearch
  simp [hname, hdigit, hslot]

theorem failureUnknown_searched_iff {ac : AreaCodes} {name num : CStr} (content : List UInt8)
    (hname : ac.filename = some name) (hdigit : isDigit (byteAt num 0))
    (hslot : ¬ SlotEmpty ac num) :
    FailureUnknown ac (some content) num ↔ SearchStops (searchedLines ac content num) num := by
  obtain ⟨hstop, hend⟩ := searchLines_fails num (searchedLines ac content num)
  rw [FailureUnknown, getAreaCode_searched content hname hdigit hslot]
  constructor
  · intro h
    by_contra hnot
    rw [hend hnot] at h
    rw [List.append_nil] at h
    exact not_unknown_beforeSearch hdigit (h Nat.one_ne_zero)
  · intro hs hrc
    rw [hstop hs hrc]
    exact unknown_of_reset num

theorem not_failureUnknown_unopened {ac : AreaCodes} {name num : CStr}
    (hname : ac.filename = some name) (hdigit : isDigit (byteAt num 0))
    (hslot : ¬ SlotEmpty ac num) : ¬ FailureUnknown ac none num := by
  have hresult : ciGetAreaCode ac none num = (1, beforeSearch num) := by
    rw [SlotEmpty] at hslot
    unfold ciGetAreaCode beforeSearch
    simp [hname, hdigit, hslot]
  rw [FailureUnknown, hresult]
  exact fun h => not_unknown_beforeSearch hdigit (h Nat.one_ne_zero)

/-- A failed search leaves the buffers reset exactly where it fails in front of the first
overwritten byte, at the empty slot, or on a line that stops it. -/
theorem failureUnknown_iff (ac : AreaCodes) (file : Option (List UInt8)) (num : CStr)
    (hname : ac.filename.isSome) :
    FailureUnknown ac file num ↔
      ¬ isDigit (byteAt num 0) ∨ SlotEmpty ac num ∨
        ∃ content, file = some content ∧ SearchStops (searchedLines ac content num) num := by
  obtain ⟨name, hname⟩ := Option.isSome_iff_exists.1 hname
  by_cases hdigit : isDigit (byteAt num 0)
  · by_cases hslot : SlotEmpty ac num
    · refine iff_of_true (fun _ => ?_) (Or.inr (Or.inl hslot))
      rw [SlotEmpty] at hslot
      unfold ciGetAreaCode
      simp only [hname, hdigit, hslot, Bool.not_true, Bool.false_eq_true, if_false, and_self,
        if_true]
      exact unknown_of_reset num
    · cases file with
      | none => simpa [hdigit, hslot] using not_failureUnknown_unopened hname hdigit hslot
      | some content =>
        rw [failureUnknown_searched_iff content hname hdigit hslot]
        simp [hdigit, hslot]
  · refine iff_of_true (fun _ => ?_) (Or.inl hdigit)
    unfold ciGetAreaCode
    simp only [hname, hdigit, Bool.not_false, if_true]
    exact ⟨rfl, rfl, rfl⟩

def loadedCodes (content : List UInt8) : AreaCodes :=
  (ciReadAreaCodesFromFile ciInitAreaCodes (some (ascii "vorwahl.dat")) (some content)).2

/-- A number behind the last code of the file. -/
theorem threeLines_behind : FailureUnknown (loadedCodes threeLines) (some threeLines)
    (ascii "029") ↔
      ¬ isDigit (byteAt (ascii "029") 0) ∨ SlotEmpty (loadedCodes threeLines) (ascii "029") ∨
        ∃ content, some threeLines = some content ∧
          SearchStops (searchedLines (loadedCodes threeLines) content (ascii "029"))
            (ascii "029") :=
  failureUnknown_iff (loadedCodes threeLines) (some threeLines) (ascii "029") rfl

/-- The search runs into the end of the file: the area code is left as `0unknown>`. -/
theorem lastLine_passed : ¬ ∀ (ac : AreaCodes) (file : Option (List UInt8)) (num : CStr),
    ac.filename.isSome → num.length ≤ 31 → FailureUnknown ac file num := by
  intro h
  have hlast := h (loadedCodes (ascii "0-int- intern\n0301 Mitte\n"))
    (some (ascii "0-int- intern\n0301 Mitte\n")) (ascii "0309") rfl (by decide)
  have hcode := (hlast (by decide)).numAreaCode
  revert hcode
  decide

end Fritz2ci
