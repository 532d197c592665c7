import Fritz2ci.Spec.Main

/-! Lengths of the strings that `handle_fritz_message` copies into a data set. Every copy is
within its field but two: the MSN of a notification may have 31 bytes where the field takes
15, and so may an area code. -/

namespace Fritz2ci

open CString CTime

def notifyField (notify : CStr) (i : ℕ) : CStr := (strsplit notify 59).getD i []

theorem callMsgType_ring_iff (kind : CStr) :
    callMsgType kind = some .ring ↔ kind = ascii "RING" := by
  unfold callMsgType
  split_ifs <;> simp_all

theorem parse_fields {notify : CStr} {cmsg : CIFritzCallMsg}
    (h : fritzParseNotification (some notify) = .ok cmsg) :
    callMsgType (notifyField notify 1) = some cmsg.msgtype ∧
      match cmsg.msgtype with
      | .ring => cmsg.callingNumber = strlcpy (notifyField notify 3) 32 ∧
          cmsg.calledNumber = strlcpy (notifyField notify 4) 32
      | .call => cmsg.callingNumber = strlcpy (notifyField notify 4) 32 ∧
          cmsg.calledNumber = strlcpy (notifyField notify 5) 32
      | _ => True := by
  simp only [fritzParseNotification] at h
  unfold parseFields at h
  split at h
  case h_2 => cases h
  case h_1 fields date kind id f3 rest heq =>
    simp only [notifyField, heq]
    dsimp only at h
    split at h
    · cases h
    all_goals
      next hk =>
        first
        | cases h
          exact ⟨hk, trivial⟩
        | split at h <;> cases h
          exact ⟨hk, by simp⟩

/-- Where the shared digits stop before a byte that is no digit, they are all the digits
the line starts with. -/
theorem matchedDigits_eq_of_end {line num : CStr}
    (h : isDigit (byteAt line (matchedDigits line num)) = false) :
    matchedDigits line num = (line.takeWhile isDigit).length := by
  induction line generalizing num with
  | nil => simp [matchedDigits]
  | cons b line ih =>
    cases num with
    | nil => simp_all [matchedDigits, byteAt]
    | cons c num =>
      unfold matchedDigits at h ⊢
      split_ifs at h ⊢ with hb
      · simp only [Bool.and_eq_true] at hb
        rw [ih (by simpa [byteAt] using h), List.takeWhile_cons_of_pos hb.1, List.length_cons]
      · have hb' : isDigit b = false := by simpa [byteAt] using h
        simp [hb']

/-- The lines that the search for the area code of a number may look at. -/
def reachedLines (ac : AreaCodes) (file : Option (List UInt8)) (num : CStr) : List CStr :=
  match ac.filename, file with
  | some _, some content =>
    if !isDigit (byteAt num 0) ∨ 0 < areaIndex num ∧ ac.indizes (areaIndex num) = 0 then []
    else searchedLines ac content num
  | _, _ => []

/-- The line on which the search stops does not match, or its code has at most 15 digits. -/
def ShortAreaCode (lines : List CStr) (num : CStr) : Prop :=
  ∀ line ∈ lines.find? fun l => codeMatches l num || codeBehind l num,
    codeMatches line num → (line.takeWhile isDigit).length ≤ 15

instance (lines : List CStr) (num : CStr) : Decidable (ShortAreaCode lines num) :=
  inferInstanceAs (Decidable (∀ line ∈ lines.find? _, _ → _))

/-- Every string is, with its terminator, no longer than the field it goes to. -/
def Fitting (writes : List (AreaBuffer × CStr)) : Prop :=
  ∀ w ∈ writes, w.2.length + 1 ≤ w.1.field.size

theorem searchLines_fit_iff {num : CStr} (hn : num.length < 32) {lines : List CStr}
    (hl : ∀ line ∈ lines, line.length ≤ 255) :
    Fitting (searchLines num lines).2 ↔ ShortAreaCode lines num := by
  unfold Fitting
  induction lines with
  | nil => simp [searchLines, ShortAreaCode]
  | cons line rest ih =>
    have ih := ih fun l h => hl l (by simp [h])
    unfold searchLines
    by_cases hm : codeMatches line num
    · have hend : matchedDigits line num = (line.takeWhile isDigit).length := by
        simp only [codeMatches, Bool.and_eq_true, Bool.not_eq_true'] at hm
        exact matchedDigits_eq_of_end hm.2
      have hcode := matchedDigits_le line num
      have hname := (areaName_length_le line (matchedDigits line num)).trans (hl line (by simp))
      simp only [hm, if_true, ShortAreaCode, List.find?_cons_of_pos, Bool.true_or]
      simp [AreaBuffer.field, CIField.size, hm, hend] at hcode hname ⊢
      omega
    · by_cases hb : codeBehind line num
      · simp [hm, hb, ShortAreaCode, unknown, ascii, AreaBuffer.field, CIField.size]
      · simpa [hm, hb, ShortAreaCode] using ih

/-- Everything written outside the search fits. -/
theorem ciGetAreaCode_writes (ac : AreaCodes) (file : Option (List UInt8)) {num : CStr}
    (hn : num.length < 32) : ∃ pre, Fitting pre ∧
      (ciGetAreaCode ac file num).2 = pre ++ (searchLines num (reachedLines ac file num)).2 := by
  have hreset : Fitting [(.numAreaCode, unknown), (.numNumber, num), (.strArea, unknown)] := by
    simp [Fitting, AreaBuffer.field, CIField.size, unknown, ascii]
    omega
  have hfirst : Fitting [(.numAreaCode, byteAt num 0 :: unknown.tail)] := by
    simp [Fitting, AreaBuffer.field, CIField.size, unknown, ascii]
  have hlast : Fitting [(.numAreaCode, unknown)] := by
    simp [Fitting, AreaBuffer.field, CIField.size, unknown, ascii]
  have happend {u v} (hu : Fitting u) (hv : Fitting v) : Fitting (u ++ v) :=
    List.forall_mem_append.2 ⟨hu, hv⟩
  rcases hf : ac.filename with - | name
  · exact ⟨[], by simp [Fitting], by simp [ciGetAreaCode, reachedLines, hf, searchLines]⟩
  by_cases hd : isDigit (byteAt num 0)
  · by_cases hi : 0 < areaIndex num ∧ ac.indizes (areaIndex num) = 0
    · refine ⟨_, happend (happend hreset hfirst) hlast, ?_⟩
      cases file <;> simp [ciGetAreaCode, reachedLines, hf, hd, hi, searchLines]
    · refine ⟨_, happend hreset hfirst, ?_⟩
      cases file <;> simp [ciGetAreaCode, reachedLines, hf, hd, hi, searchLines]
  · refine ⟨_, hreset, ?_⟩
    cases file <;> simp [ciGetAreaCode, reachedLines, hf, hd, searchLines]

theorem reachedLines_length_le (ac : AreaCodes) (file : Option (List UInt8)) (num : CStr) :
    ∀ line ∈ reachedLines ac file num, line.length ≤ 255 := by
  unfold reachedLines
  split
  · split_ifs
    · simp
    · exact searchedLines_length_le _ _ _
  · simp

theorem ciGetAreaCode_fit_iff (ac : AreaCodes) (file : Option (List UInt8)) {num : CStr}
    (hn : num.length < 32) :
    Fitting (ciGetAreaCode ac file num).2 ↔ ShortAreaCode (reachedLines ac file num) num := by
  obtain ⟨pre, hpre, heq⟩ := ciGetAreaCode_writes ac file hn
  rw [← searchLines_fit_iff hn (reachedLines_length_le ac file num), heq]
  exact List.forall_mem_append.trans (and_iff_right hpre)

theorem strcpyAll_fits (x : Fill) (writes : List (AreaBuffer × CStr)) :
    (strcpyAll x writes).Fits ↔ x.Fits ∧ Fitting writes := by
  unfold Fitting
  induction writes generalizing x with
  | nil => simp [strcpyAll]
  | cons w ws ih =>
    rw [show strcpyAll x (w :: ws) = strcpyAll (x.strcpy w.1.field w.2) ws from rfl, ih,
      strcpy_fits, and_assoc, List.forall_mem_cons]

theorem strcpy_area_fits (x : Fill) : (x.strcpy .cidsName (x.set .cidsArea)).Fits ↔ x.Fits := by
  rw [strcpy_fits]
  exact and_iff_left_of_imp fun h => h.length_lt .cidsArea

theorem fillAlias_fits (env : Surroundings) (x : Fill) : (fillAlias env x).Fits ↔ x.Fits := by
  unfold fillAlias
  split
  · next a ha =>
    have := msnlLookup_length_lt ha
    rw [strcpy_fits]
    exact and_iff_left this
  · rfl

theorem fillRing_fits_iff (env : Surroundings) {cmsg : CIFritzCallMsg}
    (hn : cmsg.callingNumber.length < 32) :
    (fillRing env cmsg).Fits ↔ cmsg.calledNumber.length ≤ 15 ∧
      ShortAreaCode (reachedLines env.areaCodes env.areaFile cmsg.callingNumber)
        cmsg.callingNumber := by
  have htime := strftime_length_lt (show 0 < 16 by decide) (formatTime cmsg.datetime)
  have hdate := strftime_length_lt (show 0 < 16 by decide) (formatGermanDate cmsg.datetime)
  have hservice : (ascii "Telefonie").length = 9 := by decide
  have hfix : (ascii "Fix").length = 3 := by decide
  simp only [fillRing]
  rw [strcpy_fits, fillAlias_fits, strcpy_area_fits]
  simp only [fillArea, strcpyAll_fits, strcpy_fits, fits_start, true_and, strcpy_set_self,
    strcpy_set_of_ne, ne_eq, reduceCtorEq, not_false_eq_true, ciGetAreaCode_fit_iff _ _ hn,
    CIField.size]
  constructor
  · rintro ⟨⟨hnumbers, harea⟩, -⟩
    exact ⟨by omega, harea⟩
  · rintro ⟨hmsn, harea⟩
    exact ⟨⟨by omega, harea⟩, hdate⟩

theorem fillCall_fits_iff (env : Surroundings) {cmsg : CIFritzCallMsg}
    (hn : cmsg.calledNumber.length < 32) :
    (fillCall env cmsg).Fits ↔ cmsg.callingNumber.length ≤ 15 := by
  have htime := strftime_length_lt (show 0 < 16 by decide) (formatTime cmsg.datetime)
  have hdate := strftime_length_lt (show 0 < 16 by decide) (formatIsoDate cmsg.datetime)
  simp only [fillCall, strcpy_fits, fillAlias_fits, CIField.size, fits_start, true_and]
  omega

theorem filled_fits_iff (env : Surroundings) {notify : CStr} {cmsg : CIFritzCallMsg}
    (h : fritzParseNotification (some notify) = .ok cmsg)
    (ht : cmsg.msgtype = .ring ∨ cmsg.msgtype = .call) :
    (filled env cmsg).Fits ↔ (notifyField notify 4).length ≤ 15 ∧
      (notifyField notify 1 = ascii "RING" →
        ShortAreaCode (reachedLines env.areaCodes env.areaFile (strlcpy (notifyField notify 3) 32))
          (strlcpy (notifyField notify 3) 32)) := by
  obtain ⟨hkind, hfields⟩ := parse_fields h
  have hcopy : ∀ s : CStr, (strlcpy s 32).length < 32 := fun s =>
    Nat.lt_succ_of_le (strlcpy_length_le s 32)
  have hmsn : (strlcpy (notifyField notify 4) 32).length ≤ 15 ↔
      (notifyField notify 4).length ≤ 15 := by
    rw [strlcpy_length]
    omega
  rw [← callMsgType_ring_iff, hkind]
  rcases ht with ht | ht
  · simp only [ht] at hfields ⊢
    have hdate := strftime_length_lt (show 0 < 16 by decide) (formatIsoDate cmsg.datetime)
    rw [filled, ht]
    show (fillRingIso env cmsg).Fits ↔ _
    rw [fillRingIso, strcpy_fits, and_iff_left (show _ + 1 ≤ CIField.cidsDate.size from hdate),
      fillRing_fits_iff env (hfields.1 ▸ hcopy _), hfields.1, hfields.2, hmsn]
    simp
  · simp only [ht] at hfields ⊢
    rw [filled, ht]
    show (fillCall env cmsg).Fits ↔ _
    rw [fillCall_fits_iff env (hfields.2 ▸ hcopy _), hfields.1, hmsn]
    simp

def berlinFile : List UInt8 := ascii "0201\tEssen\n030\tBerlin\n"

def berlin : Surroundings where
  areaCodes := ⟨some (ascii "vorwahl.dat"), fun i => if i = 30 then 11 else 0⟩
  areaFile := some berlinFile
  msnList := []
  msgid := []
  lookup _ := none
  accepts := true

def berlinRing : CIFritzCallMsg :=
  { CIFritzCallMsg.zero with
    msgtype := .ring
    callingNumber := ascii "0301234567"
    calledNumber := ascii "4930123"
    datetime := ⟨5, 4, 18, 21, 0, 113⟩ }

theorem berlin_ring_fits : (filled berlin berlinRing).Fits :=
  (filled_fits_iff berlin (show fritzParseNotification
      (some (ascii "21.01.13 18:04:05;RING;0;0301234567;4930123;SIP0;")) = .ok berlinRing by decide)
    (Or.inl rfl)).2 ⟨by decide, fun _ => by decide⟩

/-- The called number of the message may be twice as long as `cidsMSN`. -/
theorem long_msn_overflows : ¬ ∀ (env : Surroundings) (notify : CStr) (cmsg : CIFritzCallMsg),
    fritzParseNotification (some notify) = .ok cmsg →
    cmsg.msgtype = .ring ∨ cmsg.msgtype = .call → (filled env cmsg).Fits := by
  intro h
  have := h berlin (ascii "21.01.13 18:04:05;RING;0;0301234567;4930123456789012;SIP0;") _ rfl
    (Or.inl rfl)
  revert this
  decide

end Fritz2ci
