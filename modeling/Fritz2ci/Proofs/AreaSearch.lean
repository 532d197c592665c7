import Fritz2ci.Spec.AreaCodes

/-! The search for an area code through the index finds what a search through the whole file
finds. The lines before the offset of a slot have other digits than the number, and the line
that ends the search early lies behind every code that begins the number. -/

namespace Fritz2ci

open CString

/-- The digits a line begins with. -/
def areaRun (line : CStr) : CStr := line.takeWhile isDigit

/-- The line has an area code that begins the number. -/
def IsAreaCodeOf (num line : CStr) : Prop := 3 ≤ (areaRun line).length ∧ areaRun line <+: num

instance (num line : CStr) : Decidable (IsAreaCodeOf num line) :=
  inferInstanceAs (Decidable (_ ∧ _))

/-- The area behind the code, without blanks before it. -/
def areaOf (line : CStr) : CStr := (line.dropWhile isDigit).dropWhile gIsSpace

theorem digitValue_of_digit {b : UInt8} (h : isDigit b) : digitValue b = (b.toNat : Int) - 48 :=
  if_pos h

theorem digitValue_of_not_digit {b : UInt8} (h : ¬ isDigit b) : digitValue b = -1 := if_neg h

theorem digitValue_inj {b c : UInt8} (hb : isDigit b) (h : digitValue b = digitValue c) :
    b = c := by
  have hbound := digit_bounds hb
  rw [digitValue_of_digit hb] at h
  by_cases hc : isDigit c
  · rw [digitValue_of_digit hc] at h
    exact UInt8.toNat_inj.1 (by omega)
  · rw [digitValue_of_not_digit hc] at h
    omega

@[simp] theorem byteAt_nil (i : ℕ) : byteAt [] i = 0 := rfl

@[simp] theorem byteAt_zero (b : UInt8) (s : CStr) : byteAt (b :: s) 0 = b := rfl

@[simp] theorem byteAt_succ (b : UInt8) (s : CStr) (i : ℕ) :
    byteAt (b :: s) (i + 1) = byteAt s i := rfl

theorem matchedDigits_cons (b c : UInt8) (line num : CStr) :
    matchedDigits (b :: line) (c :: num) =
      if isDigit b ∧ b = c then matchedDigits line num + 1 else 0 := by
  rw [matchedDigits]
  by_cases hb : isDigit b
  · have : digitValue b = digitValue c ↔ b = c := ⟨digitValue_inj hb, fun h => h ▸ rfl⟩
    simp [hb, this]
  · simp [hb]

theorem areaRun_cons_of_digit {b : UInt8} (hb : isDigit b) (line : CStr) :
    areaRun (b :: line) = b :: areaRun line := List.takeWhile_cons_of_pos hb

theorem areaRun_cons_of_not_digit {b : UInt8} (hb : ¬ isDigit b) (line : CStr) :
    areaRun (b :: line) = [] := List.takeWhile_cons_of_neg hb

/-- The code of the line ends where the number stops agreeing exactly when it begins the number,
and then it is the digits that agree. -/
theorem run_prefix_iff (line num : CStr) :
    ¬ isDigit (byteAt line (matchedDigits line num)) ↔ areaRun line <+: num := by
  induction line generalizing num with
  | nil => simp [areaRun, byteAt, isDigit]
  | cons b line ih =>
    by_cases hb : isDigit b
    · rw [areaRun_cons_of_digit hb]
      cases num with
      | nil => simp [matchedDigits, hb]
      | cons c num =>
        rw [matchedDigits_cons, List.cons_prefix_cons]
        by_cases hbc : b = c
        · rw [if_pos ⟨hb, hbc⟩, byteAt_succ, ih, and_iff_right hbc]
        · simp [hbc, hb]
    · have hzero : matchedDigits (b :: line) num = 0 := by
        cases num with
        | nil => rfl
        | cons c num => rw [matchedDigits_cons, if_neg fun h => hb h.1]
      simp [areaRun_cons_of_not_digit hb, hzero, hb]

theorem matchedDigits_of_prefix {line num : CStr} (h : areaRun line <+: num) :
    matchedDigits line num = (areaRun line).length := by
  induction line generalizing num with
  | nil => rfl
  | cons b line ih =>
    by_cases hb : isDigit b
    · rw [areaRun_cons_of_digit hb] at h ⊢
      cases num with
      | nil => exact absurd (List.prefix_nil.1 h) (List.cons_ne_nil _ _)
      | cons c num =>
        obtain ⟨hbc, hrest⟩ := List.cons_prefix_cons.1 h
        rw [matchedDigits_cons, if_pos ⟨hb, hbc⟩, ih hrest, List.length_cons]
    · rw [areaRun_cons_of_not_digit hb]
      cases num with
      | nil => rfl
      | cons c num => rw [matchedDigits_cons, if_neg fun h => hb h.1]; rfl

theorem codeMatches_iff (line num : CStr) : codeMatches line num ↔ IsAreaCodeOf num line := by
  have hiff := run_prefix_iff line num
  simp only [codeMatches, Bool.and_eq_true, decide_eq_true_eq, Bool.not_eq_true',
    ← Bool.not_eq_true, IsAreaCodeOf]
  rw [hiff]
  refine ⟨fun h => ⟨?_, h.2⟩, fun h => ⟨?_, h.2⟩⟩
  · have hdigits := matchedDigits_of_prefix h.2
    rw [← hdigits]
    exact h.1
  · have hdigits := matchedDigits_of_prefix h.2
    rw [hdigits]
    exact h.1

theorem digitValue_ge (b : UInt8) : -1 ≤ digitValue b := by
  by_cases hb : isDigit b
  · rw [digitValue_of_digit hb]
    have := digit_bounds hb
    omega
  · rw [digitValue_of_not_digit hb]

theorem digit_of_digitValue_lt {b : UInt8} {n : Int} (hn : -1 ≤ n) (h : n < digitValue b) :
    isDigit b := by
  by_contra hb
  rw [digitValue_of_not_digit hb] at h
  omega

theorem strcmpLe_cons {a b : UInt8} {s t : CStr} :
    strcmpLe (a :: s) (b :: t) ↔ a < b ∨ (a = b ∧ strcmpLe s t) := by
  simp [strcmpLe]

/-- A code not before that of a line is not empty, and its first digit decides or the rest. -/
theorem exists_cons_of_areaRun_le {b : UInt8} {line code : CStr} (hb : isDigit b)
    (h : strcmpLe (areaRun (b :: line)) code) :
    ∃ d code', code = d :: code' ∧ (b < d ∨ (b = d ∧ strcmpLe (areaRun line) code')) := by
  rw [areaRun_cons_of_digit hb] at h
  cases code with
  | nil => exact absurd h Bool.false_ne_true
  | cons d code => exact ⟨d, code, rfl, strcmpLe_cons.1 h⟩

theorem not_prefix_of_codeBehind {line num code : CStr} (h : codeBehind line num)
    (hle : strcmpLe (areaRun line) code) (hdigits : ∀ d ∈ code, isDigit d) : ¬ code <+: num := by
  intro hpre
  induction line generalizing num code with
  | nil =>
    rw [codeBehind, decide_eq_true_eq] at h
    have hge := digitValue_ge (byteAt num (matchedDigits [] num))
    have hzero : digitValue (byteAt [] (matchedDigits [] num)) = -1 := rfl
    omega
  | cons b line ih =>
    rw [codeBehind, decide_eq_true_eq] at h
    cases num with
    | nil =>
      have hb : isDigit b := digit_of_digitValue_lt (digitValue_ge 0) h
      obtain ⟨d, code, rfl, -⟩ := exists_cons_of_areaRun_le hb hle
      exact absurd (List.prefix_nil.1 hpre) (List.cons_ne_nil _ _)
    | cons c num =>
      rw [matchedDigits_cons] at h
      split_ifs at h with hbc
      · obtain ⟨hb, rfl⟩ := hbc
        obtain ⟨d, code, rfl, hlt | ⟨-, hrest⟩⟩ := exists_cons_of_areaRun_le hb hle
        · exact absurd (List.cons_prefix_cons.1 hpre).1 (UInt8.ne_of_lt hlt).symm
        · exact ih (decide_eq_true h) hrest (List.forall_mem_cons.1 hdigits).2
            (List.cons_prefix_cons.1 hpre).2
      · rw [byteAt_zero, byteAt_zero] at h
        have hb : isDigit b := digit_of_digitValue_lt (digitValue_ge c) h
        obtain ⟨d, code, rfl, hcmp⟩ := exists_cons_of_areaRun_le hb hle
        obtain ⟨rfl, -⟩ := List.cons_prefix_cons.1 hpre
        rw [digitValue_of_digit hb, digitValue_of_digit (List.forall_mem_cons.1 hdigits).1] at h
        rcases hcmp with hlt | ⟨rfl, -⟩
        · rw [UInt8.lt_iff_toNat_lt] at hlt
          omega
        · exact absurd h (lt_irrefl _)

/-- The codes of the lines ascend; lines without one do not count. -/
def Ascending (lines : List CStr) : Prop :=
  ((lines.map areaRun).filter (· ≠ [])).Pairwise (strcmpLe · ·)

instance (lines : List CStr) : Decidable (Ascending lines) :=
  inferInstanceAs (Decidable (List.Pairwise _ _))

theorem ascending_cons {line : CStr} {lines : List CStr} (h : Ascending (line :: lines)) :
    (areaRun line ≠ [] → ∀ l ∈ lines, areaRun l ≠ [] → strcmpLe (areaRun line) (areaRun l)) ∧
      Ascending lines := by
  unfold Ascending at h ⊢
  rw [List.map_cons] at h
  by_cases hne : areaRun line = []
  · rw [List.filter_cons_of_neg (by simpa using hne)] at h
    exact ⟨fun h' => absurd hne h', h⟩
  · rw [List.filter_cons_of_pos (by simpa using hne), List.pairwise_cons] at h
    refine ⟨fun _ l hl hl' => h.1 _ ?_, h.2⟩
    rw [List.mem_filter]
    exact ⟨List.mem_map_of_mem hl, by simpa using hl'⟩

theorem run_ne_nil_of_codeBehind {line num : CStr} (h : codeBehind line num) :
    areaRun line ≠ [] := by
  intro hrun
  have hnil : strcmpLe (areaRun line) [] := by
    rw [hrun]
    rfl
  exact not_prefix_of_codeBehind h hnil (by simp) List.nil_prefix

theorem searchLines_eq (num : CStr) {lines : List CStr} (h : Ascending lines) :
    match lines.find? (IsAreaCodeOf num ·) with
    | some line => searchLines num lines =
        (0, [(.numAreaCode, num.take (matchedDigits line num)),
          (.numNumber, num.drop (matchedDigits line num)),
          (.strArea, areaName line (matchedDigits line num))])
    | none => (searchLines num lines).1 = 1 := by
  induction lines with
  | nil => rfl
  | cons line lines ih =>
    obtain ⟨hle, hrest⟩ := ascending_cons h
    rw [searchLines]
    by_cases hm : codeMatches line num
    · rw [List.find?_cons_of_pos (by simpa using (codeMatches_iff line num).1 hm), if_pos hm]
    · rw [List.find?_cons_of_neg (by simpa using mt (codeMatches_iff line num).2 hm), if_neg hm]
      by_cases hb : codeBehind line num
      · have hnone : lines.find? (IsAreaCodeOf num ·) = none := by
          refine List.find?_eq_none.2 fun l hl hcode => ?_
          obtain ⟨hlen, hpre⟩ := of_decide_eq_true hcode
          have hne : areaRun l ≠ [] := List.ne_nil_of_length_pos (by omega)
          exact not_prefix_of_codeBehind hb (hle (run_ne_nil_of_codeBehind hb) l hl hne)
            (fun d hd => List.mem_takeWhile_imp hd) hpre
        rw [hnone, if_pos hb]
      · rw [if_neg hb]
        exact ih hrest

/-- The slot of a line with three digits. -/
def lineIndex (line : CStr) : ℕ :=
  10 * (digitValue (byteAt line 1)).toNat + (digitValue (byteAt line 2)).toNat

def inSlot (slot : ℕ) (line : CStr) : Bool :=
  decide (3 ≤ (areaRun line).length) && lineIndex line == slot

theorem three_digits_iff (line : CStr) :
    (3 ≤ line.length ∧ isDigit (byteAt line 0) ∧ isDigit (byteAt line 1) ∧
      isDigit (byteAt line 2)) ↔ 3 ≤ (areaRun line).length := by
  match line with
  | [] => simp [areaRun]
  | [a] => by_cases ha : isDigit a <;> simp [areaRun, ha]
  | [a, b] => by_cases ha : isDigit a <;> by_cases hb : isDigit b <;> simp [areaRun, ha, hb]
  | a :: b :: c :: line =>
    by_cases ha : isDigit a <;> by_cases hb : isDigit b <;> by_cases hc : isDigit c <;>
      simp [areaRun, byteAt, ha, hb, hc]

theorem indexLine_apply (indizes : ℕ → ℕ) (pos : ℕ) (line : CStr) (slot : ℕ) :
    indexLine indizes pos line slot =
      if inSlot slot line ∧ indizes slot = 0 then pos else indizes slot := by
  unfold indexLine inSlot
  rw [if_congr (three_digits_iff line) rfl rfl]
  dsimp only
  rw [← lineIndex]
  by_cases hrun : 3 ≤ (areaRun line).length
  · by_cases hslot : lineIndex line = slot
    · subst hslot
      by_cases hz : indizes (lineIndex line) = 0 <;> simp [hrun, hz]
    · have hne : slot ≠ lineIndex line := fun h => hslot h.symm
      by_cases hz : indizes (lineIndex line) = 0 <;> simp [hrun, hslot, hz, hne]
  · simp [hrun]

theorem indexLines_apply (indizes : ℕ → ℕ) {pos : ℕ} (hpos : 0 < pos)
    {buffers : List (List UInt8)} (hnul : ∀ b ∈ buffers, 0 ∉ b) (slot : ℕ) :
    indexLines indizes pos buffers slot =
      if indizes slot ≠ 0 then indizes slot
      else if buffers.findIdx (inSlot slot) < buffers.length then
        pos + (buffers.take (buffers.findIdx (inSlot slot))).flatten.length
      else 0 := by
  induction buffers generalizing indizes pos with
  | nil =>
    by_cases h : indizes slot = 0 <;> simp [indexLines, h]
  | cons b buffers ih =>
    obtain ⟨hb, hbuffers⟩ := List.forall_mem_cons.1 hnul
    rw [indexLines, ofBuffer_eq_self hb, ih _ (Nat.add_pos_left hpos _) hbuffers, indexLine_apply,
      List.findIdx_cons]
    by_cases hset : indizes slot = 0
    · cases hin : inSlot slot b with
      | true =>
        have hne : pos ≠ 0 := by omega
        simp [hset, hne]
      | false => simp [hset, Nat.add_assoc]
    · simp [hset]

theorem not_inSlot_of_short {line : CStr} (h : (areaRun line).length < 3) (slot : ℕ) :
    inSlot slot line = false := by
  simp [inSlot, Nat.not_le.2 h]

theorem findIdx_pos_of_head {b : List UInt8} {buffers : List (List UInt8)} {slot : ℕ}
    (h : inSlot slot b = false) : (b :: buffers).findIdx (inSlot slot) =
      buffers.findIdx (inSlot slot) + 1 := by
  rw [List.findIdx_cons, h]
  rfl

/-- The first line of a file never sets its slot: the offset 0 is the mark of an empty one. -/
theorem slot_of_cons {b : List UInt8} {buffers : List (List UInt8)}
    (hnul : ∀ b' ∈ b :: buffers, 0 ∉ b') (hne : b ≠ []) (slot : ℕ) :
    indexLines (fun _ => 0) 0 (b :: buffers) slot =
      if buffers.findIdx (inSlot slot) < buffers.length then
        ((b :: buffers).take (buffers.findIdx (inSlot slot) + 1)).flatten.length
      else 0 := by
  obtain ⟨hb, hbuffers⟩ := List.forall_mem_cons.1 hnul
  have hsame : indexLine (fun _ => 0) 0 b = fun _ => 0 := by
    funext slot
    simp [indexLine_apply]
  have hpos : 0 < 0 + b.length := by
    rw [Nat.zero_add]
    exact List.length_pos_of_ne_nil hne
  rw [indexLines, ofBuffer_eq_self hb, hsame, indexLines_apply _ hpos hbuffers]
  simp

theorem slot_of_file {buffers : List (List UInt8)} (hnul : ∀ b ∈ buffers, 0 ∉ b)
    (hne : ∀ b ∈ buffers, b ≠ []) (hfirst : (areaRun (buffers.headD [])).length < 3) (slot : ℕ) :
    indexLines (fun _ => 0) 0 buffers slot =
      if buffers.findIdx (inSlot slot) < buffers.length then
        (buffers.take (buffers.findIdx (inSlot slot))).flatten.length
      else 0 := by
  cases buffers with
  | nil => rfl
  | cons b buffers =>
    have hin : inSlot slot b = false := not_inSlot_of_short hfirst slot
    rw [slot_of_cons hnul (hne b (by simp)), findIdx_pos_of_head hin, List.length_cons]
    simp only [Nat.add_lt_add_iff_right]

theorem inSlot_of_isAreaCode {num line : CStr} (h : IsAreaCodeOf num line) :
    inSlot (areaIndex num) line := by
  obtain ⟨hlen, hpre⟩ := h
  obtain ⟨hline, h₀, h₁, h₂⟩ := (three_digits_iff line).2 hlen
  match line, hline with
  | a :: b :: c :: line, _ =>
    simp only [byteAt_zero, byteAt_succ] at h₀ h₁ h₂
    have hrun : areaRun (a :: b :: c :: line) = a :: b :: c :: areaRun line := by
      simp [areaRun, h₀, h₁, h₂]
    rw [hrun] at hpre hlen
    obtain ⟨rest, rfl⟩ := hpre
    simp [inSlot, hrun, lineIndex, areaIndex, h₁, h₂]

theorem digit_of_isAreaCode {num line : CStr} (h : IsAreaCodeOf num line) :
    isDigit (byteAt num 0) := by
  obtain ⟨hlen, rest, rfl⟩ := h
  obtain ⟨hline, h₀, -, -⟩ := (three_digits_iff line).2 hlen
  cases line with
  | nil => exact absurd hline (by decide)
  | cons a line =>
    rw [byteAt_zero] at h₀
    simp [areaRun, h₀]

/-- Nothing is missed by starting at the first element of a wider kind. -/
theorem find?_drop_findIdx {α : Type*} {p q : α → Bool} (h : ∀ a, p a → q a) (l : List α) :
    (l.drop (l.findIdx q)).find? p = l.find? p := by
  induction l with
  | nil => rfl
  | cons a l ih =>
    rw [List.findIdx_cons]
    cases hq : q a with
    | true => rfl
    | false =>
      have hp : ¬ p a := fun hp => Bool.false_ne_true (hq.symm.trans (h a hp))
      rw [List.find?_cons_of_neg hp]
      exact ih

theorem ascending_drop {lines : List CStr} (h : Ascending lines) (k : ℕ) :
    Ascending (lines.drop k) := by
  induction k generalizing lines with
  | zero => exact h
  | succ k ih =>
    cases lines with
    | nil => exact h
    | cons line lines => exact ih (ascending_cons h).2

theorem map_ofBuffer {buffers : List (List UInt8)} (h : ∀ b ∈ buffers, 0 ∉ b) :
    buffers.map ofBuffer = buffers :=
  (List.map_congr_left fun b hb => ofBuffer_eq_self (h b hb)).trans (List.map_id' buffers)

theorem slot_pos {buffers : List (List UInt8)} (hne : ∀ b ∈ buffers, b ≠ [])
    (hfirst : (areaRun (buffers.headD [])).length < 3) {slot : ℕ}
    (h : buffers.findIdx (inSlot slot) < buffers.length) :
    0 < (buffers.take (buffers.findIdx (inSlot slot))).flatten.length := by
  cases buffers with
  | nil => exact absurd h (Nat.not_lt_zero _)
  | cons b buffers =>
    have hb := List.length_pos_of_ne_nil (hne b (by simp))
    have hin : inSlot slot b = false := not_inSlot_of_short hfirst slot
    rw [findIdx_pos_of_head hin, List.take_succ_cons, List.flatten_cons, List.length_append]
    omega

/-- What the three writes of a found code leave, whatever was written before. -/
structure Found (result : ℕ × List (AreaBuffer × CStr)) (code number area : CStr) : Prop where
  rc : result.1 = 0
  numAreaCode : lastWritten .numAreaCode result.2 = some code
  numNumber : lastWritten .numNumber result.2 = some number
  strArea : lastWritten .strArea result.2 = some area

theorem found_of_writes (before : List (AreaBuffer × CStr)) (code number area : CStr) :
    Found (0, before ++ [(.numAreaCode, code), (.numNumber, number), (.strArea, area)])
      code number area := by
  refine ⟨rfl, ?_, ?_, ?_⟩ <;> simp [lastWritten]

/-- The searched lines begin at the slot of the number, or at the start of the file. -/
theorem searchedLines_eq {buffers : List (List UInt8)} (filename num : CStr)
    (hread : ∀ k, fgetsAll 255 (buffers.flatten.drop (buffers.take k).flatten.length) =
      buffers.drop k)
    (hnul : ∀ b ∈ buffers, 0 ∉ b) (hne : ∀ b ∈ buffers, b ≠ [])
    (hfirst : (areaRun (buffers.headD [])).length < 3) :
    searchedLines (ciReadAreaCodesFromFile ciInitAreaCodes (some filename)
        (some buffers.flatten)).2 buffers.flatten num =
      buffers.drop (if buffers.findIdx (inSlot (areaIndex num)) < buffers.length then
        buffers.findIdx (inSlot (areaIndex num)) else 0) := by
  have hwhole : fgetsAll 255 buffers.flatten = buffers := hread 0
  unfold searchedLines
  simp only [ciReadAreaCodesFromFile, ciInitAreaCodes, hwhole, slot_of_file hnul hne hfirst]
  split_ifs with hfound
  · rw [hread, map_ofBuffer fun b hb => hnul b (List.mem_of_mem_drop hb)]
  · rw [List.drop_zero, List.drop_zero, hwhole, map_ofBuffer hnul]

theorem getAreaCode_found {ac : AreaCodes} {name num : CStr} {content : List UInt8}
    {w : List (AreaBuffer × CStr)} (hname : ac.filename = some name)
    (hdigit : isDigit (byteAt num 0)) (hset : ac.indizes (areaIndex num) ≠ 0)
    (hsearch : searchLines num (searchedLines ac content num) = (0, w)) :
    ∃ before, ciGetAreaCode ac (some content) num = (0, before ++ w) := by
  refine ⟨[(.numAreaCode, unknown), (.numNumber, num), (.strArea, unknown)] ++
    [(.numAreaCode, byteAt num 0 :: unknown.tail)], ?_⟩
  unfold ciGetAreaCode
  simp [hname, hdigit, hset, hsearch]

theorem getAreaCode_failed (ac : AreaCodes) {num : CStr} {content : List UInt8}
    (hsearch : (searchLines num (searchedLines ac content num)).1 = 1) :
    (ciGetAreaCode ac (some content) num).1 = 1 := by
  unfold ciGetAreaCode
  cases ac.filename with
  | none => rfl
  | some name =>
    dsimp only
    by_cases hdigit : isDigit (byteAt num 0)
    · by_cases hset : 0 < areaIndex num ∧ ac.indizes (areaIndex num) = 0
      · simp only [hdigit, Bool.not_true, Bool.false_eq_true, if_false, if_pos hset]
      · simpa only [hdigit, Bool.not_true, Bool.false_eq_true, if_false, if_neg hset] using hsearch
    · simp [hdigit]

theorem getAreaCode_of_buffers {buffers : List (List UInt8)} (filename num : CStr)
    (hread : ∀ k, fgetsAll 255 (buffers.flatten.drop (buffers.take k).flatten.length) =
      buffers.drop k)
    (hnul : ∀ b ∈ buffers, 0 ∉ b) (hne : ∀ b ∈ buffers, b ≠ [])
    (hfirst : (areaRun (buffers.headD [])).length < 3) (hsorted : Ascending buffers) :
    let ac := (ciReadAreaCodesFromFile ciInitAreaCodes (some filename)
      (some buffers.flatten)).2
    match buffers.find? (IsAreaCodeOf num ·) with
    | some b => Found (ciGetAreaCode ac (some buffers.flatten) num)
        (num.take (matchedDigits b num)) (num.drop (matchedDigits b num))
        (areaName b (matchedDigits b num))
    | none => (ciGetAreaCode ac (some buffers.flatten) num).1 = 1 := by
  intro ac
  have hslots : ∀ b, decide (IsAreaCodeOf num b) → inSlot (areaIndex num) b :=
    fun b hb => inSlot_of_isAreaCode (of_decide_eq_true hb)
  have hlines := searchedLines_eq filename num hread hnul hne hfirst
  have hslot := slot_of_file hnul hne hfirst (areaIndex num)
  set k := buffers.findIdx (inSlot (areaIndex num)) with hk
  have hskip : (buffers.drop (if k < buffers.length then k else 0)).find? (IsAreaCodeOf num ·) =
      buffers.find? (IsAreaCodeOf num ·) := by
    split_ifs
    · exact find?_drop_findIdx hslots buffers
    · rfl
  have hsearch := searchLines_eq num (ascending_drop hsorted (if k < buffers.length then k else 0))
  rw [hskip, ← hlines] at hsearch
  have hindizes : ac.indizes (areaIndex num) =
      if k < buffers.length then (buffers.take k).flatten.length else 0 := by
    rw [← hslot]
    exact congrArg (indexLines _ 0 · _) (hread 0)
  cases hfind : buffers.find? (IsAreaCodeOf num ·) with
  | some b =>
    have hcode : IsAreaCodeOf num b := by simpa using List.find?_some hfind
    have hmem := List.mem_of_find?_eq_some hfind
    have hlt : k < buffers.length :=
      List.findIdx_lt_length_of_exists ⟨b, hmem, inSlot_of_isAreaCode hcode⟩
    have hset : ac.indizes (areaIndex num) ≠ 0 := by
      rw [hindizes, if_pos hlt]
      exact (slot_pos hne hfirst hlt).ne'
    rw [hfind] at hsearch
    obtain ⟨before, h⟩ := getAreaCode_found rfl (digit_of_isAreaCode hcode) hset hsearch
    dsimp only
    rw [h]
    exact found_of_writes before _ _ _
  | none =>
    rw [hfind] at hsearch
    exact getAreaCode_failed ac hsearch

theorem areaRun_newline (line : CStr) : areaRun (line ++ [10]) = areaRun line := by
  induction line with
  | nil => rfl
  | cons b line ih =>
    by_cases hb : isDigit b
    · simp only [areaRun, List.cons_append, List.takeWhile_cons_of_pos hb] at ih ⊢
      rw [ih]
    · simp only [areaRun, List.cons_append, List.takeWhile_cons_of_neg hb]

theorem isAreaCodeOf_newline (num line : CStr) :
    IsAreaCodeOf num (line ++ [10]) ↔ IsAreaCodeOf num line := by
  rw [IsAreaCodeOf, IsAreaCodeOf, areaRun_newline]

theorem areaRun_filter_lineBuffers (ls : List CStr) :
    ((lineBuffers ls).map areaRun).filter (· ≠ []) = (ls.map areaRun).filter (· ≠ []) := by
  fun_induction lineBuffers ls with
  | case1 => rfl
  | case2 => rfl
  | case3 r => rfl
  | case4 l l' ls ih =>
    simp only [List.map_cons, areaRun_newline, List.filter_cons] at ih ⊢
    rw [ih]

theorem headD_lineBuffers (ls : List CStr) :
    areaRun ((lineBuffers ls).headD []) = areaRun (ls.headD []) := by
  fun_cases lineBuffers ls with
  | case1 => rfl
  | case2 => rfl
  | case3 r => rfl
  | case4 l l' ls => exact areaRun_newline l

/-- The first line with a code of the number, with or without its newline. -/
theorem find?_lineBuffers (num : CStr) (ls : List CStr) :
    match ls.find? (IsAreaCodeOf num ·) with
    | some line => ∃ b, (lineBuffers ls).find? (IsAreaCodeOf num ·) = some b ∧
        (b = line ∨ b = line ++ [10])
    | none => (lineBuffers ls).find? (IsAreaCodeOf num ·) = none := by
  fun_induction lineBuffers ls with
  | case1 => rfl
  | case2 => rfl
  | case3 r hr =>
    cases h : [r].find? (IsAreaCodeOf num ·) with
    | none => rfl
    | some line =>
      obtain rfl := List.mem_singleton.1 (List.mem_of_find?_eq_some h)
      exact ⟨line, rfl, Or.inl rfl⟩
  | case4 l l' ls ih =>
    by_cases hl : IsAreaCodeOf num l
    · rw [List.find?_cons_of_pos (by simpa using hl)]
      refine ⟨l ++ [10], ?_, Or.inr rfl⟩
      rw [List.find?_cons_of_pos (by simpa using (isAreaCodeOf_newline num l).2 hl)]
    · have hl' : ¬ IsAreaCodeOf num (l ++ [10]) := mt (isAreaCodeOf_newline num l).1 hl
      rw [List.find?_cons_of_neg (l := l' :: ls) (by simpa using hl),
        List.find?_cons_of_neg (a := l ++ [10]) (by simpa using hl')]
      exact ih

theorem takeWhile_newline {line : CStr} (h : 10 ∉ line) :
    line.takeWhile (· ≠ 10) = line ∧ (line ++ [10]).takeWhile (· ≠ 10) = line := by
  induction line with
  | nil => exact ⟨rfl, rfl⟩
  | cons b line ih =>
    rw [List.mem_cons, not_or] at h
    obtain ⟨h₁, h₂⟩ := ih h.2
    have hb : ∀ s : CStr, (b :: s).takeWhile (· ≠ 10) = b :: s.takeWhile (· ≠ 10) := fun s =>
      List.takeWhile_cons_of_pos (decide_eq_true fun e => h.1 e.symm)
    rw [List.cons_append, hb, hb, h₁, h₂]
    exact ⟨rfl, rfl⟩

theorem area_newline {rest : CStr} (h : 10 ∉ rest) :
    (rest.dropWhile gIsSpace).takeWhile (· ≠ 10) = rest.dropWhile gIsSpace ∧
      ((rest ++ [10]).dropWhile gIsSpace).takeWhile (· ≠ 10) = rest.dropWhile gIsSpace := by
  induction rest with
  | nil => exact ⟨rfl, rfl⟩
  | cons b rest ih =>
    by_cases hb : gIsSpace b
    · rw [List.cons_append, List.dropWhile_cons_of_pos hb, List.dropWhile_cons_of_pos hb]
      exact ih fun hm => h (List.mem_cons_of_mem b hm)
    · rw [List.cons_append, List.dropWhile_cons_of_neg hb, List.dropWhile_cons_of_neg hb]
      exact takeWhile_newline h

theorem drop_areaRun (line : CStr) :
    line.drop (areaRun line).length = line.dropWhile isDigit := drop_takeWhile isDigit line

theorem matchedDigits_of_line {num line b : CStr} (hpre : areaRun line <+: num)
    (hb : b = line ∨ b = line ++ [10]) : matchedDigits b num = (areaRun line).length := by
  have hrun : areaRun b = areaRun line := by
    rcases hb with rfl | rfl
    · rfl
    · exact areaRun_newline line
  rw [← hrun]
  exact matchedDigits_of_prefix (hrun ▸ hpre)

theorem areaName_of_line {line b : CStr} (hline : 10 ∉ line) (hb : b = line ∨ b = line ++ [10]) :
    areaName b (areaRun line).length = areaOf line := by
  have hrest : 10 ∉ line.dropWhile isDigit := fun hm =>
    hline ((List.dropWhile_suffix _).subset hm)
  obtain ⟨h₁, h₂⟩ := area_newline hrest
  rcases hb with rfl | rfl
  · rw [areaName, drop_areaRun]
    exact h₁
  · have hle : (areaRun line).length ≤ line.length := (List.takeWhile_prefix _).length_le
    rw [areaName, List.drop_append_of_le_length hle, drop_areaRun]
    exact h₂

theorem lineBuffers_ne_nil (ls : List CStr) : ∀ b ∈ lineBuffers ls, b ≠ [] := by
  fun_induction lineBuffers ls with
  | case1 => simp
  | case2 => simp
  | case3 r hr => simpa using hr
  | case4 l l' ls ih => exact List.forall_mem_cons.2 ⟨by simp, ih⟩

/-- The search through the index gives what the first line with a code of the number says, and
fails where there is none. -/
theorem areaCode_search (filename : CStr) (content : List UInt8) (num : CStr)
    (hshort : ∀ line ∈ content.splitOn 10, line.length < 255) (hnul : 0 ∉ content)
    (hsorted : Ascending (content.splitOn 10))
    (hfirst : (areaRun ((content.splitOn 10).headD [])).length < 3) :
    let ac := (ciReadAreaCodesFromFile ciInitAreaCodes (some filename) (some content)).2
    match (content.splitOn 10).find? (IsAreaCodeOf num ·) with
    | some line => ∃ number, areaRun line ++ number = num ∧
        Found (ciGetAreaCode ac (some content) num) (areaRun line) number (areaOf line)
    | none => (ciGetAreaCode ac (some content) num).1 ≠ 0 := by
  intro ac
  have hcontent := flatten_buffers_of_content content
  have hread := fgetsAll_drop_lineBuffers fun l hl =>
    ⟨sep_not_mem_splitOn 10 content l hl, hshort l hl⟩
  have hnul' : ∀ b ∈ lineBuffers (content.splitOn 10), 0 ∉ b := fun b hb hm =>
    hnul (buffer_subset hb hm)
  have hsorted' : Ascending (lineBuffers (content.splitOn 10)) := by
    unfold Ascending at hsorted ⊢
    rwa [areaRun_filter_lineBuffers]
  have hsearch := getAreaCode_of_buffers filename num hread hnul'
    (lineBuffers_ne_nil (content.splitOn 10)) (by rwa [headD_lineBuffers]) hsorted'
  rw [hcontent] at hsearch
  have hfind := find?_lineBuffers num (content.splitOn 10)
  cases hline : (content.splitOn 10).find? (IsAreaCodeOf num ·) with
  | some line =>
    rw [hline] at hfind
    obtain ⟨b, hb, hor⟩ := hfind
    obtain ⟨hlen, hpre⟩ : IsAreaCodeOf num line := by simpa using List.find?_some hline
    have hmem := List.mem_of_find?_eq_some hline
    rw [hb] at hsearch
    dsimp only at hsearch
    rw [matchedDigits_of_line hpre hor,
      areaName_of_line (sep_not_mem_splitOn 10 content line hmem) hor,
      ← List.prefix_iff_eq_take.1 hpre] at hsearch
    obtain ⟨number, rfl⟩ := hpre
    rw [List.drop_left] at hsearch
    exact ⟨number, rfl, hsearch⟩
  | none =>
    rw [hline] at hfind
    rw [hfind] at hsearch
    exact fun h => absurd (hsearch.symm.trans h) (by decide)

def threeLines : List UInt8 := ascii "0-int- intern\n030 Berlin\n0301 Mitte\n"

theorem threeLines_berlin :
    ∃ number, areaRun (ascii "030 Berlin") ++ number = ascii "0309" ∧
      Found (ciGetAreaCode
          (ciReadAreaCodesFromFile ciInitAreaCodes (some (ascii "f")) (some threeLines)).2
          (some threeLines) (ascii "0309"))
        (areaRun (ascii "030 Berlin")) number (areaOf (ascii "030 Berlin")) :=
  areaCode_search (ascii "f") threeLines (ascii "0309") (by decide) (by decide) (by decide)
    (by decide)

end Fritz2ci
