import Fritz2ci.Proofs.AreaSearch
import Mathlib.Data.List.GetD

/-! What the slots of the index hold. The first line of the file has offset 0, and that is
the mark of an empty slot: its own slot stays empty, or a later line of the key takes it. -/

namespace Fritz2ci

open CString

/-- The bytes before a line, with their newlines. -/
def lineOffset (lines : List CStr) (k : ℕ) : ℕ :=
  ((lines.take k).flatMap fun l => l ++ [10]).length

/-- `ci_get_area_code` searches the lines it reads from this offset on, whatever the file
holds. -/
def ReadsFrom (ac : AreaCodes) (num : CStr) (off : ℕ) : Prop :=
  ∀ content, ∃ before,
    let found := searchLines num ((fgetsAll 255 (content.drop off)).map ofBuffer)
    ciGetAreaCode ac (some content) num = (found.1, before ++ found.2)

/-- The slot of a key holds the offset of the first line of the key, and the numbers of the key
are searched from there. Where there is none it holds 0. -/
def SlotFaithful (ac : AreaCodes) (lines : List CStr) (key : ℕ) : Prop :=
  let k := lines.findIdx (inSlot key)
  if k < lines.length then
    ac.indizes key = lineOffset lines k ∧
      ∀ num, isDigit (byteAt num 0) → areaIndex num = key → ReadsFrom ac num (lineOffset lines k)
  else ac.indizes key = 0

/-- The first line has no code, or the only one of the key 0. -/
def FirstCodeSafe : List CStr → Prop
  | [] => True
  | first :: rest =>
    3 ≤ (areaRun first).length → lineIndex first = 0 ∧ ∀ l ∈ rest, ¬ inSlot 0 l

instance : DecidablePred FirstCodeSafe
  | [] => inferInstanceAs (Decidable True)
  | _ :: _ => inferInstanceAs (Decidable (_ → _))

theorem inSlot_iff {key : ℕ} {line : CStr} :
    inSlot key line ↔ 3 ≤ (areaRun line).length ∧ lineIndex line = key := by
  simp [inSlot]

theorem inSlot_newline (key : ℕ) (line : CStr) : inSlot key (line ++ [10]) = inSlot key line := by
  by_cases h : 3 ≤ (areaRun line).length
  · have hlen : 3 ≤ line.length := h.trans (List.takeWhile_prefix _).length_le
    have hbyte : ∀ i < 3, byteAt (line ++ [10]) i = byteAt line i := fun i hi => by
      rw [byteAt, byteAt, List.getD_append _ _ _ _ (by omega)]
    rw [inSlot, inSlot, areaRun_newline, lineIndex, hbyte 1 (by omega), hbyte 2 (by omega),
      ← lineIndex]
  · rw [not_inSlot_of_short (by rw [areaRun_newline]; omega), not_inSlot_of_short (by omega)]

theorem lineIndex_lt (line : CStr) : lineIndex line < 100 := by
  have hdigit : ∀ b : UInt8, (digitValue b).toNat ≤ 9 := fun b => by
    by_cases hb : isDigit b
    · rw [digitValue_of_digit hb]
      have := digit_bounds hb
      omega
    · rw [digitValue_of_not_digit hb]
      decide
  have h₁ := hdigit (byteAt line 1)
  have h₂ := hdigit (byteAt line 2)
  unfold lineIndex
  omega

theorem lineOffset_cons (l : CStr) (ls : List CStr) (k : ℕ) :
    lineOffset (l :: ls) (k + 1) = (l ++ [10]).length + lineOffset ls k := by
  rw [lineOffset, List.take_succ_cons, List.flatMap_cons, List.length_append, lineOffset]

theorem take_lineBuffers {ls : List CStr} {k : ℕ} (hk : k < (endedLines ls).length) :
    ((lineBuffers ls).take k).flatten.length = lineOffset (endedLines ls) k := by
  induction k generalizing ls with
  | zero => rfl
  | succ k ih =>
    fun_cases lineBuffers ls with
    | case1 => exact absurd hk (Nat.not_lt_zero _)
    | case2 => exact absurd hk (Nat.not_lt_zero _)
    | case3 r hr => rw [endedLines, if_neg hr] at hk; exact absurd hk (by simp)
    | case4 l l' ls =>
      rw [endedLines, List.length_cons, Nat.add_lt_add_iff_right] at hk
      rw [endedLines, List.take_succ_cons, List.flatten_cons, List.length_append, ih hk,
        lineOffset_cons]

/-- The slots of a file, told by its lines: the first of them never counts. -/
theorem slot_of_lines {ls : List CStr} (hnul : ∀ b ∈ lineBuffers ls, 0 ∉ b) {first : CStr}
    {rest : List CStr} (hlines : endedLines ls = first :: rest) (key : ℕ) :
    indexLines (fun _ => 0) 0 (lineBuffers ls) key =
      if rest.findIdx (inSlot key) < rest.length then
        lineOffset (first :: rest) (rest.findIdx (inSlot key) + 1)
      else 0 := by
  have hmap := map_lineBuffers (inSlot_newline key) ls
  have hne := lineBuffers_ne_nil ls
  have htake : ∀ k < (endedLines ls).length, _ = lineOffset (endedLines ls) k := fun k =>
    take_lineBuffers
  rw [hlines] at hmap htake
  cases hbuffers : lineBuffers ls with
  | nil => rw [hbuffers] at hmap; cases hmap
  | cons b bs =>
    rw [hbuffers] at hmap hne hnul htake
    have hrest : bs.map (inSlot key) = rest.map (inSlot key) := (List.cons.inj hmap).2
    have hidx : bs.findIdx (inSlot key) = rest.findIdx (inSlot key) := by
      have := congrArg (List.findIdx id) hrest
      rwa [List.findIdx_map, List.findIdx_map] at this
    have hlen : bs.length = rest.length := by
      have := congrArg List.length hrest
      rwa [List.length_map, List.length_map] at this
    rw [slot_of_cons hnul (hne b (by simp)), hidx, hlen]
    split_ifs with hfound
    · exact htake _ (Nat.succ_lt_succ hfound)
    · rfl

theorem readsFrom_slot {ac : AreaCodes} {name num : CStr} (hname : ac.filename = some name)
    (hdigit : isDigit (byteAt num 0)) (hset : areaIndex num = 0 ∨ ac.indizes (areaIndex num) ≠ 0) :
    ReadsFrom ac num (ac.indizes (areaIndex num)) := by
  intro content
  have hgo : ¬ (0 < areaIndex num ∧ ac.indizes (areaIndex num) = 0) := by
    rintro ⟨hpos, hzero⟩
    rcases hset with h | h
    · exact absurd h hpos.ne'
    · exact h hzero
  refine ⟨[(.numAreaCode, unknown), (.numNumber, num), (.strArea, unknown)] ++
    [(.numAreaCode, byteAt num 0 :: unknown.tail)], ?_⟩
  unfold ciGetAreaCode
  simp only [hname, hdigit, Bool.not_true, Bool.false_eq_true, if_false, if_neg hgo]
  rfl

theorem not_readsFrom {ac : AreaCodes} {num line : CStr} (hcode : IsAreaCodeOf num line)
    (hline : 10 ∉ line) (hnul : 0 ∉ line) (hlen : line.length < 255)
    (hpos : 0 < areaIndex num) (hzero : ac.indizes (areaIndex num) = 0) :
    ¬ ReadsFrom ac num 0 := by
  intro h
  obtain ⟨before, hread⟩ := h line
  have hne : line ≠ [] := by
    rintro rfl
    exact absurd hcode.1 (by decide)
  have hbuffers : fgetsAll 255 line = [line] :=
    fgetsFrom_last [] hline (by simpa using hlen) (Or.inr hne)
  have hfound : (searchLines num [line]).1 = 0 := by
    rw [searchLines, if_pos ((codeMatches_iff line num).2 hcode)]
  have hrc : (ciGetAreaCode ac (some line) num).1 = 1 := by
    unfold ciGetAreaCode
    cases ac.filename with
    | none => rfl
    | some name => simp only [digit_of_isAreaCode hcode, Bool.not_true, Bool.false_eq_true,
        if_false, if_pos (And.intro hpos hzero)]
  rw [List.drop_zero, hbuffers, List.map_singleton, ofBuffer_eq_self hnul] at hread
  rw [hread] at hrc
  exact absurd (hfound.symm.trans hrc) (by decide)

theorem isAreaCodeOf_areaRun {line : CStr} (h : 3 ≤ (areaRun line).length) :
    IsAreaCodeOf (areaRun line) line := ⟨h, List.prefix_refl _⟩

theorem slotFaithful_of_not_first {ac : AreaCodes} {name first : CStr} {rest : List CStr}
    {key : ℕ} (hname : ac.filename = some name) (hin : inSlot key first = false)
    (hslot : ac.indizes key =
      if rest.findIdx (inSlot key) < rest.length then
        lineOffset (first :: rest) (rest.findIdx (inSlot key) + 1)
      else 0) :
    SlotFaithful ac (first :: rest) key := by
  unfold SlotFaithful
  rw [List.findIdx_cons, hin, List.length_cons]
  simp only [cond_false, Nat.add_lt_add_iff_right]
  split_ifs at hslot ⊢ with hfound
  · refine ⟨hslot, fun num hdigit hkey => ?_⟩
    have hne : ac.indizes key ≠ 0 := by
      rw [hslot, lineOffset_cons, List.length_append, List.length_singleton]
      omega
    rw [← hkey] at hne hslot ⊢
    rw [← hslot]
    exact readsFrom_slot hname hdigit (Or.inr hne)
  · exact hslot

theorem slot_empty_iff (first : CStr) (rest : List CStr) (key : ℕ) :
    (if rest.findIdx (inSlot key) < rest.length then
        lineOffset (first :: rest) (rest.findIdx (inSlot key) + 1)
      else 0) = 0 ↔ ∀ l ∈ rest, ¬ inSlot key l := by
  by_cases hfound : rest.findIdx (inSlot key) < rest.length
  · obtain ⟨l, hl, hp⟩ := List.findIdx_lt_length.1 hfound
    rw [if_pos hfound, lineOffset_cons, List.length_append, List.length_singleton]
    exact ⟨fun h => absurd h (by omega), fun h => absurd hp (h l hl)⟩
  · rw [if_neg hfound]
    exact ⟨fun _ l hl hp => hfound (List.findIdx_lt_length.2 ⟨l, hl, hp⟩), fun _ => rfl⟩

/-- The key of the first line: its slot has to stay empty, and its numbers have to be searched
all the same. -/
theorem slotFaithful_first_iff {ac : AreaCodes} {name first : CStr} {rest : List CStr} {key : ℕ}
    (hname : ac.filename = some name) (hin : inSlot key first)
    (hline : 10 ∉ first) (hnul : 0 ∉ first) (hlen : first.length < 255)
    (hslot : ac.indizes key =
      if rest.findIdx (inSlot key) < rest.length then
        lineOffset (first :: rest) (rest.findIdx (inSlot key) + 1)
      else 0) :
    SlotFaithful ac (first :: rest) key ↔ key = 0 ∧ ∀ l ∈ rest, ¬ inSlot key l := by
  obtain ⟨hrun, hkey⟩ := inSlot_iff.1 hin
  have hcode := isAreaCodeOf_areaRun hrun
  have hindex : areaIndex (areaRun first) = key := by
    rw [← hkey]
    exact (inSlot_iff.1 (inSlot_of_isAreaCode hcode)).2.symm
  have hempty : ac.indizes key = 0 ↔ ∀ l ∈ rest, ¬ inSlot key l := by
    rw [hslot]
    exact slot_empty_iff first rest key
  unfold SlotFaithful
  rw [List.findIdx_cons, hin]
  simp only [cond_true, List.length_cons, Nat.succ_pos, if_true]
  rw [← hempty, and_comm]
  refine and_congr_left fun hzero => ?_
  constructor
  · intro h
    by_contra hpos
    refine not_readsFrom hcode hline hnul hlen ?_ ?_ (h _ (digit_of_isAreaCode hcode) hindex)
    · rw [hindex]
      exact Nat.pos_of_ne_zero hpos
    · rw [hindex]
      exact hzero
  · rintro rfl num hdigit hnum
    have hread := readsFrom_slot hname hdigit (Or.inl hnum)
    rwa [hnum, hzero] at hread

/-- The index is faithful exactly when the first line of the file has no code or is the only
one of the key 0. -/
theorem slotsFaithful_iff (filename : CStr) {content : List UInt8}
    (hshort : ∀ line ∈ content.splitOn 10, line.length < 255) (hnul : 0 ∉ content) :
    let ac := (ciReadAreaCodesFromFile ciInitAreaCodes (some filename) (some content)).2
    (∀ key < 100, SlotFaithful ac (textLines content) key) ↔ FirstCodeSafe (textLines content) := by
  intro ac
  have hnul' : ∀ b ∈ lineBuffers (content.splitOn 10), 0 ∉ b := fun b hb hm =>
    hnul (buffer_subset hb hm)
  have hindizes : ∀ key, ac.indizes key =
      indexLines (fun _ => 0) 0 (lineBuffers (content.splitOn 10)) key := fun key =>
    congrArg (indexLines _ 0 · key) (fgetsAll_content hshort)
  cases hlines : textLines content with
  | nil =>
    have hmap := map_lineBuffers (inSlot_newline 0) (content.splitOn 10)
    rw [show endedLines (content.splitOn 10) = [] from hlines, List.map_nil, List.map_eq_nil_iff]
      at hmap
    refine ⟨fun _ => trivial, fun _ key _ => ?_⟩
    unfold SlotFaithful
    rw [hindizes, hmap]
    rfl
  | cons first rest =>
    have hslot := fun key => (hindizes key).trans (slot_of_lines hnul' hlines key)
    have hmem : first ∈ content.splitOn 10 := endedLines_subset _ (by
      rw [show endedLines (content.splitOn 10) = first :: rest from hlines]
      simp)
    have hfirst := fun key (hin : inSlot key first) => slotFaithful_first_iff rfl hin
      (sep_not_mem_splitOn 10 content first hmem)
      (fun hm => hnul (splitOn_subset 10 content first hmem hm)) (hshort first hmem) (hslot key)
    constructor
    · intro h hrun
      have hin := inSlot_iff.2 ⟨hrun, rfl⟩
      obtain ⟨hzero, hrest⟩ := (hfirst _ hin).1 (h _ (lineIndex_lt first))
      rw [hzero] at hrest
      exact ⟨hzero, hrest⟩
    · intro h key _
      cases hin : inSlot key first with
      | false => exact slotFaithful_of_not_first rfl hin (hslot key)
      | true =>
        obtain ⟨hrun, rfl⟩ := inSlot_iff.1 hin
        obtain ⟨hzero, hrest⟩ := h hrun
        rw [← hzero] at hrest
        exact (hfirst _ hin).2 ⟨hzero, hrest⟩

/-- Codes behind a first line without one. -/
def codesBehind : List UInt8 := ascii "0-int- intern\n030 Berlin\n0301 Mitte\n"

theorem codesBehind_faithful :
    (∀ key < 100, SlotFaithful
      (ciReadAreaCodesFromFile ciInitAreaCodes (some (ascii "f")) (some codesBehind)).2
      (textLines codesBehind) key) ↔ FirstCodeSafe (textLines codesBehind) :=
  slotsFaithful_iff (ascii "f") (by decide) (by decide)

/-- The code of the first line is lost to the next one of its key. -/
def codesFirst : List UInt8 := ascii "030 Berlin\n0301 Mitte\n"

theorem codesFirst_unfaithful :
    ¬ ∀ key < 100, SlotFaithful
      (ciReadAreaCodesFromFile ciInitAreaCodes (some (ascii "f")) (some codesFirst)).2
      (textLines codesFirst) key := by
  intro h
  obtain ⟨hslot, -⟩ := h 30 (by decide)
  exact absurd hslot (by decide)

end Fritz2ci
