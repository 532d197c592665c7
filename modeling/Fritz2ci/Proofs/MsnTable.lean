import Fritz2ci.Spec.MsnLookup

/-! The table that `msnl_read_file` builds. An entry is written within its arrays, and the
lookup answers what the lines of the file say, as long as no string of a line is as long as
its array: the terminator goes behind the last byte that fits. -/

namespace Fritz2ci

open CString

/-- The first token of a line. -/
def lineMsn (line : CStr) : CStr := (skipBlanks line).takeWhile fun b => !isBlank b

/-- What follows the token and the blanks behind it. -/
def lineAlias (line : CStr) : CStr :=
  skipBlanks ((skipBlanks line).dropWhile fun b => !isBlank b)

/-- Written within its arrays only, and terminated in both. -/
structure MSNEntry.WellFormed (e : MSNEntry) : Prop where
  writes : ∀ w ∈ e.writes, w.index < w.array.size
  terminated : ∀ a : EntryArray, 0 ∈ (e.mem.drop a.offset).take a.size

/-- What the lines of a file say about a number. -/
def linesAlias (lines : List CStr) (msn : CStr) : Option CStr :=
  (lines.find? fun l => (lineMsn l).take (MSNL_MSN_SIZE - 1) = msn).map fun l =>
    (lineAlias l).take (MSNL_ALIAS_SIZE - 1)

/-- The table is well formed and answers by first match. -/
structure TableAnswers (content : List UInt8) (msnList : List MSNEntry) : Prop where
  wellFormed : ∀ e ∈ msnList, e.WellFormed
  answers : ∀ msn, msnlLookupIn msnList msn = linesAlias (textLines content) msn

/-- Both strings of a line are shorter than their arrays. -/
def LineFits (line : CStr) : Prop :=
  (lineMsn line).length < MSNL_MSN_SIZE ∧ (lineAlias line).length < MSNL_ALIAS_SIZE

instance (line : CStr) : Decidable (LineFits line) := inferInstanceAs (Decidable (_ ∧ _))

/-- The writes of bytes put behind one another. -/
def runFrom (a : EntryArray) : ℕ → CStr → List EntryWrite
  | _, [] => []
  | j, b :: s => ⟨a, j, b⟩ :: runFrom a (j + 1) s

theorem mem_runFrom {a : EntryArray} {j : ℕ} {s : CStr} {w : EntryWrite}
    (h : w ∈ runFrom a j s) : w.array = a ∧ j ≤ w.index ∧ w.index < j + s.length := by
  induction s generalizing j with
  | nil => cases h
  | cons b s ih =>
    rw [List.length_cons]
    rcases List.mem_cons.1 h with rfl | h
    · exact ⟨rfl, le_refl j, Nat.lt_add_of_pos_right (Nat.succ_pos _)⟩
    · obtain ⟨ha, hle, hlt⟩ := ih h
      exact ⟨ha, by omega, by omega⟩

theorem copyLoop_eq (stop : UInt8 → Bool) (a : EntryArray) (j : ℕ) (s : CStr) :
    let part := (s.takeWhile fun b => !stop b).take (a.size - j)
    copyLoop stop a j s = (runFrom a j part, j + part.length, s.drop part.length) := by
  induction s generalizing j with
  | nil => simp [copyLoop, runFrom]
  | cons b s ih =>
    intro part
    by_cases hgo : stop b = false ∧ j < a.size
    · obtain ⟨hb, hj⟩ := hgo
      have hpart : part = b :: (s.takeWhile fun b => !stop b).take (a.size - (j + 1)) := by
        simp only [part]
        rw [List.takeWhile_cons_of_pos (by simp [hb]),
          show a.size - j = a.size - (j + 1) + 1 by omega, List.take_succ_cons]
      rw [copyLoop, if_pos (by simp [hb, hj]), ih, hpart]
      simp only [runFrom, List.length_cons, List.drop_succ_cons, Nat.add_assoc, Nat.add_comm 1]
    · have hpart : part = [] := by
        simp only [part]
        rcases not_and_or.1 hgo with hb | hj
        · rw [List.takeWhile_cons_of_neg (by simpa using hb), List.take_nil]
        · rw [show a.size - j = 0 by omega, List.take_zero]
      rw [copyLoop, if_neg (by simpa using hgo), hpart]
      rfl

theorem copyLoop_newline {stop : UInt8 → Bool} (hstop : stop 10) (a : EntryArray) (j : ℕ)
    (s : CStr) :
    copyLoop stop a j (s ++ [10]) =
      ((copyLoop stop a j s).1, (copyLoop stop a j s).2.1, (copyLoop stop a j s).2.2 ++ [10]) := by
  induction s generalizing j with
  | nil => simp [copyLoop, hstop]
  | cons b s ih =>
    rw [List.cons_append, copyLoop, copyLoop]
    split_ifs
    · rw [ih]
    · rfl

theorem skipBlanks_newline (s : CStr) : skipBlanks (s ++ [10]) = skipBlanks s ++ [10] := by
  induction s with
  | nil => rfl
  | cons b s ih =>
    unfold skipBlanks at ih ⊢
    by_cases hb : isBlank b
    · rw [List.cons_append, List.dropWhile_cons_of_pos hb, List.dropWhile_cons_of_pos hb, ih]
    · rw [List.cons_append, List.dropWhile_cons_of_neg hb, List.dropWhile_cons_of_neg hb]
      rfl

/-- The newline of a line leaves no trace. -/
theorem readLine_newline (line : CStr) : readLine (line ++ [10]) = readLine line := by
  unfold readLine
  have hmsn := copyLoop_newline (show endsMsn 10 from rfl) .msn 0
  have halias := copyLoop_newline (show endsAlias 10 from rfl) .msnAlias 0
  simp only [skipBlanks_newline, hmsn, halias]

/-- The bytes of a line, which neither end a string nor a line. -/
def IsLine (s : CStr) : Prop := 0 ∉ s ∧ 10 ∉ s

theorem IsLine.of_subset {s t : CStr} (h : IsLine s) (hsub : t ⊆ s) : IsLine t :=
  ⟨fun hm => h.1 (hsub hm), fun hm => h.2 (hsub hm)⟩

theorem IsLine.skipBlanks {s : CStr} (h : IsLine s) : IsLine (skipBlanks s) :=
  h.of_subset (List.dropWhile_suffix _).subset

theorem takeWhile_endsMsn {s : CStr} (h : IsLine s) :
    (s.takeWhile fun b => !endsMsn b) = s.takeWhile fun b => !isBlank b := by
  refine takeWhile_congr fun b hb => ?_
  have h₀ : b ≠ 0 := fun e => h.1 (e ▸ hb)
  have h₁ : b ≠ 10 := fun e => h.2 (e ▸ hb)
  simp [endsMsn, h₀, h₁]

theorem takeWhile_endsAlias {s : CStr} (h : IsLine s) :
    (s.takeWhile fun b => !endsAlias b) = s := by
  rw [List.takeWhile_eq_self_iff]
  intro b hb
  have h₀ : b ≠ 0 := fun e => h.1 (e ▸ hb)
  have h₁ : b ≠ 10 := fun e => h.2 (e ▸ hb)
  simp [endsAlias, h₀, h₁]

/-- The entry of a line whose loops have copied these strings. -/
def entryOf (msn msnAlias : CStr) : MSNEntry :=
  ⟨[⟨.msn, 0, 0⟩, ⟨.msnAlias, 0, 0⟩] ++ runFrom .msn 0 msn ++ [⟨.msn, msn.length, 0⟩] ++
    runFrom .msnAlias 0 msnAlias ++ [⟨.msnAlias, msnAlias.length, 0⟩]⟩

/-- A token that is too long is taken up where the first loop has left it. -/
theorem readLine_eq {line : CStr} (h : IsLine line) :
    let msn := (lineMsn line).take MSNL_MSN_SIZE
    readLine line = entryOf msn
      ((skipBlanks ((skipBlanks line).drop msn.length)).take MSNL_ALIAS_SIZE) := by
  intro msn
  have hrest : ∀ k, IsLine (skipBlanks ((skipBlanks line).drop k)) := fun k =>
    (h.skipBlanks.of_subset (List.drop_subset _ _)).skipBlanks
  unfold readLine
  simp only [copyLoop_eq, takeWhile_endsMsn h.skipBlanks, takeWhile_endsAlias (hrest _),
    Nat.sub_zero, Nat.zero_add]
  rfl

theorem readLine_of_fits {line : CStr} (h : IsLine line)
    (hmsn : (lineMsn line).length < MSNL_MSN_SIZE) :
    readLine line = entryOf (lineMsn line) ((lineAlias line).take MSNL_ALIAS_SIZE) := by
  have hrest : (skipBlanks line).drop (lineMsn line).length =
      (skipBlanks line).dropWhile fun b => !isBlank b := drop_takeWhile _ _
  rw [readLine_eq h, List.take_of_length_le (le_of_lt hmsn), hrest]
  rfl

/-- It is the terminators that leave the arrays. -/
theorem entryOf_writes (msn msnAlias : CStr) :
    (∀ w ∈ (entryOf msn msnAlias).writes, w.index < w.array.size) ↔
      msn.length < MSNL_MSN_SIZE ∧ msnAlias.length < MSNL_ALIAS_SIZE := by
  constructor
  · intro h
    exact ⟨h ⟨.msn, msn.length, 0⟩ (by simp [entryOf]),
      h ⟨.msnAlias, msnAlias.length, 0⟩ (by simp [entryOf])⟩
  · rintro ⟨hmsn, halias⟩ w hw
    simp only [entryOf, List.mem_append, List.mem_cons, List.not_mem_nil, or_false] at hw
    rcases hw with (((( rfl | rfl) | hw) | rfl) | hw) | rfl
    · exact Nat.zero_lt_succ 31
    · exact Nat.zero_lt_succ 255
    · obtain ⟨ha, -, hlt⟩ := mem_runFrom hw
      rw [ha]
      exact lt_trans (by simpa using hlt) hmsn
    · exact hmsn
    · obtain ⟨ha, -, hlt⟩ := mem_runFrom hw
      rw [ha]
      exact lt_trans (by simpa using hlt) halias
    · exact halias

theorem readLine_writes {line : CStr} (h : IsLine line) :
    (∀ w ∈ (readLine line).writes, w.index < w.array.size) ↔ LineFits line := by
  by_cases hmsn : (lineMsn line).length < MSNL_MSN_SIZE
  · rw [readLine_of_fits h hmsn, entryOf_writes, List.length_take, LineFits]
    simp [hmsn]
  · rw [readLine_eq h, entryOf_writes, List.length_take, LineFits]
    simp [hmsn]

theorem store_run {a : EntryArray} {j : ℕ} {x y z s : List UInt8}
    (hx : x.length = a.offset + j) (hy : y.length = s.length) :
    (runFrom a j s).foldl EntryWrite.store (x ++ y ++ z) = x ++ s ++ z := by
  induction s generalizing j x y with
  | nil => rw [List.length_eq_zero_iff.1 hy]; rfl
  | cons b s ih =>
    obtain ⟨c, y, rfl⟩ := List.exists_cons_of_length_eq_add_one hy
    have hset : EntryWrite.store (x ++ c :: y ++ z) ⟨a, j, b⟩ = (x ++ [b]) ++ y ++ z := by
      simp [EntryWrite.store, ← hx]
    rw [runFrom, List.foldl_cons, hset, ih (by simp [hx, Nat.add_assoc]) (by simpa using hy)]
    simp

theorem store_string {a : EntryArray} {x s : List UInt8} {n : ℕ} (hx : x.length = a.offset)
    (hs : s.length ≤ n) :
    (runFrom a 0 s).foldl EntryWrite.store (x ++ List.replicate n 0) =
      x ++ s ++ List.replicate (n - s.length) 0 := by
  have hroom : List.replicate n (0 : UInt8) =
      List.replicate s.length 0 ++ List.replicate (n - s.length) 0 := by
    rw [List.replicate_append_replicate, Nat.add_sub_cancel' hs]
  rw [hroom, ← List.append_assoc]
  exact store_run hx List.length_replicate

theorem store_terminator (a : EntryArray) (j n : ℕ) {x : List UInt8}
    (hx : x.length ≤ a.offset + j) :
    EntryWrite.store (x ++ List.replicate n 0) ⟨a, j, 0⟩ = x ++ List.replicate n 0 := by
  rw [EntryWrite.store, List.set_append_right _ _ hx, List.set_replicate_self]

theorem entryOf_mem {msn msnAlias : CStr} (hmsn : msn.length < MSNL_MSN_SIZE)
    (halias : msnAlias.length < MSNL_ALIAS_SIZE) :
    (entryOf msn msnAlias).mem =
      (msn ++ List.replicate (MSNL_MSN_SIZE - msn.length) 0) ++
        (msnAlias ++ List.replicate (MSNL_ALIAS_SIZE - msnAlias.length) 0) := by
  have hstart : (msn ++ List.replicate (MSNL_MSN_SIZE - msn.length) (0 : UInt8)).length =
      EntryArray.msnAlias.offset := by
    rw [List.length_append, List.length_replicate]
    exact Nat.add_sub_cancel' (le_of_lt hmsn)
  have hrest : msn ++ List.replicate (MSNL_MSN_SIZE + MSNL_ALIAS_SIZE - msn.length) (0 : UInt8) =
      msn ++ List.replicate (MSNL_MSN_SIZE - msn.length) 0 ++
        List.replicate MSNL_ALIAS_SIZE 0 := by
    rw [List.append_assoc, List.replicate_append_replicate,
      ← Nat.sub_add_comm (le_of_lt hmsn)]
  have hempty := fun a n => store_terminator (x := []) a 0 n (Nat.zero_le _)
  have hfirst := store_string (a := .msn) (x := []) (n := MSNL_MSN_SIZE + MSNL_ALIAS_SIZE) rfl
    (hmsn.le.trans (Nat.le_add_right _ _))
  unfold MSNEntry.mem entryOf
  simp only [List.foldl_append, List.foldl_cons, List.foldl_nil]
  simp only [List.nil_append] at hfirst hempty
  rw [hempty .msn, hempty .msnAlias, hfirst, store_terminator .msn _ _ (by simp), hrest,
    store_string hstart halias.le, store_terminator .msnAlias, List.append_assoc]
  rw [List.length_append, hstart]

theorem string_in_array {s : CStr} {n : ℕ} (hs : s.length < n) (h : 0 ∉ s) (rest : List UInt8) :
    ofBuffer (s ++ List.replicate (n - s.length) 0 ++ rest) = s ∧
      0 ∈ (s ++ List.replicate (n - s.length) 0 ++ rest).take n := by
  have hn : s.length + (n - s.length) = n := Nat.add_sub_cancel' hs.le
  constructor
  · rw [ofBuffer, List.append_assoc, List.takeWhile_append_of_pos fun b hb => by
      simpa using fun e : b = 0 => h (e ▸ hb)]
    obtain ⟨k, hk⟩ := Nat.exists_eq_succ_of_ne_zero (Nat.sub_ne_zero_of_lt hs)
    simp [hk, List.replicate_succ]
  · rw [List.take_append_of_le_length (by simp [hn]), List.take_of_length_le (by simp [hn])]
    simp [Nat.sub_ne_zero_of_lt hs]

theorem entryOf_arrays {msn msnAlias : CStr} (hmsn : msn.length < MSNL_MSN_SIZE)
    (halias : msnAlias.length < MSNL_ALIAS_SIZE) (h₀ : 0 ∉ msn) (h₁ : 0 ∉ msnAlias) :
    (entryOf msn msnAlias).WellFormed ∧ (entryOf msn msnAlias).strAt .msn = msn ∧
      (entryOf msn msnAlias).strAt .msnAlias = msnAlias := by
  have hmem := entryOf_mem hmsn halias
  have hdrop : (entryOf msn msnAlias).mem.drop EntryArray.msnAlias.offset =
      msnAlias ++ List.replicate (MSNL_ALIAS_SIZE - msnAlias.length) 0 ++ [] := by
    rw [hmem, List.append_nil]
    refine List.drop_left' ?_
    rw [List.length_append, List.length_replicate]
    exact Nat.add_sub_cancel' hmsn.le
  obtain ⟨hstr, hend⟩ := string_in_array hmsn h₀
    (msnAlias ++ List.replicate (MSNL_ALIAS_SIZE - msnAlias.length) 0)
  obtain ⟨hstr', hend'⟩ := string_in_array halias h₁ []
  rw [← hmem] at hstr hend
  rw [← hdrop] at hstr' hend'
  refine ⟨⟨(entryOf_writes msn msnAlias).2 ⟨hmsn, halias⟩, fun a => ?_⟩, hstr, hstr'⟩
  cases a with
  | msn => exact hend
  | msnAlias => exact hend'

theorem lineMsn_subset (line : CStr) : lineMsn line ⊆ line := fun _ hb =>
  (List.dropWhile_suffix _).subset ((List.takeWhile_prefix _).subset hb)

theorem lineAlias_subset (line : CStr) : lineAlias line ⊆ line := fun _ hb =>
  (List.dropWhile_suffix _).subset ((List.dropWhile_suffix _).subset
    ((List.dropWhile_suffix _).subset hb))

theorem readLine_arrays {line : CStr} (h : IsLine line) (hfits : LineFits line) :
    (readLine line).WellFormed ∧
      (readLine line).strAt .msn = (lineMsn line).take (MSNL_MSN_SIZE - 1) ∧
      (readLine line).strAt .msnAlias = (lineAlias line).take (MSNL_ALIAS_SIZE - 1) := by
  obtain ⟨hmsn, halias⟩ := hfits
  rw [readLine_of_fits h hmsn, List.take_of_length_le halias.le,
    List.take_of_length_le (Nat.le_sub_one_of_lt hmsn),
    List.take_of_length_le (Nat.le_sub_one_of_lt halias)]
  exact entryOf_arrays hmsn halias (fun hm => h.1 (lineMsn_subset line hm))
    fun hm => h.1 (lineAlias_subset line hm)

theorem lookupIn_lines {lines : List CStr} (hline : ∀ l ∈ lines, IsLine l)
    (hfits : ∀ l ∈ lines, LineFits l) (msn : CStr) :
    msnlLookupIn (lines.map readLine) msn = linesAlias lines msn := by
  induction lines with
  | nil => rfl
  | cons l lines ih =>
    obtain ⟨hl, hlines⟩ := List.forall_mem_cons.1 hline
    obtain ⟨hf, hfs⟩ := List.forall_mem_cons.1 hfits
    obtain ⟨-, hmsn, halias⟩ := readLine_arrays hl hf
    have hrest := ih hlines hfs
    unfold msnlLookupIn linesAlias at hrest ⊢
    rw [List.map_cons, List.find?_cons, List.find?_cons, hmsn]
    cases decide ((lineMsn l).take (MSNL_MSN_SIZE - 1) = msn) with
    | true => exact congrArg some halias
    | false => exact hrest

theorem readFile_lines {content : List UInt8} (hnul : 0 ∉ content)
    (hshort : ∀ l ∈ content.splitOn 10, l.length ≤ 510) :
    msnlReadFile [] (some content) = (0, (textLines content).map readLine) := by
  have hofBuffer : ∀ b ∈ lineBuffers (content.splitOn 10), readLine (ofBuffer b) = readLine b :=
    fun b hb => by rw [ofBuffer_eq_self fun hm => hnul (buffer_subset hb hm)]
  unfold msnlReadFile
  dsimp only
  rw [fgetsAll_content fun l hl => Nat.lt_succ_of_le (hshort l hl),
    List.foldl_flip_cons_eq_append, List.append_nil, List.reverse_reverse,
    List.map_congr_left hofBuffer, map_lineBuffers readLine_newline]
  rfl

/-- The table is well formed and answers by first match exactly for the files of which every
line fits. -/
theorem tableAnswers_iff {content : List UInt8} (hnul : 0 ∉ content)
    (hshort : ∀ l ∈ content.splitOn 10, l.length ≤ 510) :
    TableAnswers content (msnlReadFile [] (some content)).2 ↔
      ∀ l ∈ textLines content, LineFits l := by
  have hlines : ∀ l ∈ textLines content, IsLine l := fun l hl => by
    have hmem := endedLines_subset _ hl
    exact ⟨fun hm => hnul (splitOn_subset 10 content l hmem hm),
      sep_not_mem_splitOn 10 content l hmem⟩
  rw [readFile_lines hnul hshort]
  constructor
  · intro h l hl
    exact (readLine_writes (hlines l hl)).1 (h.wellFormed _ (List.mem_map_of_mem hl)).writes
  · intro hfits
    refine ⟨fun e he => ?_, lookupIn_lines hlines hfits⟩
    obtain ⟨l, hl, rfl⟩ := List.mem_map.1 he
    exact (readLine_arrays (hlines l hl) (hfits l hl)).1

def twoNumbers : List UInt8 := ascii "30 Home\n\t31  Office line\n"

theorem twoNumbers_answers :
    TableAnswers twoNumbers (msnlReadFile [] (some twoNumbers)).2 ↔
      ∀ l ∈ textLines twoNumbers, LineFits l :=
  tableAnswers_iff (by decide) (by decide)

example : msnlLookupIn (msnlReadFile [] (some twoNumbers)).2 (ascii "31") =
    some (ascii "Office line") := by decide

/-- A number of 32 bytes: its terminator is the first byte of the alias. -/
def numberOf32 : List UInt8 := ascii "01234567890123456789012345678901 Home\n"

theorem numberOf32_leaves_msn :
    ¬ TableAnswers numberOf32 (msnlReadFile [] (some numberOf32)).2 := by
  intro h
  have hwrite : ∃ e ∈ (msnlReadFile [] (some numberOf32)).2,
      (⟨.msn, 32, 0⟩ : EntryWrite) ∈ e.writes := by decide
  obtain ⟨e, he, hw⟩ := hwrite
  exact absurd ((h.wellFormed e he).writes _ hw) (by decide)

end Fritz2ci
