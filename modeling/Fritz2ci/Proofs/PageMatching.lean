import Fritz2ci.Spec.Lookup

/-! What `_cirlw_match_patterns` makes of a page, told by the words its expressions capture
there: the last one for a field stays, and all of them are copied. -/

namespace Fritz2ci

open CString

/-- The words captured for the fields of a pattern, in the order of the copies. -/
def patternCaptures (line : CStr) (p : CIRLPattern) : List (CallerField × CStr) :=
  match p.expression.fetch line with
  | some words => p.fields.filterMap fun pf => pf.field.map fun f => (f, words pf.position)
  | none => []

def lineCaptures (patterns : List CIRLPattern) (line : CStr) : List (CallerField × CStr) :=
  patterns.flatMap (patternCaptures line)

def pageLines (body : List UInt8) : List CStr := strsplit (ofBuffer body) 10

/-- The captures of a page that is matched line by line. -/
def captures (patterns : List CIRLPattern) (body : List UInt8) : List (CallerField × CStr) :=
  (pageLines body).flatMap (lineCaptures patterns)

def lineCharset (charset : GRegex) (line : CStr) : Option CStr :=
  (charset.fetch line).map fun words => words 1

/-- The charset a page declares last. -/
def declaredCharset (charset : GRegex) (body : List UInt8) : Option CStr :=
  ((pageLines body).filterMap (lineCharset charset)).getLast?

/-- The word captured last for a field. -/
def lastCaptured (f : CallerField) (caps : List (CallerField × CStr)) : Option CStr :=
  ((caps.filter fun c => c.1 = f).getLast?).map Prod.snd

theorem lastCaptured_concat (f : CallerField) (caps : List (CallerField × CStr))
    (c : CallerField × CStr) :
    lastCaptured f (caps ++ [c]) = if c.1 = f then some c.2 else lastCaptured f caps := by
  unfold lastCaptured
  by_cases h : c.1 = f
  · simp [h]
  · simp [h]

theorem lastCaptured_mem {f : CallerField} {caps : List (CallerField × CStr)} {w : CStr}
    (h : lastCaptured f caps = some w) : (f, w) ∈ caps := by
  obtain ⟨c, hc, rfl⟩ := Option.map_eq_some_iff.1 h
  have hmem := List.mem_of_getLast? hc
  rw [List.mem_filter, decide_eq_true_eq] at hmem
  obtain ⟨hmem, rfl⟩ := hmem
  exact hmem

theorem lastCaptured_isSome_iff {f : CallerField} {caps : List (CallerField × CStr)} :
    (lastCaptured f caps).isSome ↔ ∃ w, (f, w) ∈ caps := by
  constructor
  · intro h
    obtain ⟨w, hw⟩ := Option.isSome_iff_exists.1 h
    exact ⟨w, lastCaptured_mem hw⟩
  · rintro ⟨w, hw⟩
    rw [lastCaptured, Option.isSome_map, List.getLast?_isSome]
    exact List.ne_nil_of_mem (List.mem_filter.2 ⟨hw, by simp⟩)

/-- One captured word on its way into the record. -/
def Matching.found (m : Matching) (c : CallerField × CStr) : Matching :=
  let m := m.strcpy c.1 c.2
  { m with fnd := Function.update m.fnd c.1 true }

theorem foldl_matchField (words : ℤ → CStr) (pfs : List CIRLPatternField) (m : Matching) :
    pfs.foldl (matchField words) m =
      (pfs.filterMap fun pf => pf.field.map fun f => (f, words pf.position)).foldl
        Matching.found m := by
  induction pfs generalizing m with
  | nil => rfl
  | cons pf pfs ih =>
    rw [List.foldl_cons, ih]
    unfold matchField
    cases hf : pf.field with
    | none => simp [hf]
    | some f => simp [hf, Matching.found]

theorem matchPattern_eq (line : CStr) (m : Matching) (p : CIRLPattern) :
    matchPattern line m p = (patternCaptures line p).foldl Matching.found m := by
  unfold matchPattern patternCaptures
  cases p.expression.fetch line with
  | none => rfl
  | some words => exact foldl_matchField words p.fields m

theorem foldl_matchPattern (patterns : List CIRLPattern) (line : CStr) (m : Matching) :
    patterns.foldl (matchPattern line) m = (lineCaptures patterns line).foldl Matching.found m := by
  rw [lineCaptures, List.foldl_flatMap]
  congr 1
  funext m p
  exact matchPattern_eq line m p

/-- The loops have met these captures and these charsets. -/
structure Matched (fields : CallerField → CStr) (caps : List (CallerField × CStr))
    (charsets : List CStr) (m : Matching) : Prop where
  fields : ∀ f, m.fields f = (lastCaptured f caps).getD (fields f)
  fnd : ∀ f, m.fnd f = (lastCaptured f caps).isSome
  charset : m.charset = charsets.getLast?
  copies : m.copies = caps

theorem matched_start (fields : CallerField → CStr) :
    Matched fields [] [] (Matching.start fields) :=
  ⟨fun _ => rfl, fun _ => rfl, rfl, rfl⟩

theorem matched_found {fields : CallerField → CStr} {caps : List (CallerField × CStr)}
    {charsets : List CStr} {m : Matching} (h : Matched fields caps charsets m)
    (c : CallerField × CStr) : Matched fields (caps ++ [c]) charsets (m.found c) where
  fields f := by
    rw [lastCaptured_concat, Matching.found, Matching.strcpy]
    by_cases hf : c.1 = f
    · simp [hf]
    · simp [hf, Function.update_of_ne (Ne.symm hf), h.fields f]
  fnd f := by
    rw [lastCaptured_concat, Matching.found, Matching.strcpy]
    by_cases hf : c.1 = f
    · simp [hf]
    · simp [hf, Function.update_of_ne (Ne.symm hf), h.fnd f]
  charset := h.charset
  copies := by simp [Matching.found, Matching.strcpy, h.copies]

theorem matched_foldl {fields : CallerField → CStr} {charsets : List CStr}
    (cs : List (CallerField × CStr)) : ∀ {caps : List (CallerField × CStr)} {m : Matching},
      Matched fields caps charsets m → Matched fields (caps ++ cs) charsets
        (cs.foldl Matching.found m) := by
  induction cs with
  | nil => intro caps m h; simpa using h
  | cons c cs ih =>
    intro caps m h
    have hstep := ih (matched_found h c)
    rwa [List.append_assoc, List.singleton_append] at hstep

theorem matched_line (patterns : List CIRLPattern) (charset : GRegex)
    {fields : CallerField → CStr} {caps : List (CallerField × CStr)} {charsets : List CStr}
    {m : Matching} (h : Matched fields caps charsets m) (line : CStr) :
    Matched fields (caps ++ lineCaptures patterns line)
      (charsets ++ (lineCharset charset line).toList) (matchLine patterns charset m line) := by
  have hline := matched_foldl (lineCaptures patterns line) h
  rw [← foldl_matchPattern] at hline
  unfold matchLine lineCharset
  cases charset.fetch line with
  | none => simpa using hline
  | some words =>
    exact ⟨hline.fields, hline.fnd, by simp, hline.copies⟩

theorem matched_lines (patterns : List CIRLPattern) (charset : GRegex)
    {fields : CallerField → CStr} (lines : List CStr) :
    ∀ {caps : List (CallerField × CStr)} {charsets : List CStr} {m : Matching},
      Matched fields caps charsets m →
      Matched fields (caps ++ lines.flatMap (lineCaptures patterns))
        (charsets ++ lines.filterMap (lineCharset charset))
        (lines.foldl (matchLine patterns charset) m) := by
  induction lines with
  | nil => intro caps charsets m h; simpa using h
  | cons line lines ih =>
    intro caps charsets m h
    have hrest := ih (matched_line patterns charset h line)
    have hchars : (line :: lines).filterMap (lineCharset charset) =
        (lineCharset charset line).toList ++ lines.filterMap (lineCharset charset) := by
      cases hc : lineCharset charset line <;> simp [hc]
    rwa [List.append_assoc, List.append_assoc, ← hchars, ← List.flatMap_cons] at hrest

theorem matched_page (fields : CallerField → CStr) (patterns : List CIRLPattern)
    (charset : GRegex) (body : List UInt8) :
    Matched fields (captures patterns body) ((pageLines body).filterMap (lineCharset charset))
      ((pageLines body).foldl (matchLine patterns charset) (Matching.start fields)) := by
  have h := matched_lines patterns charset (pageLines body) (matched_start fields)
  rwa [List.nil_append, List.nil_append] at h

theorem mem_patternCaptures {line : CStr} {p : CIRLPattern} {c : CallerField × CStr} :
    c ∈ patternCaptures line p ↔ ∃ words, p.expression.fetch line = some words ∧
      ∃ pf ∈ p.fields, pf.field = some c.1 ∧ words pf.position = c.2 := by
  unfold patternCaptures
  cases p.expression.fetch line with
  | none => simp
  | some words =>
    simp only [List.mem_filterMap, Option.map_eq_some_iff, Option.some.injEq, exists_eq_left']
    constructor
    · rintro ⟨pf, hpf, f, hf, rfl⟩
      exact ⟨pf, hpf, hf, rfl⟩
    · rintro ⟨pf, hpf, hf, hw⟩
      exact ⟨pf, hpf, c.1, hf, by rw [hw]⟩

section Conversion

variable (gConvert : CStr → CStr → Option CStr) (cs : CStr)

/-- The text of a field behind its conversion. -/
def convertedWord (w : CStr) : CStr := cirlwRemoveEscapes ((gConvert cs w).getD w)

/-- The copy the conversion of a field makes. -/
def conversionCopies (m : Matching) (f : CallerField) : List (CallerField × CStr) :=
  if m.fnd f then ((gConvert cs (m.fields f)).map fun x => (f, x)).toList else []

@[simp] theorem convertField_fnd (f : CallerField) (m : Matching) :
    (convertField gConvert cs f m).fnd = m.fnd := by
  unfold convertField
  split_ifs
  · cases gConvert cs (m.fields f) <;> rfl
  · rfl

theorem convertField_other {f g : CallerField} (h : g ≠ f) (m : Matching) :
    (convertField gConvert cs f m).fields g = m.fields g := by
  unfold convertField
  split_ifs
  · cases gConvert cs (m.fields f) <;> simp [Matching.removeEscapes, Matching.strcpy, h]
  · rfl

theorem convertField_self (f : CallerField) (m : Matching) :
    (convertField gConvert cs f m).fields f =
      if m.fnd f then convertedWord gConvert cs (m.fields f) else m.fields f := by
  unfold convertField convertedWord
  split_ifs
  · cases gConvert cs (m.fields f) <;> simp [Matching.removeEscapes, Matching.strcpy]
  · rfl

theorem convertField_copies (f : CallerField) (m : Matching) :
    (convertField gConvert cs f m).copies = m.copies ++ conversionCopies gConvert cs m f := by
  unfold convertField conversionCopies
  split_ifs
  · cases gConvert cs (m.fields f) <;> simp [Matching.removeEscapes, Matching.strcpy]
  · simp

@[simp] theorem unescapePostalCode_fnd (m : Matching) : (unescapePostalCode m).fnd = m.fnd := by
  unfold unescapePostalCode
  split_ifs <;> rfl

@[simp] theorem unescapePostalCode_copies (m : Matching) :
    (unescapePostalCode m).copies = m.copies := by
  unfold unescapePostalCode
  split_ifs <;> rfl

theorem unescapePostalCode_other {g : CallerField} (h : g ≠ .postalCode) (m : Matching) :
    (unescapePostalCode m).fields g = m.fields g := by
  unfold unescapePostalCode
  split_ifs
  · simp [Matching.removeEscapes, h]
  · rfl

theorem conversionCopies_congr {m m' : Matching} {f : CallerField} (hfnd : m'.fnd f = m.fnd f)
    (hfields : m'.fields f = m.fields f) :
    conversionCopies gConvert cs m' f = conversionCopies gConvert cs m f := by
  rw [conversionCopies, conversionCopies, hfnd, hfields]

theorem convertFields_fnd (m : Matching) : (convertFields gConvert m).fnd = m.fnd := by
  unfold convertFields
  cases m.charset with
  | none => rfl
  | some cs => simp

variable {cs} {m : Matching}

theorem convertFields_name (hcs : m.charset = some cs) :
    (convertFields gConvert m).fields .name =
      if m.fnd .name then convertedWord gConvert cs (m.fields .name) else m.fields .name := by
  simp only [convertFields, hcs]
  rw [convertField_other _ _ (by decide), unescapePostalCode_other (by decide),
    convertField_other _ _ (by decide), convertField_self]

theorem convertFields_copies (hcs : m.charset = some cs) :
    (convertFields gConvert m).copies = m.copies ++ conversionCopies gConvert cs m .name ++
      conversionCopies gConvert cs m .city ++ conversionCopies gConvert cs m .street := by
  simp only [convertFields, hcs]
  rw [convertField_copies, unescapePostalCode_copies, convertField_copies, convertField_copies]
  congr 1
  · congr 1
    refine conversionCopies_congr gConvert cs (by simp) ?_
    rw [convertField_other _ _ (by decide)]
  · refine conversionCopies_congr gConvert cs (by simp) ?_
    rw [unescapePostalCode_other (by decide), convertField_other _ _ (by decide),
      convertField_other _ _ (by decide)]

end Conversion

/-- The words captured for a field end, with a terminator, within its array. -/
def CapturesFit (patterns : List CIRLPattern) (body : List UInt8) : Prop :=
  ∀ line ∈ pageLines body, ∀ p ∈ patterns, ∀ words, p.expression.fetch line = some words →
    ∀ pf ∈ p.fields, ∀ f, pf.field = some f → (words pf.position).length < f.size

/-- Where a charset is declared, the conversions of the last words for name, city and
street do. -/
def ConversionsFit (charset : GRegex) (gConvert : CStr → CStr → Option CStr)
    (patterns : List CIRLPattern) (body : List UInt8) : Prop :=
  ∀ cs, declaredCharset charset body = some cs → ∀ f, f ≠ .postalCode →
    ∀ w, lastCaptured f (captures patterns body) = some w →
      ∀ x, gConvert cs w = some x → x.length < f.size

theorem capturesFit_iff {patterns : List CIRLPattern} {body : List UInt8} :
    CapturesFit patterns body ↔ ∀ c ∈ captures patterns body, c.2.length + 1 ≤ c.1.size := by
  simp only [CapturesFit, captures, lineCaptures, List.mem_flatMap, mem_patternCaptures]
  constructor
  · rintro h c ⟨line, hl, p, hp, words, hw, pf, hpf, hf, hc⟩
    have := h line hl p hp words hw pf hpf c.1 hf
    rw [hc] at this
    exact this
  · intro h line hl p hp words hw pf hpf f hf
    exact h (f, words pf.position) ⟨line, hl, p, hp, words, hw, pf, hpf, hf, rfl⟩

theorem conversionCopies_fit {gConvert : CStr → CStr → Option CStr} {cs : CStr}
    {fields : CallerField → CStr} {caps : List (CallerField × CStr)} {charsets : List CStr}
    {m : Matching} (h : Matched fields caps charsets m) (f : CallerField) :
    (∀ c ∈ conversionCopies gConvert cs m f, c.2.length + 1 ≤ c.1.size) ↔
      ∀ w, lastCaptured f caps = some w → ∀ x, gConvert cs w = some x → x.length < f.size := by
  unfold conversionCopies
  rw [h.fnd f, h.fields f]
  cases lastCaptured f caps with
  | none => simp
  | some w =>
    cases hx : gConvert cs w with
    | none => simp [hx]
    | some x =>
      simp only [Option.isSome_some, if_true, Option.getD_some, hx, Option.map_some,
        Option.toList_some, List.mem_cons, List.not_mem_nil, or_false, Nat.add_one_le_iff,
        forall_eq, Option.some.injEq, forall_eq']

theorem page_fits_iff (charset : GRegex) (gConvert : CStr → CStr → Option CStr)
    (patterns : List CIRLPattern) (body : List UInt8) (fields : CallerField → CStr) :
    (convertFields gConvert ((pageLines body).foldl (matchLine patterns charset)
      (Matching.start fields))).Fits ↔
      CapturesFit patterns body ∧ ConversionsFit charset gConvert patterns body := by
  have hpage := matched_page fields patterns charset body
  generalize (pageLines body).foldl (matchLine patterns charset) (Matching.start fields) = m
    at hpage
  have hcharset : m.charset = declaredCharset charset body := hpage.charset
  rw [capturesFit_iff, Matching.Fits, ConversionsFit, ← hcharset]
  cases hcs : m.charset with
  | none => simp [convertFields, hcs, hpage.copies]
  | some cs =>
    rw [convertFields_copies gConvert hcs, hpage.copies]
    simp only [List.forall_mem_append, conversionCopies_fit hpage, Option.some.injEq, forall_eq']
    constructor
    · rintro ⟨⟨⟨hcaps, hname⟩, hcity⟩, hstreet⟩
      refine ⟨hcaps, fun f hf => ?_⟩
      cases f with
      | name => exact hname
      | postalCode => exact absurd rfl hf
      | city => exact hcity
      | street => exact hstreet
    · rintro ⟨hcaps, hconv⟩
      exact ⟨⟨⟨hcaps, hconv .name (by decide)⟩, hconv .city (by decide)⟩,
        hconv .street (by decide)⟩

/-- The memory for the two tables of `_cirlw_match_patterns` is granted. -/
def TablesGranted (gTryMalloc : TryMalloc → ℤ → Bool) (source : CIRLSource) : Prop :=
  gTryMalloc .reg (8 * (source.patterns.length + 1)) ∧
    gTryMalloc .pats (8 * source.patterns.length)

instance (gTryMalloc : TryMalloc → ℤ → Bool) (source : CIRLSource) :
    Decidable (TablesGranted gTryMalloc source) := inferInstanceAs (Decidable (_ ∧ _))

section Match

variable (gTryMalloc : TryMalloc → ℤ → Bool) (charset : GRegex)
variable (gConvert : CStr → CStr → Option CStr) (source : CIRLSource) (fields : CallerField → CStr)

theorem matchPatterns_refused (mem : Option (List UInt8)) (h : ¬ TablesGranted gTryMalloc source) :
    cirlwMatchPatterns gTryMalloc charset gConvert source mem fields =
      (1, Matching.start fields) := by
  unfold cirlwMatchPatterns
  dsimp only
  split_ifs with hnone hreg hpats
  · rfl
  · rfl
  · rfl
  all_goals exact absurd ⟨by simpa using hreg, by simpa using hpats⟩ h

theorem matchPatterns_granted (mem : Option (List UInt8)) (h : TablesGranted gTryMalloc source) :
    cirlwMatchPatterns gTryMalloc charset gConvert source mem fields =
      if source.patterns.length = 0 then (1, Matching.start fields)
      else if source.splitLines then
        match mem with
        | none => (1, Matching.start fields)
        | some body => (0, convertFields gConvert
            ((pageLines body).foldl (matchLine source.patterns charset) (Matching.start fields)))
      else (0, Matching.start fields) := by
  unfold cirlwMatchPatterns
  dsimp only
  rw [h.1, h.2]
  rfl

/-- All copies into the record stay within their arrays exactly if no word captured for a
field and no conversion of a last word is too long: nothing bounds either. -/
theorem webStrings_fit_iff (mem : Option (List UInt8)) :
    (cirlwMatchPatterns gTryMalloc charset gConvert source mem fields).2.Fits ↔
      (TablesGranted gTryMalloc source → source.splitLines → ∀ body, mem = some body →
        CapturesFit source.patterns body ∧
          ConversionsFit charset gConvert source.patterns body) := by
  by_cases hgranted : TablesGranted gTryMalloc source
  · rw [matchPatterns_granted _ _ _ _ _ _ hgranted, forall_prop_of_true hgranted]
    split_ifs with hnone hsplit
    · -- no pattern, so there is no field to copy into
      rw [List.length_eq_zero_iff] at hnone
      have hcaps : ∀ body, captures source.patterns body = [] := by
        simp [captures, lineCaptures, hnone]
      refine iff_of_true (by simp [Matching.Fits, Matching.start]) fun _ body _ => ⟨?_, ?_⟩
      · rw [capturesFit_iff, hcaps]; simp
      · intro cs _ f _ w hw
        rw [hcaps] at hw
        cases hw
    · cases mem with
      | none => simp [Matching.Fits, Matching.start]
      | some body =>
        simp only [hsplit, true_implies, Option.some.injEq, forall_eq']
        exact page_fits_iff charset gConvert source.patterns body fields
    · simp [Matching.Fits, Matching.start, hsplit]
  · rw [matchPatterns_refused _ _ _ _ _ _ hgranted]
    exact iff_of_true (List.forall_mem_nil _) fun h => absurd h hgranted

end Match

/-- The expression that captures the whole of any line, and the one that never matches. -/
def wholeLine : GRegex where
  fetch line := some fun _ => line
  captured line words h position := by cases h; exact List.infix_rfl

def neverMatches : GRegex where
  fetch _ := none
  captured _ _ h := by cases h

/-- A source that takes every line for a word of one kind. -/
def lineSource (f : CallerField) : CIRLSource where
  id := 1
  query := ascii "http://localhost/?ph=%NUMBER%"
  splitLines := true
  patterns := [⟨[⟨1, some f⟩], wholeLine⟩]

/-- Eight bytes leave no room for the terminator in the array of the postal code. -/
theorem longPostalCode_overruns :
    ¬ (cirlwMatchPatterns (fun _ _ => true) neverMatches (fun _ _ => none) (lineSource .postalCode)
      (some (ascii "CH-12345")) fun _ => []).2.Fits := by
  decide

end Fritz2ci
