import Fritz2ci.Spec.PrepareUrl
import Mathlib.Data.Int.Order.Basic
import Mathlib.Tactic.Linarith

/-! Which templates `_cirlw_prepare_url` can prepare at all, and what it makes of them: the
two passes go over the same pieces of a template, the first adding up what the second
puts out. -/

namespace Fritz2ci

open CString

theorem bind_eq_ok {ε α β : Type} {x : Except ε α} {f : α → Except ε β} {b : β} :
    (x >>= f) = .ok b ↔ ∃ a, x = .ok a ∧ f a = .ok b := by
  cases x with
  | error e => simp [bind, Except.bind]
  | ok a => simp [bind, Except.bind]

theorem map_eq_ok {ε α β : Type} {x : Except ε α} {f : α → β} {b : β} :
    x.map f = .ok b ↔ ∃ a, x = .ok a ∧ f a = b := by
  cases x with
  | error e => simp [Except.map]
  | ok a => simp [Except.map]

/-- A piece of a template that both passes get over. -/
inductive TemplatePiece
  | plain (b : UInt8) (h : b ≠ percent)
  | escape (d : UInt8) (h : isDigit d)
  | number

def TemplatePiece.text : TemplatePiece → CStr
  | .plain b _ => [b]
  | .escape d _ => [percent, d]
  | .number => percent :: (numberPattern ++ [percent])

/-- What stands for the piece in the prepared url. -/
def TemplatePiece.subst (number : CStr) : TemplatePiece → CStr
  | .plain b _ => [b]
  | .escape d _ => [percent, d]
  | .number => number

def template (ps : List TemplatePiece) : CStr := ps.flatMap TemplatePiece.text

def substituted (number : CStr) (ps : List TemplatePiece) : CStr :=
  ps.flatMap (TemplatePiece.subst number)

/-- The length a substitution adds. -/
def TemplatePiece.diff (number : CStr) : TemplatePiece → ℤ
  | .number => number.length - 8
  | _ => 0

def templateDiff (number : CStr) (ps : List TemplatePiece) : ℤ :=
  (ps.map (TemplatePiece.diff number)).sum

theorem template_cons (p : TemplatePiece) (ps : List TemplatePiece) :
    template (p :: ps) = p.text ++ template ps := List.flatMap_cons

theorem substituted_cons (number : CStr) (p : TemplatePiece) (ps : List TemplatePiece) :
    substituted number (p :: ps) = p.subst number ++ substituted number ps := List.flatMap_cons

theorem substituted_length (number : CStr) (ps : List TemplatePiece) :
    ((substituted number ps).length : ℤ) = (template ps).length + templateDiff number ps := by
  induction ps with
  | nil => rfl
  | cons p ps ih =>
    have hp : ((p.subst number).length : ℤ) = p.text.length + p.diff number := by
      cases p with
      | plain b h => rfl
      | escape d h => rfl
      | number =>
        have : (TemplatePiece.number).text.length = 8 := rfl
        simp only [TemplatePiece.subst, TemplatePiece.diff, this]
        omega
    have hd : templateDiff number (p :: ps) = p.diff number + templateDiff number ps := by
      simp [templateDiff]
    rw [substituted_cons, template_cons, List.length_append, List.length_append, hd]
    omega

theorem not_percent_of_digit {d : UInt8} (h : isDigit d) : d ≠ percent := by
  rintro rfl
  exact absurd h (by decide)

/-- Over a closed placeholder the name is read if it fits with its terminator. -/
theorem readPattern_closed {name : CStr} (hname : percent ∉ name) (rest : CStr) (k : ℕ)
    (hfit : k + name.length < PATTERN_SIZE) :
    readPattern (name ++ percent :: rest) k = .ok name := by
  induction name generalizing k with
  | nil =>
    have hk : k < PATTERN_SIZE := by simpa using hfit
    simp [readPattern, hk]
  | cons b name ih =>
    rw [List.length_cons] at hfit
    have hk : k < PATTERN_SIZE := by omega
    have hb : b ≠ percent := fun h => hname (by simp [h])
    have htail := ih (fun h => hname (List.mem_cons_of_mem _ h)) (k + 1) (by omega)
    rw [List.cons_append, readPattern, if_pos hk, if_neg hb, htail]
    rfl

theorem readPattern_ok {s name : CStr} {k : ℕ} (h : readPattern s k = .ok name) :
    ∃ rest, s = name ++ percent :: rest := by
  induction s generalizing k name with
  | nil => cases h
  | cons b s ih =>
    rw [readPattern] at h
    split_ifs at h with hk hb
    · cases h
      exact ⟨s, by rw [hb]; rfl⟩
    · obtain ⟨tail, hs, rfl⟩ := map_eq_ok.1 h
      obtain ⟨rest, rfl⟩ := ih hs
      exact ⟨rest, rfl⟩

theorem skipPlaceholder_closed {name : CStr} (hname : percent ∉ name) (rest : CStr) :
    skipPlaceholder (name ++ percent :: rest) = .ok rest := by
  induction name with
  | nil => simp [skipPlaceholder]
  | cons b name ih =>
    have hb : b ≠ percent := fun h => hname (by simp [h])
    rw [List.cons_append, skipPlaceholder, if_neg hb]
    exact ih fun h => hname (List.mem_cons_of_mem _ h)

theorem number_text_append (rest : CStr) :
    TemplatePiece.number.text ++ rest = percent :: (numberPattern ++ percent :: rest) := by
  simp [TemplatePiece.text]

theorem percent_not_mem_numberPattern : percent ∉ numberPattern := by decide

/-- The two reads of a placeholder for the number and the step over it. -/
theorem opens_number (rest : CStr) :
    opensPlaceholder percent (numberPattern ++ percent :: rest) = true := rfl

theorem readPattern_number (rest : CStr) :
    readPattern (numberPattern ++ percent :: rest) 0 = .ok numberPattern :=
  readPattern_closed percent_not_mem_numberPattern rest 0 (by decide)

theorem opens_plain {b : UInt8} (h : b ≠ percent) (rest : CStr) :
    opensPlaceholder b rest = false := by
  simp [opensPlaceholder, h]

theorem opens_digit {d : UInt8} (h : isDigit d) (rest : CStr) :
    opensPlaceholder percent (d :: rest) = false := by
  simp [opensPlaceholder, byteAt, h]

theorem drop_number (rest : CStr) :
    (numberPattern ++ percent :: rest).drop (numberPattern.length + 1) = rest := rfl

theorem toGint_add_toGint (a b : ℤ) : toGint (toGint a + toGint b) = toGint (a + b) := by
  simp [toGint]

theorem toGint_eq_self {n : ℤ} : toGint n = n ↔ -(2 ^ 31) ≤ n ∧ n < 2 ^ 31 := by
  unfold toGint
  rw [Int.bmod_eq_iff (by decide)]
  simp only [Nat.reducePow, Nat.cast_ofNat]
  omega

/-- The rounds of a loop that take it over the piece. -/
def TemplatePiece.rounds : TemplatePiece → ℕ
  | .plain _ _ | .number => 1
  | .escape _ _ => 2

theorem rounds_le_length (p : TemplatePiece) : p.rounds ≤ p.text.length := by
  cases p with
  | plain b h => exact le_rfl
  | escape d h => exact le_rfl
  | number => exact (by decide : 1 ≤ 8)

/-- Rounds for a template are rounds for its first piece and enough for the others. -/
theorem rounds_of_cons {p : TemplatePiece} {ps : List TemplatePiece} {n : ℕ}
    (h : (template (p :: ps)).length ≤ n) :
    ∃ m, (template ps).length ≤ m ∧ n = m + p.rounds := by
  have hp := rounds_le_length p
  rw [template_cons, List.length_append] at h
  exact ⟨n - p.rounds, by omega, by omega⟩

theorem urlText_piece (number : CStr) (p : TemplatePiece) (rest : CStr) (n : ℕ) :
    urlText number (n + p.rounds) (p.text ++ rest) =
      (urlText number n rest).map (p.subst number ++ ·) := by
  cases p with
  | plain b h =>
    change urlText number (n + 1) (b :: rest) = _
    rw [urlText, if_neg (by simp [opens_plain h])]
    rfl
  | escape d h =>
    -- the '%' and the digit behind it are copied in two rounds
    change urlText number (n + 1 + 1) (percent :: d :: rest) = _
    rw [urlText, if_neg (by simp [opens_digit h]), urlText,
      if_neg (by simp [opens_plain (not_percent_of_digit h)])]
    cases urlText number n rest <;> rfl
  | number =>
    change urlText number (n + 1) _ = _
    rw [number_text_append, urlText, if_pos (opens_number _), readPattern_number]
    rfl

theorem urlText_template (number : CStr) (ps : List TemplatePiece) :
    ∀ n, (template ps).length ≤ n →
      urlText number n (template ps) = .ok (substituted number ps) := by
  induction ps with
  | nil => intro n _; cases n <;> rfl
  | cons p ps ih =>
    intro n hn
    obtain ⟨m, hm, rfl⟩ := rounds_of_cons hn
    rw [template_cons, urlText_piece, ih m hm, substituted_cons]
    rfl

theorem getsubstitutediff_number (number rest : CStr) :
    getsubstitutediff (percent :: (numberPattern ++ percent :: rest)) number =
      .ok (toGint (TemplatePiece.number.diff number)) := by
  have hlen : (number.length : ℤ) - numberPattern.length - 2 = number.length - 8 := by
    have : numberPattern.length = 6 := rfl
    omega
  simp only [getsubstitutediff, byteAt, List.getD_cons_zero, ne_eq, not_true_eq_false,
    if_false, List.tail_cons, readPattern_number, bind, Except.bind, if_true, hlen]
  rfl

theorem urlDiff_piece (number : CStr) (p : TemplatePiece) (rest : CStr) (n : ℕ) (acc : ℤ) :
    urlDiff number (n + p.rounds) (p.text ++ rest) (toGint acc) =
      urlDiff number n rest (toGint (acc + p.diff number)) := by
  cases p with
  | plain b h =>
    change urlDiff number (n + 1) (b :: rest) _ = _
    rw [urlDiff, if_neg (by simp [opens_plain h])]
    exact congrArg (urlDiff number n rest <| toGint ·) (add_zero acc).symm
  | escape d h =>
    change urlDiff number (n + 1 + 1) (percent :: d :: rest) _ = _
    rw [urlDiff, if_neg (by simp [opens_digit h]), urlDiff,
      if_neg (by simp [opens_plain (not_percent_of_digit h)])]
    exact congrArg (urlDiff number n rest <| toGint ·) (add_zero acc).symm
  | number =>
    change urlDiff number (n + 1) _ _ = _
    rw [number_text_append, urlDiff, if_pos (opens_number _), getsubstitutediff_number]
    simp only [bind, Except.bind, skipPlaceholder_closed percent_not_mem_numberPattern,
      toGint_add_toGint]

theorem urlDiff_template (number : CStr) (ps : List TemplatePiece) :
    ∀ n, (template ps).length ≤ n → ∀ acc,
      urlDiff number n (template ps) (toGint acc) =
        .ok (toGint (acc + templateDiff number ps)) := by
  induction ps with
  | nil => intro n _ acc; cases n <;> simp [template, urlDiff, templateDiff]
  | cons p ps ih =>
    intro n hn acc
    have hd : templateDiff number (p :: ps) = p.diff number + templateDiff number ps := by
      simp [templateDiff]
    obtain ⟨m, hm, rfl⟩ := rounds_of_cons hn
    rw [template_cons, urlDiff_piece, ih m hm, hd, add_assoc]

theorem prepare_template (number : CStr) (ps : List TemplatePiece) {n : ℕ}
    (hn : (template ps).length ≤ n) :
    urlSize number n (template ps) =
        .ok ((template ps).length + 1 + toGint (templateDiff number ps)) ∧
      urlText number n (template ps) = .ok (substituted number ps) := by
  refine ⟨?_, urlText_template number ps n hn⟩
  have h := urlDiff_template number ps n hn 0
  rw [zero_add] at h
  have h0 : toGint 0 = 0 := rfl
  rw [h0] at h
  simp only [urlSize, h, bind, Except.bind]
  rfl

/-- A sequence of pieces whose text starts with a digit starts with a plain one. -/
theorem digit_first {ps : List TemplatePiece} (h : isDigit (byteAt (template ps) 0)) :
    ∃ d, isDigit d ∧ ∃ ps', template ps = d :: template ps' := by
  cases ps with
  | nil => exact absurd h (by decide)
  | cons p ps =>
    rw [template_cons] at h ⊢
    cases p with
    | plain b hb => exact ⟨b, h, ps, rfl⟩
    | escape d hd => exact absurd h (by simp [TemplatePiece.text, byteAt, isDigit, percent])
    | number => exact absurd h (by simp [TemplatePiece.text, byteAt, isDigit, percent])

/-- A template whose second pass comes to its end is a sequence of pieces. -/
theorem template_of_urlText {number : CStr} {n : ℕ} {url out : CStr}
    (h : urlText number n url = .ok out) : ∃ ps, url = template ps := by
  induction n generalizing url out with
  | zero =>
    cases url with
    | nil => exact ⟨[], rfl⟩
    | cons b rest => cases h
  | succ n ih =>
    cases url with
    | nil => exact ⟨[], rfl⟩
    | cons b rest =>
      rw [urlText] at h
      split_ifs at h with hopens
      · obtain ⟨name, hp, h⟩ := bind_eq_ok.1 h
        split_ifs at h with hname
        · subst hname
          have hb : b = percent := by
            simp only [opensPlaceholder, Bool.and_eq_true, decide_eq_true_eq] at hopens
            exact hopens.1
          obtain ⟨rest', rfl⟩ := readPattern_ok hp
          rw [drop_number] at h
          obtain ⟨out', ht, -⟩ := map_eq_ok.1 h
          obtain ⟨ps, rfl⟩ := ih ht
          exact ⟨.number :: ps, by rw [template_cons, number_text_append, hb]⟩
        · exact ih h
      · obtain ⟨out', ht, -⟩ := map_eq_ok.1 h
        obtain ⟨ps, rfl⟩ := ih ht
        by_cases hb : b = percent
        · have hfirst : isDigit (byteAt (template ps) 0) := by
            simpa [opensPlaceholder, hb] using hopens
          obtain ⟨d, hd, ps', hps⟩ := digit_first hfirst
          exact ⟨.escape d hd :: ps', by rw [template_cons, hps, hb]; rfl⟩
        · exact ⟨.plain b hb :: ps, by rw [template_cons]; rfl⟩

theorem urlDiff_more {number : CStr} {n : ℕ} {url : CStr} {acc diff : ℤ}
    (h : urlDiff number n url acc = .ok diff) (k : ℕ) :
    urlDiff number (n + k) url acc = .ok diff := by
  induction n generalizing url acc with
  | zero =>
    cases url with
    | nil => simpa [urlDiff] using h
    | cons b rest => cases h
  | succ n ih =>
    cases url with
    | nil => simpa [urlDiff] using h
    | cons b rest =>
      rw [Nat.add_right_comm, urlDiff]
      rw [urlDiff] at h
      split_ifs at h ⊢ with hopens
      · obtain ⟨d, hd, h⟩ := bind_eq_ok.1 h
        obtain ⟨url, hs, h⟩ := bind_eq_ok.1 h
        exact bind_eq_ok.2 ⟨d, hd, bind_eq_ok.2 ⟨url, hs, ih h⟩⟩
      · exact ih h

theorem urlSize_more {number : CStr} {n : ℕ} {url : CStr} {size : ℤ}
    (h : urlSize number n url = .ok size) (k : ℕ) : urlSize number (n + k) url = .ok size := by
  obtain ⟨diff, hd, h⟩ := bind_eq_ok.1 h
  exact bind_eq_ok.2 ⟨diff, urlDiff_more hd k, h⟩

/-- The number of rounds that the first pass is given does not matter once it returns. -/
theorem urlSize_unique {number : CStr} {ps : List TemplatePiece} {n : ℕ} {size : ℤ}
    (h : urlSize number n (template ps) = .ok size) :
    size = (template ps).length + 1 + toGint (templateDiff number ps) := by
  have hmore := urlSize_more h (template ps).length
  rw [(prepare_template number ps (Nat.le_add_left _ n)).1] at hmore
  exact (Except.ok.inj hmore).symm

theorem cirlwPrepareUrl_ok {gTryMalloc : ℤ → Bool} {n : ℕ} {url number : CStr} {size : ℤ}
    {text : CStr} (hsize : urlSize number n url = .ok size)
    (htext : urlText number n url = .ok text) :
    cirlwPrepareUrl gTryMalloc n url number =
      .ok (if gTryMalloc size then some text else none) := by
  simp only [cirlwPrepareUrl, hsize, htext, bind, Except.bind]
  split_ifs <;> rfl

/-- A preparation that gets its memory has come to the end of the second pass. -/
theorem urlText_of_prepareUrl {n : ℕ} {url number : CStr} {r : Option CStr}
    (h : cirlwPrepareUrl (fun _ => true) n url number = .ok r) :
    ∃ text, urlText number n url = .ok text := by
  obtain ⟨size, -, h⟩ := bind_eq_ok.1 h
  obtain ⟨text, ht, -⟩ := bind_eq_ok.1 h
  exact ⟨text, ht⟩

/-- Both passes come to an end, read the template up to its terminator at most and keep
within `pattern`, whatever the allocator answers, exactly for the sequences of pieces. -/
theorem prepareUrl_returns_iff (url number : CStr) :
    (∀ gTryMalloc, ∃ fuel r, cirlwPrepareUrl gTryMalloc fuel url number = .ok r) ↔
      ∃ ps, url = template ps := by
  constructor
  · intro h
    obtain ⟨fuel, r, hr⟩ := h fun _ => true
    obtain ⟨text, ht⟩ := urlText_of_prepareUrl hr
    exact template_of_urlText ht
  · rintro ⟨ps, rfl⟩ gTryMalloc
    obtain ⟨hsize, htext⟩ := prepare_template number ps le_rfl
    exact ⟨_, _, cirlwPrepareUrl_ok hsize htext⟩

/-- A closed placeholder of another name is read again and again. -/
theorem urlText_unknown (name : CStr) (hname : percent ∉ name) (hother : name ≠ numberPattern)
    (hdigit : !isDigit (byteAt name 0)) (hfit : name.length < PATTERN_SIZE) (rest number : CStr)
    (n : ℕ) : urlText number n (percent :: (name ++ percent :: rest)) = .error .running := by
  have hopens : opensPlaceholder percent (name ++ percent :: rest) = true := by
    cases name with
    | nil => rfl
    | cons b name => simpa [opensPlaceholder, byteAt] using hdigit
  have hread := readPattern_closed hname rest 0 (by omega)
  induction n with
  | zero => rfl
  | succ n ih =>
    rw [urlText, if_pos hopens, hread]
    simp only [bind, Except.bind, if_neg hother, ih]

/-- The escaped form of a letter outside ASCII keeps the second pass busy for ever. -/
theorem escapedLetter_never_prepared :
    ¬ ∀ gTryMalloc, ∃ fuel r, cirlwPrepareUrl gTryMalloc fuel (ascii "%C3%BC") [] = .ok r := by
  intro h
  obtain ⟨fuel, r, hr⟩ := h fun _ => true
  obtain ⟨text, ht⟩ := urlText_of_prepareUrl hr
  have hrunning : urlText [] fuel (ascii "%C3%BC") = .error .running :=
    urlText_unknown (ascii "C3") (by decide) (by decide) (by decide) (by decide)
      (ascii "BC") [] fuel
  rw [hrunning] at ht
  cases ht

/-- The size asked for is the one the text needs exactly if the sum of the differences is
the one a `gint` holds; the text is the template with the number put in at any rate. -/
theorem prepareUrl_substitutes_iff (ps : List TemplatePiece) (number : CStr) :
    (∃ fuel, urlSize number fuel (template ps) = .ok ((substituted number ps).length + 1) ∧
      ∀ gTryMalloc, cirlwPrepareUrl gTryMalloc fuel (template ps) number =
        .ok (if gTryMalloc ((substituted number ps).length + 1) then
          some (substituted number ps) else none)) ↔
      -(2 ^ 31) ≤ templateDiff number ps ∧ templateDiff number ps < 2 ^ 31 := by
  rw [← toGint_eq_self]
  have hlength := substituted_length number ps
  constructor
  · rintro ⟨fuel, hsize, -⟩
    have := urlSize_unique hsize
    omega
  · intro hdiff
    obtain ⟨hsize, htext⟩ := prepare_template number ps le_rfl
    have hexact : ((template ps).length : ℤ) + 1 + toGint (templateDiff number ps) =
        (substituted number ps).length + 1 := by omega
    rw [hexact] at hsize
    exact ⟨_, hsize, fun _ => cirlwPrepareUrl_ok hsize htext⟩

theorem templateDiff_replicate (number : CStr) (n : ℕ) :
    templateDiff number (List.replicate n .number) = n * (number.length - 8) := by
  simp [templateDiff, TemplatePiece.diff]

/-- 31 digits in place of each of 93368855 placeholders are 2147483665 bytes more, which
a `gint` does not hold. -/
theorem manyPlaceholders_missized :
    ¬ ∃ fuel, urlSize (List.replicate 31 48) fuel
        (template (List.replicate 93368855 .number)) =
      .ok ((substituted (List.replicate 31 48) (List.replicate 93368855 .number)).length + 1) := by
  rintro ⟨fuel, hsize⟩
  have hunique := urlSize_unique hsize
  have hlength := substituted_length (List.replicate 31 48) (List.replicate 93368855 .number)
  have hdiff := templateDiff_replicate (List.replicate 31 48) 93368855
  rw [List.length_replicate] at hdiff
  have hfits := (toGint_eq_self (n := templateDiff (List.replicate 31 48)
    (List.replicate 93368855 .number))).1 (by omega)
  omega

end Fritz2ci
