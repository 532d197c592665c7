import Fritz2ci.Lib.Decimal

/-! The text of an SQL statement: string literals between single quotes, in which a doubled quote
stands for one, and everything outside of them. `mprintf` builds such texts from a format with
`%d`, `%s`, `%q`, `%Q` and `%%`. -/

namespace SqlText

open CString Decimal

/-- `%q`: every quote doubled. -/
def doubled : CStr → CStr
  | [] => []
  | b :: s => if b = 39 then 39 :: 39 :: doubled s else b :: doubled s

def printInt (n : ℤ) : CStr := if n < 0 then 45 :: printNat n.natAbs else printNat n.natAbs

inductive FormatArg
  | int (n : ℤ)
  /-- a string, `none` for NULL -/
  | text (s : Option CStr)

def quoteArg : Option CStr → CStr
  | some s => 39 :: doubled s ++ [39]
  | none => ascii "NULL"

/-- `sqlite3_mprintf` -/
def mprintf : List UInt8 → List FormatArg → List UInt8
  | 37 :: 100 :: format, .int n :: args => printInt n ++ mprintf format args
  | 37 :: 115 :: format, .text s :: args => s.getD [] ++ mprintf format args
  | 37 :: 113 :: format, .text s :: args => doubled (s.getD (ascii "(NULL)")) ++ mprintf format args
  | 37 :: 81 :: format, .text s :: args => quoteArg s ++ mprintf format args
  | 37 :: 37 :: format, args => 37 :: mprintf format args
  | b :: format, args => b :: mprintf format args
  | [], _ => []

theorem mprintf_code {t : List UInt8} (h : 37 ∉ t) (format : List UInt8) (args : List FormatArg) :
    mprintf (t ++ format) args = t ++ mprintf format args := by
  induction t with
  | nil => rfl
  | cons b t ih =>
    rw [List.mem_cons, not_or] at h
    have hb : b ≠ 37 := Ne.symm h.1
    rw [List.cons_append, mprintf, ih h.2, List.cons_append]
    -- the directives all start with a percent sign
    all_goals
      intros
      contradiction

theorem mprintf_int (n : ℤ) (format : List UInt8) (args : List FormatArg) :
    mprintf (ascii "%d" ++ format) (.int n :: args) = printInt n ++ mprintf format args := by
  change mprintf (37 :: 100 :: format) _ = _
  rw [mprintf]

theorem mprintf_text (s : CStr) (format : List UInt8) (args : List FormatArg) :
    mprintf (ascii "%s" ++ format) (.text (some s) :: args) = s ++ mprintf format args := by
  change mprintf (37 :: 115 :: format) _ = _
  rw [mprintf, Option.getD_some]

theorem mprintf_doubled (s : CStr) (format : List UInt8) (args : List FormatArg) :
    mprintf (ascii "%q" ++ format) (.text (some s) :: args) = doubled s ++ mprintf format args := by
  change mprintf (37 :: 113 :: format) _ = _
  rw [mprintf, Option.getD_some]

theorem mprintf_quote (s : Option CStr) (format : List UInt8) (args : List FormatArg) :
    mprintf (ascii "%Q" ++ format) (.text s :: args) = quoteArg s ++ mprintf format args := by
  change mprintf (37 :: 81 :: format) _ = _
  rw [mprintf]

theorem mprintf_percent (format : List UInt8) (args : List FormatArg) :
    mprintf (ascii "%%" ++ format) args = 37 :: mprintf format args := by
  change mprintf (37 :: 37 :: format) _ = _
  rw [mprintf]

/-- A byte outside the literals, or a literal with its value. -/
inductive Piece
  | code (b : UInt8)
  | literal (s : CStr)
  deriving DecidableEq, Repr

/-- The pieces of a text. Inside a literal the state holds what has been read of it; `none` if
the text ends there. -/
def scan : Option CStr → List UInt8 → Option (List Piece)
  | none, [] => some []
  | some _, [] => none
  | none, b :: text =>
    if b = 39 then scan (some []) text else (scan none text).map (.code b :: ·)
  | some acc, [b] => if b = 39 then some [.literal acc] else none
  | some acc, b :: c :: text =>
    if b ≠ 39 then scan (some (acc ++ [b])) (c :: text)
    else if c = 39 then scan (some (acc ++ [39])) text
    else (scan none (c :: text)).map (.literal acc :: ·)

/-- Text outside the literals. -/
def codes (text : List UInt8) : List Piece := text.map .code

theorem scan_codes {text : List UInt8} (h : 39 ∉ text) (rest : List UInt8) :
    scan none (text ++ rest) = (scan none rest).map (codes text ++ ·) := by
  induction text with
  | nil => cases hr : scan none rest <;> simp [codes, hr]
  | cons b text ih =>
    rw [List.mem_cons, not_or] at h
    rw [List.cons_append, scan, if_neg (Ne.symm h.1), ih h.2, Option.map_map]
    rfl

/-- A literal is read up to the quote that ends it, whatever its value. -/
theorem scan_literal (s acc : CStr) {rest : List UInt8} (h : rest.head? ≠ some 39) :
    scan (some acc) (doubled s ++ 39 :: rest) = (scan none rest).map (.literal (acc ++ s) :: ·) := by
  induction s generalizing acc with
  | nil =>
    rw [doubled, List.nil_append, List.append_nil]
    cases rest with
    | nil => rfl
    | cons c rest =>
      have hc : c ≠ 39 := fun heq => h (by rw [heq]; rfl)
      conv_lhs => rw [scan, if_neg (not_not.2 rfl), if_neg hc]
  | cons b s ih =>
    have happ : acc ++ b :: s = acc ++ [b] ++ s := by simp
    by_cases hb : b = 39
    · subst hb
      rw [doubled, if_pos rfl, List.cons_append, List.cons_append, scan, if_neg (not_not.2 rfl),
        if_pos rfl, ih, happ]
    · have hcons : ∃ c text, doubled s ++ 39 :: rest = c :: text := by
        cases hd : doubled s with
        | nil => exact ⟨_, _, rfl⟩
        | cons c text => exact ⟨_, _, rfl⟩
      obtain ⟨c, text, htext⟩ := hcons
      rw [doubled, if_neg hb, List.cons_append, htext, scan, if_pos hb, ← htext, ih, happ]

/-- What a statement is put together from: text outside the literals, and literals. -/
inductive Part
  | text (t : List UInt8)
  | quoted (s : CStr)

def Part.bytes : Part → List UInt8
  | .text t => t
  | .quoted s => 39 :: doubled s ++ [39]

def Part.pieces : Part → List Piece
  | .text t => codes t
  | .quoted s => [.literal s]

/-- No quote outside the literals, and none of them right behind another. -/
def WellFormed : List Part → Prop
  | [] => True
  | .text t :: parts => 39 ∉ t ∧ WellFormed parts
  | .quoted _ :: parts => (parts.flatMap Part.bytes).head? ≠ some 39 ∧ WellFormed parts

/-- A statement is read back as what it was put together from. -/
theorem scan_parts {parts : List Part} (h : WellFormed parts) :
    scan none (parts.flatMap Part.bytes) = some (parts.flatMap Part.pieces) := by
  induction parts with
  | nil => rfl
  | cons part parts ih =>
    rw [List.flatMap_cons, List.flatMap_cons]
    cases part with
    | text t =>
      obtain ⟨ht, hparts⟩ := h
      rw [Part.bytes, scan_codes ht, ih hparts, Option.map_some]
      rfl
    | quoted s =>
      obtain ⟨hnext, hparts⟩ := h
      rw [Part.bytes, List.append_assoc, List.cons_append, List.singleton_append, scan, if_pos rfl,
        scan_literal s [] hnext, ih hparts, Option.map_some]
      rfl

theorem quote_not_mem_printInt (n : ℤ) : 39 ∉ printInt n := by
  have hdigits : ∀ m, 39 ∉ printNat m := fun m hm => absurd (isDigit_printNat m 39 hm) (by decide)
  unfold printInt
  split_ifs
  · rw [List.mem_cons, not_or]
    exact ⟨by decide, hdigits _⟩
  · exact hdigits _

theorem printInt_inj {m n : ℤ} (h : printInt m = printInt n) : m = n := by
  have hminus : ∀ k : ℕ, ∀ s, 45 :: s ≠ printNat k := by
    intro k s heq
    exact absurd (isDigit_printNat k 45 (heq ▸ List.mem_cons_self)) (by decide)
  unfold printInt at h
  split_ifs at h with hm hn hn
  · have := printNat_inj (List.cons.inj h).2
    omega
  · exact absurd h (hminus _ _)
  · exact absurd h.symm (hminus _ _)
  · have := printNat_inj h
    omega

theorem doubled_append (s t : CStr) : doubled (s ++ t) = doubled s ++ doubled t := by
  induction s with
  | nil => rfl
  | cons b s ih =>
    rw [List.cons_append, doubled, doubled]
    split_ifs <;> rw [ih] <;> rfl

def literals (pieces : List Piece) : List CStr :=
  pieces.filterMap fun
    | .literal s => some s
    | .code _ => none

/-- The texts around the literals, one more than there are of these. -/
def between : List Piece → List (List UInt8)
  | [] => [[]]
  | .code b :: pieces => (between pieces).modifyHead (b :: ·)
  | .literal _ :: pieces => [] :: between pieces

def Part.around : List Part → List (List UInt8)
  | [] => [[]]
  | .text t :: parts => (around parts).modifyHead (t ++ ·)
  | .quoted _ :: parts => [] :: around parts

theorem between_codes (t : List UInt8) (pieces : List Piece) :
    between (codes t ++ pieces) = (between pieces).modifyHead (t ++ ·) := by
  induction t with
  | nil => exact (congrFun List.modifyHead_id _).symm
  | cons b t ih =>
    change (between (codes t ++ pieces)).modifyHead (b :: ·) = _
    rw [ih, List.modifyHead_modifyHead]
    rfl

theorem between_parts (parts : List Part) :
    between (parts.flatMap Part.pieces) = Part.around parts := by
  induction parts with
  | nil => rfl
  | cons part parts ih =>
    rw [List.flatMap_cons]
    cases part with
    | text t => rw [Part.pieces, between_codes, ih, Part.around]
    | quoted s =>
      change [] :: between (parts.flatMap Part.pieces) = _
      rw [ih, Part.around]

theorem literals_parts (parts : List Part) :
    literals (parts.flatMap Part.pieces) = parts.filterMap fun
      | .quoted s => some s
      | .text _ => none := by
  induction parts with
  | nil => rfl
  | cons part parts ih =>
    have hcodes : ∀ t, literals (codes t) = [] := by
      intro t
      induction t with
      | nil => rfl
      | cons b t iht => exact iht
    rw [List.flatMap_cons]
    unfold literals at ih hcodes ⊢
    rw [List.filterMap_append, ih]
    cases part with
    | text t => rw [Part.pieces, hcodes]; rfl
    | quoted s => rfl

end SqlText
