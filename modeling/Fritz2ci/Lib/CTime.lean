import Fritz2ci.Lib.CString

/-! Broken-down time: `strptime` over a list of directives and the fixed-width formats of
`strftime`. -/

namespace CTime

open CString

/-- The fields of `struct tm` that a date and a time of day fill. -/
structure Tm where
  sec : ℕ
  min : ℕ
  hour : ℕ
  mday : ℕ
  mon : ℕ
  year : ℕ
  deriving DecidableEq, Repr

def Tm.zero : Tm := ⟨0, 0, 0, 0, 0, 0⟩

inductive TmField
  | mday | mon | year | hour | min | sec
  deriving DecidableEq, Repr

/-- Least and greatest number a conversion accepts. -/
def TmField.range : TmField → ℕ × ℕ
  | .mday => (1, 31)
  | .mon => (1, 12)
  | .year => (0, 99)
  | .hour => (0, 23)
  | .min => (0, 59)
  | .sec => (0, 61)

/-- Two-digit years from 69 on belong to the twentieth century. -/
def TmField.store (v : ℕ) (t : Tm) : TmField → Tm
  | .mday => { t with mday := v }
  | .mon => { t with mon := v - 1 }
  | .year => { t with year := if 69 ≤ v then v else v + 100 }
  | .hour => { t with hour := v }
  | .min => { t with min := v }
  | .sec => { t with sec := v }

inductive Directive
  | num (f : TmField)
  | lit (b : UInt8)
  | space
  deriving DecidableEq, Repr

/-- A number of at most two digits after any blanks; a second digit is read only while
the number can stay within `hi`. -/
def getNumber (lo hi : ℕ) (s : CStr) : Option (ℕ × CStr) :=
  match s.dropWhile (· = 32) with
  | [] => none
  | a :: t =>
    if isDigit a then
      let v := a.toNat - 48
      let (v, t) := match t with
        | b :: t' => if v * 10 ≤ hi ∧ isDigit b then (v * 10 + (b.toNat - 48), t') else (v, t)
        | [] => (v, t)
      if lo ≤ v ∧ v ≤ hi then some (v, t) else none
    else none

/-- `strptime`: fields are stored as they are read, so a mismatch leaves the ones before
it in place. -/
def strptime : List Directive → CStr → Tm → Tm
  | [], _, t => t
  | .space :: ds, s, t => strptime ds (s.dropWhile isSpace) t
  | .lit b :: ds, s, t => if s.head? = some b then strptime ds s.tail t else t
  | .num f :: ds, s, t =>
    match getNumber f.range.1 f.range.2 s with
    | none => t
    | some (v, s') => strptime ds s' (f.store v t)

def twoDigits (n : ℕ) : CStr := [(48 + n / 10 % 10).toUInt8, (48 + n % 10).toUInt8]

def fourDigits (n : ℕ) : CStr := twoDigits (n / 100) ++ twoDigits n

/-- `%H:%M:%S` -/
def formatTime (t : Tm) : CStr :=
  twoDigits t.hour ++ ascii ":" ++ twoDigits t.min ++ ascii ":" ++ twoDigits t.sec

/-- `%d.%m.%Y` -/
def formatGermanDate (t : Tm) : CStr :=
  twoDigits t.mday ++ ascii "." ++ twoDigits (t.mon + 1) ++ ascii "." ++ fourDigits (1900 + t.year)

/-- `%Y-%m-%d` -/
def formatIsoDate (t : Tm) : CStr :=
  fourDigits (1900 + t.year) ++ ascii "-" ++ twoDigits (t.mon + 1) ++ ascii "-" ++ twoDigits t.mday

/-- `strftime (dst, max, ..)` for a result `s`: a result that does not fit is not stored. -/
def strftime (max : ℕ) (s : CStr) : CStr := if s.length < max then s else []

theorem digit_toNat {d : ℕ} (h : d < 10) : (48 + d).toUInt8.toNat = 48 + d := by
  rw [Nat.toUInt8, UInt8.toNat_ofNat']
  omega

theorem isDigit_digit {d : ℕ} (h : d < 10) : isDigit (48 + d).toUInt8 := by
  simp only [isDigit, Bool.and_eq_true, decide_eq_true_eq, UInt8.le_iff_toNat_le, digit_toNat h]
  simp
  omega

theorem isDigit_twoDigits (n : ℕ) : ∀ b ∈ twoDigits n, isDigit b := by
  intro b hb
  rcases List.mem_pair.1 hb with rfl | rfl
  · exact isDigit_digit (Nat.mod_lt _ (by decide))
  · exact isDigit_digit (Nat.mod_lt _ (by decide))

theorem isDigit_fourDigits (n : ℕ) : ∀ b ∈ fourDigits n, isDigit b := by
  intro b hb
  rcases List.mem_append.1 hb with hb | hb
  · exact isDigit_twoDigits _ b hb
  · exact isDigit_twoDigits _ b hb

theorem decimal_append_twoDigits (s : CStr) (n : ℕ) :
    decimal (s ++ twoDigits n) = 100 * decimal s + n % 100 := by
  have htens := digit_toNat (Nat.mod_lt (n / 10) (show 0 < 10 by decide))
  have hones := digit_toNat (Nat.mod_lt n (show 0 < 10 by decide))
  simp only [decimal, List.foldl_append, twoDigits, List.foldl_cons, List.foldl_nil, htens, hones]
  omega

theorem decimal_twoDigits {n : ℕ} (h : n < 100) : decimal (twoDigits n) = n := by
  have happ := decimal_append_twoDigits [] n
  have hnil : decimal [] = 0 := rfl
  rw [List.nil_append, hnil] at happ
  omega

theorem decimal_fourDigits {n : ℕ} (h : n < 10000) : decimal (fourDigits n) = n := by
  rw [fourDigits, decimal_append_twoDigits, decimal_twoDigits (by omega)]
  omega

/-- A text of digits has no separator in it. -/
theorem not_mem_of_isDigit {s : CStr} (hs : ∀ b ∈ s, isDigit b) {sep : UInt8}
    (h : isDigit sep = false) : sep ∉ s := fun hm => by
  have := hs sep hm
  rw [h] at this
  cases this

theorem strftime_of_lt {max : ℕ} {s : CStr} (h : s.length < max) : strftime max s = s := if_pos h

@[simp] theorem twoDigits_length (n : ℕ) : (twoDigits n).length = 2 := rfl

@[simp] theorem fourDigits_length (n : ℕ) : (fourDigits n).length = 4 := rfl

/-- The separators of a time of day are colons. -/
theorem formatTime_eq (t : Tm) : formatTime t =
    twoDigits t.hour ++ 58 :: (twoDigits t.min ++ 58 :: twoDigits t.sec) := rfl

/-- The separators of a date are hyphens. -/
theorem formatIsoDate_eq (t : Tm) : formatIsoDate t =
    fourDigits (1900 + t.year) ++ 45 :: (twoDigits (t.mon + 1) ++ 45 :: twoDigits t.mday) := rfl

@[simp] theorem formatTime_length (t : Tm) : (formatTime t).length = 8 := rfl

@[simp] theorem formatIsoDate_length (t : Tm) : (formatIsoDate t).length = 10 := rfl

theorem strftime_length_lt {max : ℕ} (hm : 0 < max) (s : CStr) : (strftime max s).length < max := by
  unfold strftime
  split_ifs with h
  · exact h
  · simpa using hm

end CTime
