import Mathlib.Algebra.Order.Ring.Int
import Mathlib.Data.List.GetD
import Mathlib.Tactic.SplitIfs

/-! The Gregorian calendar, continued over all years. Dates are counted in days from
1970-01-01: `daysOf` and `dateOf` are inverse to each other on the dates that exist. -/

namespace Calendar

/-- The chunk a position falls into when chunks of the given lengths lie behind each other,
and the place within that chunk. -/
def locate : List ℕ → ℕ → ℕ × ℕ
  | [], n => (0, n)
  | l :: ls, n => if n < l then (0, n) else
      let (i, k) := locate ls (n - l)
      (i + 1, k)

theorem locate_take (ls : List ℕ) {i k : ℕ} (hk : k < ls.getD i 0) :
    locate ls ((ls.take i).sum + k) = (i, k) := by
  induction ls generalizing i with
  | nil => simp at hk
  | cons l ls ih =>
    cases i with
    | zero => simp_all [locate]
    | succ i =>
      have hge : ¬ l + (ls.take i).sum + k < l := by omega
      have hsub : l + (ls.take i).sum + k - l = (ls.take i).sum + k := by omega
      rw [List.take_succ_cons, List.sum_cons, locate, if_neg hge, hsub, ih (by simpa using hk)]

theorem take_locate (ls : List ℕ) {n : ℕ} (hn : n < ls.sum) :
    ((ls.take (locate ls n).1).sum + (locate ls n).2 = n) ∧
      (locate ls n).2 < ls.getD (locate ls n).1 0 := by
  induction ls generalizing n with
  | nil => simp at hn
  | cons l ls ih =>
    rw [locate]
    split_ifs with h
    · simpa using h
    · obtain ⟨hsum, hlt⟩ := ih (n := n - l) (by rw [List.sum_cons] at hn; omega)
      simp only [List.take_succ_cons, List.sum_cons, List.getD_cons_succ]
      exact ⟨by omega, hlt⟩

def IsLeap (y : ℤ) : Prop := y % 4 = 0 ∧ (y % 100 ≠ 0 ∨ y % 400 = 0)

instance (y : ℤ) : Decidable (IsLeap y) := inferInstanceAs (Decidable (_ ∧ _))

/-- Leap years after the year 0 and up to `y`. -/
def leapYears (y : ℤ) : ℤ := y / 4 - y / 100 + y / 400

/-- The first of January of a year. -/
def yearStart (y : ℤ) : ℤ := 365 * (y - 1970) + (leapYears (y - 1) - leapYears 1969)

/-- The year a day belongs to: the mean length of a year leads to it or to one beside it. -/
def yearOf (n : ℤ) : ℤ :=
  let y := 1970 + 400 * n / 146097
  if n < yearStart y then y - 1 else if n < yearStart (y + 1) then y else y + 1

def monthLengths (y : ℤ) : List ℕ :=
  [31, if IsLeap y then 29 else 28, 31, 30, 31, 30, 31, 31, 30, 31, 30, 31]

/-- The first of a month, months counted from 0. -/
def monthStart (y : ℤ) (m : ℕ) : ℤ := yearStart y + (((monthLengths y).take m).sum : ℕ)

/-- A date with its month counted from 0 and its day from 1. -/
structure Date where
  year : ℤ
  month : ℕ
  day : ℕ
  deriving DecidableEq, Repr

def Date.Valid (d : Date) : Prop := 1 ≤ d.day ∧ d.day ≤ (monthLengths d.year).getD d.month 0

instance (d : Date) : Decidable d.Valid := inferInstanceAs (Decidable (_ ∧ _))

def daysOf (d : Date) : ℤ := monthStart d.year d.month + (d.day - 1)

def dateOf (n : ℤ) : Date :=
  let y := yearOf n
  let (m, k) := locate (monthLengths y) (n - yearStart y).toNat
  ⟨y, m, k + 1⟩

theorem leapYears_succ (y : ℤ) :
    leapYears y = leapYears (y - 1) + if IsLeap y then 1 else 0 := by
  unfold leapYears IsLeap
  split_ifs <;> omega

theorem yearStart_succ (y : ℤ) :
    yearStart (y + 1) = yearStart y + ((monthLengths y).sum : ℕ) := by
  have h := leapYears_succ y
  have hsum : (monthLengths y).sum = 365 + if IsLeap y then 1 else 0 := by
    by_cases hy : IsLeap y <;> simp [monthLengths, hy]
  rw [yearStart, yearStart, hsum, Int.add_sub_cancel]
  split_ifs at h ⊢ <;> omega

/-- Years are at least 365 days apart. -/
theorem yearStart_add_le {y z : ℤ} (h : y ≤ z) : yearStart y + 365 * (z - y) ≤ yearStart z := by
  unfold yearStart leapYears
  omega

theorem yearStart_yearOf (n : ℤ) : yearStart (yearOf n) ≤ n ∧ n < yearStart (yearOf n + 1) := by
  unfold yearOf
  dsimp only
  split_ifs with h h'
  · rw [Int.sub_add_cancel]
    unfold yearStart leapYears at *
    omega
  · exact ⟨not_lt.1 h, h'⟩
  · unfold yearStart leapYears at *
    omega

theorem yearOf_lt_iff {n y : ℤ} : yearOf n < y ↔ n < yearStart y := by
  obtain ⟨hle, hlt⟩ := yearStart_yearOf n
  constructor
  · intro h
    have := yearStart_add_le (show yearOf n + 1 ≤ y from h)
    omega
  · intro h
    by_contra hy
    have := yearStart_add_le (not_lt.1 hy)
    omega

theorem yearOf_eq {n y : ℤ} (hle : yearStart y ≤ n) (hlt : n < yearStart (y + 1)) :
    yearOf n = y := by
  have h := yearOf_lt_iff.2 hlt
  have h' := yearOf_lt_iff.not.2 (not_lt.2 hle)
  omega

/-- A day of a month comes before the first of the next year. -/
theorem take_sum_add_lt (ls : List ℕ) {i k : ℕ} (hk : k < ls.getD i 0) :
    (ls.take i).sum + k < ls.sum := by
  induction ls generalizing i with
  | nil => simp at hk
  | cons l ls ih =>
    cases i with
    | zero =>
      have : k < l := by simpa using hk
      simp
      omega
    | succ i =>
      have := ih (i := i) (by simpa using hk)
      rw [List.take_succ_cons, List.sum_cons, List.sum_cons]
      omega

theorem month_lt {d : Date} (h : d.Valid) : d.month < 12 := by
  by_contra hm
  have hlen : (monthLengths d.year).length ≤ d.month := not_lt.1 hm
  have := h.2
  rw [List.getD_eq_default _ _ hlen] at this
  have := h.1
  omega

theorem day_le {d : Date} (h : d.Valid) : d.day ≤ 31 := by
  have hall : ∀ l ∈ monthLengths d.year, l ≤ 31 := by
    by_cases hy : IsLeap d.year <;> simp [monthLengths, hy]
  have hlen : d.month < (monthLengths d.year).length := month_lt h
  refine h.2.trans ?_
  rw [List.getD_eq_getElem _ _ hlen]
  exact hall _ (List.getElem_mem hlen)

/-- A date as the position of its day in its year. -/
theorem daysOf_eq {d : Date} (h : 1 ≤ d.day) : daysOf d =
    yearStart d.year + (((monthLengths d.year).take d.month).sum + (d.day - 1) : ℕ) := by
  rw [daysOf, monthStart]
  omega

theorem daysOf_bounds {d : Date} (h : d.Valid) :
    yearStart d.year ≤ daysOf d ∧ daysOf d < yearStart (d.year + 1) := by
  have hlt := take_sum_add_lt (monthLengths d.year) (i := d.month) (k := d.day - 1)
    (by have := h.1; have := h.2; omega)
  rw [daysOf_eq h.1, yearStart_succ]
  omega

/-- Dates in order are days in order. -/
theorem daysOf_lt {d e : Date} (hd : d.Valid) (he : e.Valid)
    (h : d.year < e.year ∨ d.year = e.year ∧ (d.month < e.month ∨ d.month = e.month ∧
      d.day < e.day)) : daysOf d < daysOf e := by
  rcases h with hyear | ⟨hyear, hmonth | ⟨hmonth, hday⟩⟩
  · have hlt := (daysOf_bounds hd).2
    have hle := (daysOf_bounds he).1
    have := yearStart_add_le (show d.year + 1 ≤ e.year by omega)
    omega
  · -- the first of the later month is behind every day of the earlier one
    have hk : d.day - 1 < ((monthLengths d.year).take e.month).getD d.month 0 := by
      have hfst := hd.1
      have hle := hd.2
      rw [List.getD_eq_getElem?_getD] at hle ⊢
      rw [List.getElem?_take_of_lt hmonth]
      omega
    have hsum := take_sum_add_lt _ hk
    rw [List.take_take, Nat.min_eq_left (le_of_lt hmonth)] at hsum
    rw [daysOf_eq hd.1, daysOf_eq he.1, ← hyear]
    omega
  · rw [daysOf, daysOf, hyear, hmonth]
    omega

theorem dateOf_daysOf {d : Date} (h : d.Valid) : dateOf (daysOf d) = d := by
  have hyear : yearOf (daysOf d) = d.year := yearOf_eq (daysOf_bounds h).1 (daysOf_bounds h).2
  have hk : d.day - 1 < (monthLengths d.year).getD d.month 0 := by
    have := h.1
    have := h.2
    omega
  have hrest : (daysOf d - yearStart d.year).toNat =
      ((monthLengths d.year).take d.month).sum + (d.day - 1) := by
    rw [daysOf_eq h.1]
    omega
  simp only [dateOf, hyear, hrest, locate_take _ hk]
  rw [Nat.sub_add_cancel h.1]

/-- What `dateOf` finds in the year of a day. -/
theorem locate_dateOf (n : ℤ) : (dateOf n).Valid ∧ daysOf (dateOf n) = n := by
  obtain ⟨hle, hlt⟩ := yearStart_yearOf n
  rw [yearStart_succ] at hlt
  obtain ⟨hsum, hk⟩ := take_locate (monthLengths (yearOf n)) (n := (n - yearStart (yearOf n)).toNat)
    (by omega)
  refine ⟨⟨Nat.le_add_left _ _, hk⟩, ?_⟩
  simp only [daysOf, monthStart, dateOf]
  omega

theorem valid_dateOf (n : ℤ) : (dateOf n).Valid := (locate_dateOf n).1

theorem daysOf_dateOf (n : ℤ) : daysOf (dateOf n) = n := (locate_dateOf n).2

example : dateOf 0 = ⟨1970, 0, 1⟩ := by decide

example : daysOf ⟨2000, 1, 29⟩ = 11016 := by decide

end Calendar
