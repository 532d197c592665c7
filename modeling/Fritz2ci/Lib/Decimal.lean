import Fritz2ci.Lib.CString
import Mathlib.Data.Nat.Digits.Lemmas

/-! Numbers printed in base 10: what `%d` and `%lu` write, and the order of numbers written
with the same number of digits. -/

namespace Decimal

open CString

/-- `%lu` -/
def printNat (n : ℕ) : CStr :=
  if n = 0 then [48] else ((Nat.digits 10 n).map fun d => (48 + d).toUInt8).reverse

theorem toNat_digit {d : ℕ} (h : d < 10) : (48 + d).toUInt8.toNat = 48 + d := by
  rw [Nat.toUInt8, UInt8.toNat_ofNat']
  omega

theorem decimal_snoc (s : CStr) (b : UInt8) :
    decimal (s ++ [b]) = 10 * decimal s + (b.toNat - 48) := by
  simp [decimal]

theorem decimal_digits {ds : List ℕ} (h : ∀ d ∈ ds, d < 10) :
    decimal (ds.map fun d => (48 + d).toUInt8).reverse = Nat.ofDigits 10 ds := by
  induction ds with
  | nil => rfl
  | cons d ds ih =>
    have hd := toNat_digit (h d (by simp))
    rw [List.map_cons, List.reverse_cons, decimal_snoc, ih fun e he => h e (by simp [he]),
      Nat.ofDigits_cons, hd]
    omega

theorem decimal_printNat (n : ℕ) : decimal (printNat n) = n := by
  unfold printNat
  split_ifs with h
  · rw [h]; rfl
  · rw [decimal_digits fun d hd => Nat.digits_lt_base (by decide) hd, Nat.ofDigits_digits]

theorem isDigit_printNat (n : ℕ) : ∀ b ∈ printNat n, isDigit b := by
  unfold printNat
  split_ifs with h
  · intro b hb
    rw [List.mem_singleton.1 hb]
    rfl
  · intro b hb
    obtain ⟨d, hd, rfl⟩ := List.mem_map.1 (List.mem_reverse.1 hb)
    have hlt : d < 10 := Nat.digits_lt_base (by decide) hd
    simp only [isDigit, Bool.and_eq_true, decide_eq_true_eq, UInt8.le_iff_toNat_le,
      toNat_digit hlt]
    exact ⟨Nat.le_add_right 48 d, Nat.le_of_lt_succ (Nat.add_lt_add_left hlt 48)⟩

theorem printNat_ne_nil (n : ℕ) : printNat n ≠ [] := by
  unfold printNat
  split_ifs with h
  · exact List.cons_ne_nil _ _
  · rw [ne_eq, List.reverse_eq_nil_iff, List.map_eq_nil_iff]
    exact Nat.digits_ne_nil_iff_ne_zero.2 h

theorem printNat_length_le {n k : ℕ} (hk : 0 < k) (h : n < 10 ^ k) : (printNat n).length ≤ k := by
  unfold printNat
  split_ifs
  · exact hk
  · rw [List.length_reverse, List.length_map]
    exact (Nat.digits_length_le_iff (by decide) n).2 h

/-- What was printed is read back. -/
theorem strtoul_printNat {n : ℕ} (h : n < 2 ^ 64) : strtoul (printNat n) = n := by
  have hn := decimal_printNat n
  rw [strtoul_digits (isDigit_printNat n) (by rw [hn]; exact h), hn]

theorem strtol_printNat {n : ℕ} (h : n < 2 ^ 63) : strtol (printNat n) = n := by
  have hn := decimal_printNat n
  rw [strtol_digits (isDigit_printNat n) (by rw [hn]; exact h), hn]

theorem printNat_inj {m n : ℕ} (h : printNat m = printNat n) : m = n := by
  rw [← decimal_printNat m, h, decimal_printNat]

theorem decimal_cons (b : UInt8) (s : CStr) :
    decimal (b :: s) = (b.toNat - 48) * 10 ^ s.length + decimal s := by
  induction s using List.reverseRecOn with
  | nil => simp [decimal]
  | append_singleton s c ih =>
    rw [← List.cons_append, decimal_snoc, ih, decimal_snoc, List.length_append,
      List.length_singleton, pow_succ]
    ring

theorem decimal_lt {s : CStr} (hs : ∀ b ∈ s, isDigit b) : decimal s < 10 ^ s.length := by
  induction s with
  | nil => exact Nat.one_pos
  | cons b s ih =>
    have hb := digit_bounds (hs b (by simp))
    have hrest := ih fun c hc => hs c (by simp [hc])
    have hle : (b.toNat - 48) * 10 ^ s.length ≤ 9 * 10 ^ s.length :=
      Nat.mul_le_mul_right _ (by omega)
    rw [decimal_cons, List.length_cons, pow_succ]
    omega

/-- Texts of digits of one length compare like the numbers they stand for. -/
theorem lt_iff_decimal_lt {s t : CStr} (hs : ∀ b ∈ s, isDigit b) (ht : ∀ b ∈ t, isDigit b)
    (hlen : s.length = t.length) : s < t ↔ decimal s < decimal t := by
  induction s generalizing t with
  | nil =>
    cases t with
    | nil => simp
    | cons c t => cases hlen
  | cons b s ih =>
    cases t with
    | nil => cases hlen
    | cons c t =>
      have hlen' : s.length = t.length := Nat.succ.inj hlen
      have hs' : ∀ x ∈ s, isDigit x := fun x hx => hs x (by simp [hx])
      have ht' : ∀ x ∈ t, isDigit x := fun x hx => ht x (by simp [hx])
      have hb := digit_bounds (hs b (by simp))
      have hc := digit_bounds (ht c (by simp))
      have hslt := decimal_lt hs'
      have htlt := decimal_lt ht'
      rw [List.cons_lt_cons_iff, ih hs' ht' hlen', decimal_cons, decimal_cons, ← hlen']
      rw [← hlen'] at htlt
      rcases lt_trichotomy b.toNat c.toNat with hlt | heq | hgt
      · have hmul : (b.toNat - 48 + 1) * 10 ^ s.length ≤ (c.toNat - 48) * 10 ^ s.length :=
          Nat.mul_le_mul_right _ (by omega)
        rw [Nat.add_mul, Nat.one_mul] at hmul
        exact iff_of_true (Or.inl (UInt8.lt_iff_toNat_lt.2 hlt)) (by omega)
      · have hbc : b = c := UInt8.toNat_inj.1 heq
        subst hbc
        simp
      · have hmul : (c.toNat - 48 + 1) * 10 ^ s.length ≤ (b.toNat - 48) * 10 ^ s.length :=
          Nat.mul_le_mul_right _ (by omega)
        rw [Nat.add_mul, Nat.one_mul] at hmul
        refine iff_of_false ?_ (by omega)
        rintro (h | ⟨h, -⟩)
        · have := UInt8.lt_iff_toNat_lt.1 h
          omega
        · rw [h] at hgt
          exact lt_irrefl _ hgt

end Decimal
