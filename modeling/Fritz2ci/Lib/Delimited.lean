import Mathlib.Data.List.Basic

/-! Streams of frames that end in a delimiter and contain it nowhere else: the frames can
be told from the stream. -/

namespace Delimited

variable {α : Type*}

/-- A frame: `d` stands at its end only. -/
def IsFrame (d : α) (x : List α) : Prop := ∃ w, x = w ++ [d] ∧ d ∉ w

theorem count_frame [DecidableEq α] {d : α} {x : List α} (h : IsFrame d x) : x.count d = 1 := by
  obtain ⟨w, rfl, hw⟩ := h
  simp [List.count_eq_zero.2 hw]

theorem count_flatten [DecidableEq α] {d : α} {xs : List (List α)} (h : ∀ x ∈ xs, IsFrame d x) :
    xs.flatten.count d = xs.length := by
  induction xs with
  | nil => rfl
  | cons x xs ih =>
    rw [List.flatten_cons, List.count_append, count_frame (h x (by simp)),
      ih fun y hy => h y (by simp [hy]), List.length_cons, Nat.add_comm]

theorem append_inj {d : α} {w w' r r' : List α} (hw : d ∉ w) (hw' : d ∉ w')
    (h : w ++ d :: r = w' ++ d :: r') : w = w' ∧ r = r' := by
  induction w generalizing w' with
  | nil =>
    cases w' with
    | nil => exact ⟨rfl, (List.cons.inj h).2⟩
    | cons b w' => exact absurd (by rw [(List.cons.inj h).1]; exact List.mem_cons_self) hw'
  | cons a w ih =>
    cases w' with
    | nil => exact absurd (by rw [← (List.cons.inj h).1]; exact List.mem_cons_self) hw
    | cons b w' =>
      obtain ⟨rfl, ht⟩ := List.cons.inj h
      obtain ⟨rfl, hr⟩ := ih (fun hm => hw (by simp [hm])) (fun hm => hw' (by simp [hm])) ht
      exact ⟨rfl, hr⟩

/-- A stream is cut into frames in one way only. -/
theorem flatten_inj {d : α} {xs ys : List (List α)} (hx : ∀ x ∈ xs, IsFrame d x)
    (hy : ∀ y ∈ ys, IsFrame d y) (h : xs.flatten = ys.flatten) : xs = ys := by
  induction xs generalizing ys with
  | nil =>
    cases ys with
    | nil => rfl
    | cons y ys =>
      obtain ⟨w, rfl, -⟩ := hy y (by simp)
      simp at h
  | cons x xs ih =>
    obtain ⟨w, rfl, hw⟩ := hx x (by simp)
    cases ys with
    | nil => simp at h
    | cons y ys =>
      obtain ⟨w', rfl, hw'⟩ := hy y (by simp)
      simp only [List.flatten_cons, List.append_assoc, List.singleton_append] at h
      obtain ⟨rfl, hr⟩ := append_inj hw hw' h
      rw [ih (fun z hz => hx z (by simp [hz])) (fun z hz => hy z (by simp [hz])) hr]

theorem length_le_count [DecidableEq α] {d : α} {xs : List (List α)} (h : ∀ x ∈ xs, d ∈ x) :
    xs.length ≤ xs.flatten.count d := by
  induction xs with
  | nil => simp
  | cons x xs ih =>
    have hx := List.count_pos_iff.2 (h x (by simp))
    have hxs := ih fun y hy => h y (by simp [hy])
    rw [List.length_cons, List.flatten_cons, List.count_append]
    omega

/-- Pieces with a delimiter each, and no more delimiters than pieces: one in each. -/
theorem count_eq_one [DecidableEq α] {d : α} {xs : List (List α)} (h : ∀ x ∈ xs, d ∈ x)
    (hle : xs.flatten.count d ≤ xs.length) : ∀ x ∈ xs, x.count d = 1 := by
  induction xs with
  | nil => simp
  | cons x xs ih =>
    have hx := List.count_pos_iff.2 (h x (by simp))
    have hrest : ∀ y ∈ xs, d ∈ y := fun y hy => h y (by simp [hy])
    have hxs := length_le_count hrest
    rw [List.length_cons, List.flatten_cons, List.count_append] at hle
    intro y hy
    rcases List.mem_cons.1 hy with rfl | hy
    · omega
    · exact ih hrest (by omega) y hy

section Pairs

variable {a b : α}

/-- Text in front of a delimiter of two letters can be told from what stands behind it, where
the delimiter is not part of the text. -/
theorem append_pair_inj (hab : a ≠ b) {w w' r r' : List α} (hw : ¬ [a, b] <:+: w)
    (hw' : ¬ [a, b] <:+: w') (h : w ++ [a, b] ++ r = w' ++ [a, b] ++ r') : w = w' ∧ r = r' := by
  have clash : ∀ {v x y : List α} {c : α}, ¬ [a, b] <:+: c :: v →
      a :: b :: x ≠ c :: v ++ a :: b :: y := by
    intro v x y c hv heq
    obtain ⟨rfl, hrest⟩ := List.cons.inj heq
    cases v with
    | nil => exact hab (List.cons.inj hrest).1.symm
    | cons d v =>
      obtain ⟨rfl, -⟩ := List.cons.inj hrest
      exact hv ⟨[], v, rfl⟩
  simp only [List.append_assoc, List.cons_append, List.nil_append] at h
  induction w generalizing w' with
  | nil =>
    cases w' with
    | nil => exact ⟨rfl, (List.cons.inj (List.cons.inj h).2).2⟩
    | cons c w' => exact absurd h (clash hw')
  | cons c w ih =>
    cases w' with
    | nil => exact absurd h.symm (clash hw)
    | cons d w' =>
      obtain ⟨rfl, ht⟩ := List.cons.inj h
      have hsub : ∀ {v : List α}, ¬ [a, b] <:+: c :: v → ¬ [a, b] <:+: v :=
        fun hv hin => hv (hin.trans (List.suffix_cons c _).isInfix)
      obtain ⟨rfl, hr⟩ := ih (hsub hw) (hsub hw') ht
      exact ⟨rfl, hr⟩

/-- As many fields, joined by a delimiter that none of them contains. -/
theorem intercalate_pair_inj (hab : a ≠ b) {xs ys : List (List α)}
    (hx : ∀ x ∈ xs, ¬ [a, b] <:+: x) (hy : ∀ y ∈ ys, ¬ [a, b] <:+: y)
    (hlen : xs.length = ys.length)
    (h : [a, b].intercalate xs = [a, b].intercalate ys) : xs = ys := by
  induction xs generalizing ys with
  | nil => exact (List.length_eq_zero_iff.1 hlen.symm).symm
  | cons x xs ih =>
    cases ys with
    | nil => cases hlen
    | cons y ys =>
      cases xs with
      | nil =>
        obtain rfl : ys = [] := List.length_eq_zero_iff.1 (Nat.succ.inj hlen.symm)
        simpa using h
      | cons x' xs =>
        cases ys with
        | nil => cases hlen
        | cons y' ys =>
          simp only [List.intercalate_cons_cons] at h
          obtain ⟨rfl, hr⟩ := append_pair_inj hab (hx x (by simp)) (hy y (by simp)) h
          rw [ih (fun z hz => hx z (by simp [hz])) (fun z hz => hy z (by simp [hz]))
            (Nat.succ.inj hlen) hr]

end Pairs

end Delimited
