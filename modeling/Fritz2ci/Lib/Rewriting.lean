import Fritz2ci.Lib.Reading
import Mathlib.Logic.Function.Basic
import Mathlib.Tactic.SplitIfs

/-! Text rewritten in place: what replacing a word means, rewriters of a block of memory
that may end in an error, and blocks whose front holds what was put out while the cells
behind are still to be read. -/

namespace Rewriting

open Reading

section Words

variable {α : Type} [DecidableEq α]

/-- The words `pat` replaced by `sub` from left to right, `skip` cells further on. -/
def replaceFrom (pat sub : List α) : ℕ → List α → List α
  | _, [] => []
  | skip + 1, _ :: rest => replaceFrom pat sub skip rest
  | 0, b :: rest =>
    if pat <+: b :: rest then sub ++ replaceFrom pat sub (pat.length - 1) rest
    else b :: replaceFrom pat sub 0 rest

/-- Every occurrence of `pat` that does not overlap one replaced before becomes `sub`. -/
def replaceAll (pat sub s : List α) : List α := replaceFrom pat sub 0 s

variable {pat sub : List α}

@[simp] theorem replaceAll_nil : replaceAll pat sub [] = [] := rfl

theorem replaceFrom_eq (skip : ℕ) (s : List α) :
    replaceFrom pat sub skip s = replaceAll pat sub (s.drop skip) := by
  induction s generalizing skip with
  | nil => cases skip <;> rfl
  | cons b rest ih =>
    cases skip with
    | zero => rfl
    | succ skip => exact ih skip

theorem replaceAll_cons_pattern {b : α} {rest : List α} (h : pat <+: b :: rest) :
    replaceAll pat sub (b :: rest) = sub ++ replaceAll pat sub (rest.drop (pat.length - 1)) := by
  rw [← replaceFrom_eq]
  exact if_pos h

theorem replaceAll_cons_other {b : α} {rest : List α} (h : ¬ pat <+: b :: rest) :
    replaceAll pat sub (b :: rest) = b :: replaceAll pat sub rest := if_neg h

theorem mem_replaceFrom {a : α} {skip : ℕ} {s : List α} (h : a ∈ replaceFrom pat sub skip s) :
    a ∈ sub ∨ a ∈ s := by
  induction s generalizing skip with
  | nil => cases skip <;> cases h
  | cons b rest ih =>
    cases skip with
    | succ skip => exact (ih h).imp_right (List.mem_cons_of_mem b)
    | zero =>
      rw [replaceFrom] at h
      split_ifs at h
      · rcases List.mem_append.1 h with h | h
        · exact Or.inl h
        · exact (ih h).imp_right (List.mem_cons_of_mem b)
      · rcases List.mem_cons.1 h with rfl | h
        · exact Or.inr List.mem_cons_self
        · exact (ih h).imp_right (List.mem_cons_of_mem b)

end Words

section Rewriters

variable {α β γ ε : Type}

/-- A block of memory and the offsets looked at or stored to so far. -/
structure Block (α : Type) where
  cells : ℕ → α
  touched : List ℕ

abbrev Rewriter (ε α β : Type) := StateT (Block α) (Except ε) β

def load (off : ℕ) : Rewriter ε α α := fun m =>
  .ok (m.cells off, ⟨m.cells, m.touched ++ [off]⟩)

def store (off : ℕ) (a : α) : Rewriter ε α Unit := fun m =>
  .ok ((), ⟨Function.update m.cells off a, m.touched ++ [off]⟩)

/-- The rewriter ends on `m` with a value and a block for which `Q` holds, or in an error for
which `E` does. -/
def Meets (E : ε → Prop) (p : Rewriter ε α β) (m : Block α) (Q : β → Block α → Prop) : Prop :=
  match p m with
  | .ok r => Q r.1 r.2
  | .error e => E e

variable {E : ε → Prop} {m : Block α}

theorem meets_pure {b : β} {Q : β → Block α → Prop} (h : Q b m) : Meets E (pure b) m Q := h

theorem meets_throw {e : ε} {Q : β → Block α → Prop} (h : E e) : Meets E (throw e) m Q := h

theorem meets_load {off : ℕ} {Q : α → Block α → Prop}
    (h : Q (m.cells off) ⟨m.cells, m.touched ++ [off]⟩) : Meets E (load off) m Q := h

theorem meets_store {off : ℕ} {a : α} {Q : Unit → Block α → Prop}
    (h : Q () ⟨Function.update m.cells off a, m.touched ++ [off]⟩) :
    Meets E (store off a) m Q := h

theorem meets_bind {p : Rewriter ε α β} {f : β → Rewriter ε α γ} {Q : γ → Block α → Prop}
    (h : Meets E p m fun b m' => Meets E (f b) m' Q) : Meets E (p >>= f) m Q := by
  have e : (p >>= f) m = (p m).bind fun r => f r.1 r.2 := rfl
  unfold Meets at h ⊢
  rw [e]
  cases hp : p m with
  | error err => rwa [hp] at h
  | ok r =>
    rw [hp] at h
    exact h

theorem meets_mono {F : ε → Prop} {p : Rewriter ε α β} {Q R : β → Block α → Prop}
    (h : Meets E p m Q) (hE : ∀ e, E e → F e) (hQ : ∀ b m', Q b m' → R b m') :
    Meets F p m R := by
  unfold Meets at h ⊢
  cases hp : p m with
  | error err =>
    rw [hp] at h
    exact hE err h
  | ok r =>
    rw [hp] at h
    exact hQ r.1 r.2 h

end Rewriters

section Compaction

variable {α : Type}

/-- The block begins with `out`, and from offset `j` on it is still as in `orig`. -/
structure Compacted (orig cells : ℕ → α) (j : ℕ) (out : List α) : Prop where
  behind : out.length ≤ j
  front : StartsWith cells out
  unread : ∀ k, j ≤ k → cells k = orig k

theorem compacted_start (orig : ℕ → α) : Compacted orig orig 0 [] :=
  ⟨Nat.le_refl 0, startsWith_nil orig, fun _ _ => rfl⟩

theorem startsWith_snoc {cells : ℕ → α} {out : List α} {a : α} (h : StartsWith cells out)
    (ha : cells out.length = a) : StartsWith cells (out ++ [a]) := by
  rw [startsWith_append]
  refine ⟨h, fun i hi => ?_⟩
  obtain rfl : i = 0 := by simpa using hi
  exact ha

theorem startsWith_update {cells : ℕ → α} {out : List α} (h : StartsWith cells out) (a : α) :
    StartsWith (Function.update cells out.length a) (out ++ [a]) := by
  refine startsWith_snoc (fun i hi => ?_) (Function.update_self ..)
  rw [Function.update_of_ne (Nat.ne_of_lt hi)]
  exact h i hi

/-- A cell stored behind what was put out, once the reader is past it. -/
theorem Compacted.put {orig cells : ℕ → α} {j k : ℕ} {out : List α}
    (h : Compacted orig cells j out) (hk : j < k) (a : α) :
    Compacted orig (Function.update cells out.length a) k (out ++ [a]) := by
  have hle := h.behind
  refine ⟨?_, startsWith_update h.front a, fun o ho => ?_⟩
  · rw [List.length_append, List.length_singleton]
    omega
  · rw [Function.update_of_ne (by omega)]
    exact h.unread o (by omega)

/-- Where nothing has been dropped so far, the next cell is put out as it stands. -/
theorem Compacted.keep {orig cells : ℕ → α} {j : ℕ} {out : List α}
    (h : Compacted orig cells j out) (hj : out.length = j) :
    Compacted orig cells (j + 1) (out ++ [orig j]) := by
  refine ⟨?_, startsWith_snoc h.front ?_, fun k hk => h.unread k (by omega)⟩
  · rw [List.length_append, List.length_singleton]
    omega
  · rw [hj]
    exact h.unread j (Nat.le_refl j)

end Compaction

end Rewriting
