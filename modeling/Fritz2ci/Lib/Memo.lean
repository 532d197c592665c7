import Mathlib.Data.List.Pairwise
import Mathlib.Logic.Function.Basic

/-! Memoised queries: a memo is a partial map, and a call that finds its key there answers
with the value and asks nobody. Whatever the others are answered, calls agree. -/

namespace Memo

variable {κ ν : Type*}

/-- One call as seen from outside: its answer and whether somebody was asked for it. -/
structure Call (κ ν : Type*) where
  key : κ
  answer : Option ν
  asked : Bool

/-- Once a key has been answered, its later calls answer the same and ask nobody. -/
def Agree (earlier later : Call κ ν) : Prop :=
  later.key = earlier.key → ∀ v, earlier.answer = some v →
    later.answer = some v ∧ later.asked = false

/-- The calls made so far agree, and the memo holds every answer they gave. -/
structure Recorded (m : κ → Option ν) (calls : List (Call κ ν)) : Prop where
  agree : calls.Pairwise Agree
  held : ∀ c ∈ calls, ∀ v, c.answer = some v → m c.key = some v

theorem recorded_nil (m : κ → Option ν) : Recorded m [] := ⟨List.Pairwise.nil, by simp⟩

variable [DecidableEq κ]

/-- The memo behind a call. -/
def fill (m : κ → Option ν) (c : Call κ ν) : κ → Option ν :=
  match c.answer with
  | some v => Function.update m c.key (some v)
  | none => m

/-- A call as a memo `m` has it made, and the memo it leaves. -/
structure Step (m : κ → Option ν) (c : Call κ ν) (m' : κ → Option ν) : Prop where
  hit : ∀ v, m c.key = some v → c.answer = some v ∧ c.asked = false
  next : m' = fill m c

/-- A memo keeps what it holds. -/
theorem Step.keeps {m m' : κ → Option ν} {c : Call κ ν} (h : Step m c m') {k : κ} {v : ν}
    (hk : m k = some v) : m' k = some v := by
  rw [h.next]
  by_cases hkey : k = c.key
  · subst hkey
    obtain ⟨hanswer, -⟩ := h.hit v hk
    simp [fill, hanswer]
  · unfold fill
    cases c.answer with
    | none => exact hk
    | some w => simpa [Function.update_of_ne hkey] using hk

theorem recorded_snoc {m m' : κ → Option ν} {calls : List (Call κ ν)} {c : Call κ ν}
    (hr : Recorded m calls) (h : Step m c m') : Recorded m' (calls ++ [c]) where
  agree := by
    rw [List.pairwise_append]
    refine ⟨hr.agree, List.pairwise_singleton _ _, fun d hd e he hkey v hv => ?_⟩
    obtain rfl := List.mem_singleton.1 he
    exact h.hit v (hkey ▸ hr.held d hd v hv)
  held d hd v hv := by
    rcases List.mem_append.1 hd with hd | hd
    · exact h.keeps (hr.held d hd v hv)
    · obtain rfl := List.mem_singleton.1 hd
      rw [h.next]
      simp [fill, hv]

end Memo
