import Mathlib.Algebra.BigOperators.Group.Finset.Basic
import Mathlib.Algebra.Order.BigOperators.Group.Finset

/-! Stream sockets as their callers see them: what successive `send` calls accept of a
message. -/

namespace Socket

/-- What a `send` call meets: an error, or room for so many bytes at most. -/
inductive SendAnswer
  | error
  | room (n : ℕ)
  deriving DecidableEq, Repr

/-- The return value of `send` with `len` bytes. -/
def SendAnswer.rc (len : ℕ) : SendAnswer → Int
  | .error => -1
  | .room n => (min n len : ℕ)

def SendAnswer.bytes : SendAnswer → ℕ
  | .error => 0
  | .room n => n

/-- The first `calls` calls all accept something, and together `len` bytes. -/
def AcceptedIn (answer : ℕ → SendAnswer) (len calls : ℕ) : Prop :=
  (∀ k < calls, 0 < (answer k).bytes) ∧ len ≤ ∑ k ∈ Finset.range calls, (answer k).bytes

theorem rc_pos_iff {len : ℕ} (hlen : 0 < len) (a : SendAnswer) : 0 < a.rc len ↔ 0 < a.bytes := by
  cases a <;> simp [SendAnswer.rc, SendAnswer.bytes, hlen]

theorem rc_eq_min {len : ℕ} {a : SendAnswer} (h : 0 < a.rc len) : a.rc len = min a.bytes len := by
  cases a with
  | error => cases h
  | room n => simp [SendAnswer.rc, SendAnswer.bytes]

theorem acceptedIn_zero (answer : ℕ → SendAnswer) (len : ℕ) :
    AcceptedIn answer len 0 ↔ len = 0 := by
  simp [AcceptedIn]

/-- The first call of several. -/
theorem acceptedIn_succ (answer : ℕ → SendAnswer) (len calls : ℕ) :
    AcceptedIn answer len (calls + 1) ↔ 0 < (answer 0).bytes ∧
      AcceptedIn (fun k => answer (k + 1)) (len - (answer 0).bytes) calls := by
  unfold AcceptedIn
  rw [Finset.sum_range_succ', Nat.forall_lt_succ_left, and_assoc, tsub_le_iff_right]

end Socket
