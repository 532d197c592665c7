import Fritz2ci.Lib.Ledger
import Mathlib.Algebra.Order.Group.Multiset

/-! Programs that take blocks of memory, use them and give them back. `Leaves` says which of the
blocks that a program starts with and takes are still to be given back behind it; every block
given back was owned until then and is not used any more. What else is owned is not touched: the
frame is part of `Leaves`, and the rules below run a program call by call. -/

namespace Heap

open Ledger

structure Memory where
  next : ℕ
  log : List (Call ℕ)

def Memory.empty : Memory := ⟨0, []⟩

/-- The blocks still to be given back. -/
structure Owns (m : Memory) (blocks : Multiset ℕ) : Prop where
  holds : ∃ live : List ℕ, (live : Multiset ℕ) = blocks ∧ Holds m.log live
  fresh : ∀ x, .opened x ∈ m.log → x < m.next

theorem owns_empty : Owns Memory.empty 0 :=
  ⟨⟨[], rfl, holds_nil⟩, fun _ hx => nomatch hx⟩

abbrev HeapM (α : Type) := StateM Memory α

def malloc : HeapM ℕ := fun m => (m.next, ⟨m.next + 1, m.log ++ [.opened m.next]⟩)

def touch (x : ℕ) : HeapM Unit := fun m => ((), { m with log := m.log ++ [.used x] })

/-- An allocation that may be refused. -/
def tryMalloc (granted : Bool) : HeapM (Option ℕ) :=
  if granted then do
    let x ← malloc
    pure (some x)
  else pure none

/-- NULL is let alone. -/
def free : Option ℕ → HeapM Unit
  | some x => fun m => ((), { m with log := m.log ++ [.released x] })
  | none => pure ()

variable {α β γ : Type}

theorem owns_malloc {m : Memory} {blocks : Multiset ℕ} (h : Owns m blocks) :
    Owns (malloc m).2 (m.next ::ₘ blocks) := by
  obtain ⟨⟨live, rfl, hlive⟩, hfresh⟩ := h
  have hnext : .opened m.next ∉ m.log := fun hx => lt_irrefl _ (hfresh _ hx)
  refine ⟨⟨m.next :: live, rfl, holds_opened hlive hnext⟩, fun x hx => ?_⟩
  rcases List.mem_append.1 hx with hx | hx
  · exact (hfresh x hx).trans (Nat.lt_succ_self _)
  · obtain rfl : x = m.next := by simpa using hx
    exact Nat.lt_succ_self _

theorem owns_touch {m : Memory} {blocks : Multiset ℕ} (h : Owns m blocks) {x : ℕ}
    (hx : x ∈ blocks) : Owns (touch x m).2 blocks := by
  obtain ⟨⟨live, rfl, hlive⟩, hfresh⟩ := h
  refine ⟨⟨live, rfl, holds_used hlive (Multiset.mem_coe.1 hx)⟩, fun y hy => hfresh y ?_⟩
  simpa [touch] using hy

theorem owns_free {m : Memory} {blocks : Multiset ℕ} {x : ℕ} (h : Owns m (x ::ₘ blocks)) :
    Owns (free (some x) m).2 blocks := by
  obtain ⟨⟨live, hblocks, hlive⟩, hfresh⟩ := h
  obtain ⟨rest, rfl⟩ := Quotient.exists_rep blocks
  have hperm : live.Perm (x :: rest) := Multiset.coe_eq_coe.1 hblocks
  refine ⟨⟨rest, rfl, holds_released (holds_perm hlive hperm)⟩, fun y hy => hfresh y ?_⟩
  simpa [free] using hy

/-- Whatever else is owned, `p` starts with `take` and leaves what `give` says of its result. -/
def Leaves (take : Multiset ℕ) (p : HeapM α) (give : α → Multiset ℕ → Prop) : Prop :=
  ∀ m rest, Owns m (take + rest) → ∃ kept, give (p m).1 kept ∧ Owns (p m).2 (kept + rest)

theorem leaves_pure {take : Multiset ℕ} {a : α} {give : α → Multiset ℕ → Prop} (h : give a take) :
    Leaves take (pure a) give :=
  fun _ _ hm => ⟨take, h, hm⟩

theorem leaves_bind {take : Multiset ℕ} {p : HeapM α} {f : α → HeapM β}
    {mid : α → Multiset ℕ → Prop} {give : β → Multiset ℕ → Prop} (hp : Leaves take p mid)
    (hf : ∀ a kept, mid a kept → Leaves kept (f a) give) : Leaves take (p >>= f) give := by
  intro m rest hm
  obtain ⟨kept, hmid, howns⟩ := hp m rest hm
  exact hf _ kept hmid (p m).2 rest howns

theorem leaves_mono {take : Multiset ℕ} {p : HeapM α} {give give' : α → Multiset ℕ → Prop}
    (hp : Leaves take p give) (h : ∀ a kept, give a kept → give' a kept) : Leaves take p give' := by
  intro m rest hm
  obtain ⟨kept, hgive, howns⟩ := hp m rest hm
  exact ⟨kept, h _ _ hgive, howns⟩

theorem leaves_malloc {take : Multiset ℕ} {f : ℕ → HeapM β} {give : β → Multiset ℕ → Prop}
    (hf : ∀ x, Leaves (x ::ₘ take) (f x) give) : Leaves take (malloc >>= f) give := by
  intro m rest hm
  have howns := owns_malloc hm
  rw [← Multiset.cons_add] at howns
  exact hf m.next (malloc m).2 rest howns

theorem leaves_tryMalloc {take : Multiset ℕ} {granted : Bool} {f : Option ℕ → HeapM β}
    {give : β → Multiset ℕ → Prop} (hnone : granted = false → Leaves take (f none) give)
    (hsome : granted = true → ∀ x, Leaves (x ::ₘ take) (f (some x)) give) :
    Leaves take (tryMalloc granted >>= f) give := by
  cases granted with
  | false => exact hnone rfl
  | true => exact leaves_malloc (hsome rfl)

theorem leaves_touch {take : Multiset ℕ} {x : ℕ} {f : Unit → HeapM β}
    {give : β → Multiset ℕ → Prop} (hx : x ∈ take) (hf : Leaves take (f ()) give) :
    Leaves take (touch x >>= f) give := by
  intro m rest hm
  exact hf (touch x m).2 rest (owns_touch hm (Multiset.mem_add.2 (Or.inl hx)))

theorem leaves_free {take more : Multiset ℕ} {x : ℕ} {f : Unit → HeapM β}
    {give : β → Multiset ℕ → Prop} (htake : take = x ::ₘ more) (hf : Leaves more (f ()) give) :
    Leaves take (free (some x) >>= f) give := by
  intro m rest hm
  rw [htake, Multiset.cons_add] at hm
  exact hf (free (some x) m).2 rest (owns_free hm)

/-- `p` gives back what it takes itself and returns `a`. -/
def Borrows (take : Multiset ℕ) (p : HeapM α) (a : α) : Prop :=
  Leaves take p fun a' kept => a' = a ∧ kept = take

theorem borrows_bind {take : Multiset ℕ} {p : HeapM α} {a : α} {f : α → HeapM β}
    {give : β → Multiset ℕ → Prop} (hp : Borrows take p a) (hf : Leaves take (f a) give) :
    Leaves take (p >>= f) give := by
  refine leaves_bind hp fun a' kept h => ?_
  obtain ⟨rfl, rfl⟩ := h
  exact hf

theorem borrows_foldlM {take : Multiset ℕ} {f : β → γ → HeapM β} {g : β → γ → β} {xs : List γ}
    (h : ∀ b, ∀ x ∈ xs, Borrows take (f b x) (g b x)) (b : β) :
    Borrows take (xs.foldlM f b) (xs.foldl g b) := by
  induction xs generalizing b with
  | nil => exact leaves_pure ⟨rfl, rfl⟩
  | cons x xs ih =>
    rw [List.foldlM_cons, List.foldl_cons]
    exact borrows_bind (h b x List.mem_cons_self)
      (ih (fun b y hy => h b y (List.mem_cons_of_mem x hy)) _)

/-- A loop: what it owns is told from the items it has seen. -/
theorem leaves_foldlM {f : β → γ → HeapM β} (Inv : List γ → β → Multiset ℕ → Prop)
    (hstep : ∀ seen x b kept, Inv seen b kept → Leaves kept (f b x) (Inv (seen ++ [x])))
    (xs : List γ) {seen : List γ} {b : β} {take : Multiset ℕ} (h : Inv seen b take) :
    Leaves take (xs.foldlM f b) (Inv (seen ++ xs)) := by
  induction xs generalizing seen b take with
  | nil =>
    rw [List.append_nil]
    exact leaves_pure h
  | cons x xs ih =>
    rw [List.foldlM_cons]
    refine leaves_bind (hstep seen x b take h) fun b' kept hkept => ?_
    rw [← List.singleton_append, ← List.append_assoc]
    exact ih hkept

end Heap
