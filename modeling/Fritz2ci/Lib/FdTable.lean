import Mathlib.Data.List.Basic

/-! The descriptor table of a process. `openLowest` takes the lowest free descriptor, as
`open`, `socket` and `accept` do. -/

namespace FdTable

variable {α : Type*}

/-- What each descriptor is open on, `none` where it is closed. -/
abbrev Table (α : Type*) := List (Option α)

def lookup (t : Table α) (fd : ℕ) : Option α := (t[fd]?).join

def lowestFree : Table α → ℕ
  | [] => 0
  | none :: _ => 0
  | some _ :: t => lowestFree t + 1

def openLowest (x : α) : Table α → Table α
  | [] => [some x]
  | none :: t => some x :: t
  | some y :: t => some y :: openLowest x t

def close (fd : ℕ) (t : Table α) : Table α := t.set fd none

def closeAll (fds : List ℕ) (t : Table α) : Table α := fds.foldl (fun t fd => close fd t) t

theorem lookup_lowestFree (t : Table α) : lookup t (lowestFree t) = none := by
  induction t with
  | nil => rfl
  | cons o t ih =>
    cases o with
    | none => rfl
    | some y => exact ih

@[simp] theorem lookup_openLowest_self (x : α) (t : Table α) :
    lookup (openLowest x t) (lowestFree t) = some x := by
  induction t with
  | nil => rfl
  | cons o t ih =>
    cases o with
    | none => rfl
    | some y => exact ih

theorem lookup_openLowest_of_ne (x : α) {t : Table α} {fd : ℕ} (h : fd ≠ lowestFree t) :
    lookup (openLowest x t) fd = lookup t fd := by
  induction t generalizing fd with
  | nil =>
    cases fd with
    | zero => exact absurd rfl h
    | succ fd => rfl
  | cons o t ih =>
    cases fd with
    | zero =>
      cases o with
      | none => exact absurd rfl h
      | some y => rfl
    | succ fd =>
      cases o with
      | none => rfl
      | some y => exact ih fun he => h (by rw [he]; rfl)

/-- Opening a descriptor changes nothing for those that are open. -/
theorem lookup_openLowest_of_some (x : α) {t : Table α} {fd : ℕ} {y : α}
    (h : lookup t fd = some y) : lookup (openLowest x t) fd = some y := by
  rw [lookup_openLowest_of_ne, h]
  rintro rfl
  rw [lookup_lowestFree] at h
  cases h

@[simp] theorem lookup_close_self (fd : ℕ) (t : Table α) : lookup (close fd t) fd = none := by
  by_cases h : fd < t.length <;> simp [lookup, close, h]

theorem lookup_close_of_ne {fd fd' : ℕ} (h : fd' ≠ fd) (t : Table α) :
    lookup (close fd t) fd' = lookup t fd' := by
  simp [lookup, close, List.getElem?_set_ne h.symm]

theorem lookup_closeAll_of_notMem {fds : List ℕ} {fd : ℕ} (h : fd ∉ fds) (t : Table α) :
    lookup (closeAll fds t) fd = lookup t fd := by
  induction fds generalizing t with
  | nil => rfl
  | cons fd' fds ih =>
    rw [closeAll, List.foldl_cons]
    refine (ih (fun hm => h (List.mem_cons_of_mem _ hm)) _).trans ?_
    exact lookup_close_of_ne (fun he => h (by rw [he]; exact List.mem_cons_self)) t

theorem lookup_closeAll_of_mem {fds : List ℕ} {fd : ℕ} (h : fd ∈ fds) (t : Table α) :
    lookup (closeAll fds t) fd = none := by
  induction fds generalizing t with
  | nil => cases h
  | cons fd' fds ih =>
    rw [closeAll, List.foldl_cons]
    by_cases hm : fd ∈ fds
    · exact ih hm _
    · have he : fd = fd' := (List.mem_cons.1 h).resolve_right hm
      rw [he]
      exact (lookup_closeAll_of_notMem (he ▸ hm) _).trans (lookup_close_self fd' t)

end FdTable
