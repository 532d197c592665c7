import Mathlib.Data.List.Basic
import Mathlib.Data.Nat.Cast.Order.Ring

/-! Records one behind the other in a buffer. Each begins with a header of fixed size that
tells its length, and the next one begins at the next multiple of four. -/

namespace Records

def align (n : ℕ) : ℕ := (n + 3) / 4 * 4

theorem le_align (n : ℕ) : n ≤ align n := by
  unfold align
  omega

/-- A kind of record: the size of its header and the length that a header tells. -/
structure Format (β : Type*) where
  header : ℕ
  size : List β → ℕ
  header_pos : 0 < header
  size_append : ∀ x y, header ≤ x.length → size (x ++ y) = size x

variable {β γ : Type*} (F : Format β)

/-- What is left of the buffer at each record met. `len` counts the bytes received that are
left; the step over the last record may make it negative. -/
def walk (rest : List β) (len : ℤ) : List (List β) :=
  if (F.header : ℤ) ≤ len ∧ F.header ≤ F.size rest ∧ (F.size rest : ℤ) ≤ len then
    rest :: walk (rest.drop (align (F.size rest))) (len - align (F.size rest))
  else []
termination_by len.toNat
decreasing_by
  have := F.header_pos
  have := le_align (F.size rest)
  omega

/-- A complete record, padded. -/
structure IsRecord (x : List β) : Prop where
  header : F.header ≤ F.size x
  padded : x.length = align (F.size x)

variable {F}

theorem walk_stop {rest : List β} {len : ℤ}
    (h : ¬ ((F.header : ℤ) ≤ len ∧ F.header ≤ F.size rest ∧ (F.size rest : ℤ) ≤ len)) :
    walk F rest len = [] := by
  rw [walk, if_neg h]

theorem IsRecord.header_le {x : List β} (h : IsRecord F x) : F.header ≤ x.length := by
  have := le_align (F.size x)
  have := h.header
  rw [h.padded]
  omega

/-- The walk over a record goes on behind it. -/
theorem walk_record {x rest : List β} (h : IsRecord F x) (n : ℕ) :
    walk F (x ++ rest) ((x.length + n : ℕ) : ℤ) = (x ++ rest) :: walk F rest n := by
  have hsize := F.size_append x rest h.header_le
  have hlen := le_align (F.size x)
  have hhead := h.header
  have hpad := h.padded
  rw [walk, if_pos (by rw [hsize]; omega), hsize, ← hpad, List.drop_left]
  congr 2
  omega

/-- A function that looks at its own record only gives the same on a walk as on the records. -/
theorem map_walk_flatMap {ι : Type*} {bytes : ι → List β} {f : List β → γ} {g : ι → γ} {is : List ι}
    (hi : ∀ i ∈ is, IsRecord F (bytes i) ∧ ∀ y, f (bytes i ++ y) = g i) (rest : List β) (n : ℕ) :
    (walk F (is.flatMap bytes ++ rest) (((is.flatMap bytes).length + n : ℕ) : ℤ)).map f =
      is.map g ++ (walk F rest n).map f := by
  induction is with
  | nil => simp
  | cons i is ih =>
    obtain ⟨hr, hf⟩ := hi i (by simp)
    have hlen : ((i :: is).flatMap bytes).length + n =
        (bytes i).length + ((is.flatMap bytes).length + n) := by
      rw [List.flatMap_cons, List.length_append, Nat.add_assoc]
    rw [List.flatMap_cons, List.append_assoc, ← List.flatMap_cons, hlen, walk_record hr,
      List.map_cons, hf, ih fun j hj => hi j (by simp [hj]), List.map_cons, List.cons_append]

/-- Every record met lies within the bytes received, its header included. -/
theorem walk_inside {rest : List β} {len : ℤ} (hlen : len ≤ rest.length) :
    ∀ r ∈ walk F rest len, r <:+ rest ∧ F.header ≤ F.size r ∧
      rest.length - r.length + F.size r ≤ len := by
  induction rest, len using walk.induct F with
  | case1 rest len h ih =>
    have hgrow := le_align (F.size rest)
    rw [walk, if_pos h]
    intro r hr
    rcases List.mem_cons.1 hr with rfl | hr
    · refine ⟨List.suffix_rfl, h.2.1, ?_⟩
      omega
    · by_cases hin : align (F.size rest) ≤ rest.length
      · obtain ⟨hs, hh, hle⟩ := ih (by rw [List.length_drop]; omega) r hr
        have := hs.length_le
        rw [List.length_drop] at hle this
        refine ⟨hs.trans (List.drop_suffix _ _), hh, ?_⟩
        omega
      · -- the padding of the last record is not there: nothing is left
        rw [walk_stop (by have := F.header_pos; omega)] at hr
        simp at hr
  | case2 rest len h =>
    rw [walk_stop h]
    simp

end Records
