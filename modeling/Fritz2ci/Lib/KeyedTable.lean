import Mathlib.Data.List.Nodup
import Mathlib.Logic.Function.Basic

/-! Tables of rows with a key and a value, read as partial maps. A table whose keys are
not declared unique still is one when rows are only inserted for absent keys. -/

namespace KeyedTable

variable {ρ κ ν : Type*}

/-- No key has two rows. -/
def UniqueKeys (key : ρ → κ) (rows : List ρ) : Prop := (rows.map key).Nodup

theorem unique_map {key : ρ → κ} {rows : List ρ} (f : ρ → ρ) (hf : ∀ r, key (f r) = key r)
    (hu : UniqueKeys key rows) : UniqueKeys key (rows.map f) := by
  rw [UniqueKeys, List.map_map, show key ∘ f = key from funext hf]
  exact hu

theorem unique_filter {key : ρ → κ} {rows : List ρ} (p : ρ → Bool) (hu : UniqueKeys key rows) :
    UniqueKeys key (rows.filter p) :=
  (List.filter_sublist.map key).nodup hu

theorem unique_snoc {key : ρ → κ} {rows : List ρ} {r : ρ} (hu : UniqueKeys key rows)
    (hr : ∀ r' ∈ rows, key r' ≠ key r) : UniqueKeys key (rows ++ [r]) := by
  rw [UniqueKeys, List.map_append, List.nodup_append]
  refine ⟨hu, by simp, ?_⟩
  intro a ha b hb
  obtain ⟨r', hr', rfl⟩ := List.mem_map.1 ha
  obtain rfl := List.mem_singleton.1 hb
  exact hr r' hr'

variable [DecidableEq κ] (key : ρ → κ) (value : ρ → ν)

/-- The value in the first row of a key. -/
def toMap (rows : List ρ) (k : κ) : Option ν := (rows.find? fun r => key r = k).map value

variable {key value}

theorem toMap_eq_none {rows : List ρ} {k : κ} :
    toMap key value rows k = none ↔ ∀ r ∈ rows, key r ≠ k := by
  simp [toMap]

theorem toMap_nil (k : κ) : toMap key value [] k = none := rfl

theorem toMap_cons (r : ρ) (rows : List ρ) (k : κ) :
    toMap key value (r :: rows) k =
      if key r = k then some (value r) else toMap key value rows k := by
  unfold toMap
  by_cases h : key r = k
  · simp [h]
  · simp [h]

/-- With unique keys the map holds exactly the rows. -/
theorem toMap_eq_some {rows : List ρ} (hu : UniqueKeys key rows) {k : κ} {v : ν} :
    toMap key value rows k = some v ↔ ∃ r ∈ rows, key r = k ∧ value r = v := by
  induction rows with
  | nil => simp [toMap_nil]
  | cons r rows ih =>
    rw [UniqueKeys, List.map_cons, List.nodup_cons] at hu
    rw [toMap_cons]
    by_cases h : key r = k
    · rw [if_pos h, Option.some.injEq]
      constructor
      · intro hv
        exact ⟨r, by simp, h, hv⟩
      · rintro ⟨r', hr', hk, hv⟩
        rcases List.mem_cons.1 hr' with rfl | hr'
        · exact hv
        · exact absurd (List.mem_map.2 ⟨r', hr', hk.trans h.symm⟩) hu.1
    · simp [h, ih hu.2]

theorem toMap_update_apply {k : κ} {v : ν} (f : ρ → ρ) (hkey : ∀ r, key (f r) = key r)
    (hval : ∀ r, value (f r) = v) (rows : List ρ) (k' : κ) :
    toMap key value (rows.map fun r => if key r = k then f r else r) k' =
      if k' = k then (toMap key value rows k).map (fun _ => v) else toMap key value rows k' := by
  induction rows with
  | nil => simp [toMap_nil]
  | cons r rows ih =>
    rw [List.map_cons, toMap_cons, ih, toMap_cons, toMap_cons]
    by_cases hr : key r = k
    · rw [if_pos hr, hkey, hval, if_pos hr]
      by_cases hk : k' = k
      · rw [if_pos (hr.trans hk.symm), if_pos hk, Option.map_some]
      · have hrk : key r ≠ k' := fun h => hk (h.symm.trans hr)
        rw [if_neg hrk, if_neg hk, if_neg hk, if_neg hrk]
    · rw [if_neg hr, if_neg hr]
      by_cases hk : k' = k
      · rw [if_pos hk, if_pos hk, if_neg (fun h => hr (h.trans hk))]
      · rw [if_neg hk, if_neg hk]

/-- Updating the rows of a present key overwrites its entry. -/
theorem toMap_update (key : ρ → κ) (value : ρ → ν) {rows : List ρ} {k : κ} {v : ν}
    (f : ρ → ρ) (hkey : ∀ r, key (f r) = key r)
    (hval : ∀ r, value (f r) = v) (hk : ∃ r ∈ rows, key r = k) :
    toMap key value (rows.map fun r => if key r = k then f r else r) =
      Function.update (toMap key value rows) k (some v) := by
  funext k'
  rw [toMap_update_apply f hkey hval, Function.update_apply]
  cases h : toMap key value rows k with
  | none =>
    obtain ⟨r, hr, hrk⟩ := hk
    exact absurd hrk (toMap_eq_none.1 h r hr)
  | some w => rfl

/-- Updating the rows of an absent key changes nothing. -/
theorem update_absent {rows : List ρ} {k : κ} (f : ρ → ρ) (hk : ∀ r ∈ rows, key r ≠ k) :
    (rows.map fun r => if key r = k then f r else r) = rows := by
  conv_rhs => rw [← List.map_id rows]
  exact List.map_congr_left fun r hr => if_neg (hk r hr)

theorem toMap_snoc (key : ρ → κ) (value : ρ → ν) {rows : List ρ} {r : ρ}
    (hr : ∀ r' ∈ rows, key r' ≠ key r) :
    toMap key value (rows ++ [r]) =
      Function.update (toMap key value rows) (key r) (some (value r)) := by
  funext k
  induction rows with
  | nil =>
    rw [List.nil_append, toMap_cons, Function.update_apply]
    by_cases h : key r = k
    · rw [if_pos h, if_pos h.symm]
    · rw [if_neg h, if_neg (Ne.symm h)]
  | cons r' rows ih =>
    have hr' := hr r' (by simp)
    rw [List.cons_append, toMap_cons, ih fun x hx => hr x (by simp [hx]), Function.update_apply,
      Function.update_apply, toMap_cons]
    by_cases h : key r' = k
    · rw [if_pos h, if_neg (fun h' => hr' (h.trans h')), if_pos h]
    · rw [if_neg h, if_neg h]

/-- Deleting the rows of a key that hold a given value removes the entry if it holds it. -/
theorem toMap_delete [DecidableEq ν] {rows : List ρ} (hu : UniqueKeys key rows) (k : κ) (v : ν) :
    toMap key value (rows.filter fun r => !(key r = k && value r = v)) =
      if toMap key value rows k = some v then Function.update (toMap key value rows) k none
      else toMap key value rows := by
  have hu' := unique_filter (fun r => !(decide (key r = k) && decide (value r = v))) hu
  funext k'
  have hiff (w : ν) :
      toMap key value (rows.filter fun r => !(key r = k && value r = v)) k' = some w ↔
      toMap key value rows k' = some w ∧ ¬ (k' = k ∧ w = v) := by
    rw [toMap_eq_some hu', toMap_eq_some hu]
    simp only [List.mem_filter, Bool.not_eq_true', Bool.and_eq_false_imp, decide_eq_true_eq,
      decide_eq_false_iff_not]
    constructor
    · rintro ⟨r, ⟨hr, hne⟩, rfl, rfl⟩
      exact ⟨⟨r, hr, rfl, rfl⟩, fun h => hne h.1 h.2⟩
    · rintro ⟨⟨r, hr, rfl, rfl⟩, hne⟩
      exact ⟨r, ⟨hr, fun h1 h2 => hne ⟨h1, h2⟩⟩, rfl, rfl⟩
  apply Option.ext
  intro w
  rw [hiff w]
  split_ifs with h
  · rw [Function.update_apply]
    by_cases hk : k' = k
    · subst hk
      simp only [h, if_true, Option.some.injEq, true_and, reduceCtorEq, iff_false, not_and, not_not]
      exact fun hw => hw.symm
    · simp [hk]
  · refine ⟨fun hw => hw.1, fun hw => ⟨hw, ?_⟩⟩
    rintro ⟨rfl, rfl⟩
    exact h hw

end KeyedTable
