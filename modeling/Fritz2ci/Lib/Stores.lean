import Mathlib.Data.List.GetD
import Mathlib.Data.List.Induction

/-! Runs of cells stored into memory at given offsets, and writers that put one run behind
the other, counting offsets modulo the width of their counter. -/

namespace Stores

variable {α : Type*}

/-- Cells stored from an offset on. -/
structure Store (α : Type*) where
  off : ℕ
  cells : List α
  deriving DecidableEq, Repr

def Store.apply (m : ℕ → α) (s : Store α) : ℕ → α := fun i =>
  if s.off ≤ i then s.cells.getD (i - s.off) (m i) else m i

def applyAll (m : ℕ → α) (ss : List (Store α)) : ℕ → α := ss.foldl Store.apply m

/-- The offsets stored to, in order. -/
def offsets (ss : List (Store α)) : List ℕ := ss.flatMap fun s => List.range' s.off s.cells.length

/-- The stores of a callee that is given a pointer `base` cells further on. -/
def shift (base : ℕ) (ss : List (Store α)) : List (Store α) :=
  ss.map fun s => ⟨base + s.off, s.cells⟩

/-- Each store begins where the one before it ends. -/
def Tiles : ℕ → List (Store α) → ℕ → Prop
  | p, [], q => p = q
  | p, s :: ss, q => s.off = p ∧ Tiles (p + s.cells.length) ss q

def content (ss : List (Store α)) : List α := ss.flatMap (·.cells)

@[simp] theorem offsets_nil : offsets ([] : List (Store α)) = [] := rfl

@[simp] theorem offsets_append (ss ts : List (Store α)) :
    offsets (ss ++ ts) = offsets ss ++ offsets ts := List.flatMap_append

@[simp] theorem content_append (ss ts : List (Store α)) :
    content (ss ++ ts) = content ss ++ content ts := List.flatMap_append

@[simp] theorem content_nil : content ([] : List (Store α)) = [] := rfl

@[simp] theorem shift_nil (base : ℕ) : shift base ([] : List (Store α)) = [] := rfl

@[simp] theorem shift_append (base : ℕ) (ss ts : List (Store α)) :
    shift base (ss ++ ts) = shift base ss ++ shift base ts := List.map_append

@[simp] theorem content_shift (base : ℕ) (ss : List (Store α)) :
    content (shift base ss) = content ss := by
  simp [content, shift, List.flatMap_map]

theorem mem_offsets {ss : List (Store α)} {o : ℕ} :
    o ∈ offsets ss ↔ ∃ s ∈ ss, s.off ≤ o ∧ o < s.off + s.cells.length := by
  simp [offsets, List.mem_range'_1]

theorem mem_offsets_shift {base : ℕ} {ss : List (Store α)} {o : ℕ} :
    o ∈ offsets (shift base ss) ↔ base ≤ o ∧ o - base ∈ offsets ss := by
  simp only [mem_offsets, shift, List.mem_map]
  constructor
  · rintro ⟨_, ⟨s, hs, rfl⟩, h⟩
    simp only at h
    exact ⟨by omega, s, hs, by omega⟩
  · rintro ⟨hb, s, hs, h⟩
    exact ⟨_, ⟨s, hs, rfl⟩, by simp only; omega⟩

theorem tiles_append {p q r : ℕ} {ss ts : List (Store α)} (h₁ : Tiles p ss q)
    (h₂ : Tiles q ts r) : Tiles p (ss ++ ts) r := by
  induction ss generalizing p with
  | nil => cases h₁; exact h₂
  | cons s ss ih => exact ⟨h₁.1, ih h₁.2⟩

theorem tiles_shift {p q : ℕ} {ss : List (Store α)} (base : ℕ) (h : Tiles p ss q) :
    Tiles (base + p) (shift base ss) (base + q) := by
  induction ss generalizing p with
  | nil => cases h; rfl
  | cons s ss ih =>
    obtain ⟨rfl, h⟩ := h
    refine ⟨rfl, ?_⟩
    have := ih h
    rwa [← Nat.add_assoc] at this

theorem end_of_tiles {p q : ℕ} {ss : List (Store α)} (h : Tiles p ss q) :
    q = p + (content ss).length := by
  induction ss generalizing p with
  | nil => cases h; rfl
  | cons s ss ih =>
    rw [ih h.2]
    simp [content, Nat.add_assoc]

theorem head_of_tiles {p q : ℕ} {ss : List (Store α)} (h : Tiles p ss q) :
    ∀ s ∈ ss.head?, s.off = p := by
  cases ss with
  | nil => simp
  | cons s ss =>
    rintro _ ⟨⟩
    exact h.1

theorem last_of_tiles {p q : ℕ} {ss : List (Store α)} (h : Tiles p ss q) :
    ∀ s ∈ ss.getLast?, s.off + s.cells.length = q := by
  induction ss generalizing p with
  | nil => simp
  | cons s ss ih =>
    cases ss with
    | nil =>
      rintro _ ⟨⟩
      change s.off + s.cells.length = q
      rw [h.1]
      exact h.2
    | cons t ss =>
      rw [List.getLast?_cons_cons]
      exact ih h.2

theorem chain_of_tiles {p q : ℕ} {ss : List (Store α)} (h : Tiles p ss q) :
    ss.IsChain fun s t => t.off = s.off + s.cells.length := by
  induction ss generalizing p with
  | nil => exact List.IsChain.nil
  | cons s ss ih =>
    cases ss with
    | nil => exact List.IsChain.singleton s
    | cons t ss => exact List.IsChain.cons_cons (by rw [h.2.1, h.1]) (ih h.2)

theorem offsets_of_tiles {p q : ℕ} {ss : List (Store α)} (h : Tiles p ss q) :
    offsets ss = List.range' p (q - p) := by
  induction ss generalizing p with
  | nil => cases h; simp
  | cons s ss ih =>
    have hq := end_of_tiles h.2
    obtain ⟨rfl, h⟩ := h
    have e := ih h
    simp only [offsets, List.flatMap_cons] at e ⊢
    rw [e, List.range'_append_1]
    congr 1
    omega

theorem mem_offsets_of_tiles {p q : ℕ} {ss : List (Store α)} (h : Tiles p ss q) {o : ℕ} :
    o ∈ offsets ss ↔ p ≤ o ∧ o < q := by
  have hq := end_of_tiles h
  rw [offsets_of_tiles h, List.mem_range'_1]
  omega

theorem applyAll_of_notMem (m : ℕ → α) {ss : List (Store α)} {i : ℕ} (h : i ∉ offsets ss) :
    applyAll m ss i = m i := by
  induction ss generalizing m with
  | nil => rfl
  | cons s ss ih =>
    simp only [offsets, List.flatMap_cons, List.mem_append, List.mem_range'_1, not_or] at h
    have h' : i ∉ offsets ss := h.2
    rw [applyAll, List.foldl_cons]
    refine (ih _ h').trans ?_
    unfold Store.apply
    split_ifs with hle
    · rw [List.getD_eq_default]
      omega
    · rfl

/-- When every store puts down the cells that `data` has there, the memory behind it holds
them wherever something was stored, in whatever order the stores were made. -/
theorem applyAll_eq_of_agree (m data : ℕ → α) {ss : List (Store α)}
    (h : ∀ s ∈ ss, ∀ k (hk : k < s.cells.length), s.cells[k] = data (s.off + k)) {i : ℕ}
    (hi : i ∈ offsets ss) : applyAll m ss i = data i := by
  induction ss using List.reverseRecOn with
  | nil => cases hi
  | append_singleton ss s ih =>
    rw [applyAll, List.foldl_append]
    change Store.apply (applyAll m ss) s i = data i
    by_cases hs : s.off ≤ i ∧ i < s.off + s.cells.length
    · have hk : i - s.off < s.cells.length := by omega
      have := h s (by simp) (i - s.off) hk
      rw [Store.apply, if_pos hs.1, List.getD_eq_getElem _ _ hk, this]
      congr 1
      omega
    · have hi' : i ∈ offsets ss := by
        rw [offsets_append, List.mem_append] at hi
        refine hi.resolve_right fun hm => hs ?_
        simpa [offsets, List.mem_range'_1] using hm
      have e : Store.apply (applyAll m ss) s i = applyAll m ss i := by
        unfold Store.apply
        split_ifs with hle
        · rw [List.getD_eq_default]
          omega
        · rfl
      rw [e, ih (fun t ht => h t (by simp [ht])) hi']

theorem agree_of_tiles {p q : ℕ} {ss : List (Store α)} (h : Tiles p ss q) {s : Store α}
    (hs : s ∈ ss) {k : ℕ} (hk : k < s.cells.length) (d : ℕ → α) :
    s.cells[k] = (content ss).getD (s.off + k - p) (d (s.off + k)) := by
  induction ss generalizing p with
  | nil => cases hs
  | cons t ts ih =>
    have hc : content (t :: ts) = t.cells ++ content ts := rfl
    obtain ⟨rfl, h⟩ := h
    rcases List.mem_cons.1 hs with rfl | hs
    · rw [hc, List.getD_append _ _ _ _ (by omega)]
      simp [hk]
    · have hle := (mem_offsets_of_tiles h (o := s.off + k)).1
        (mem_offsets.2 ⟨s, hs, by omega, by omega⟩)
      rw [hc, List.getD_append_right _ _ _ _ (by omega), ih h hs]
      congr 1
      omega

/-- Consecutive stores leave their content behind one another and the rest as it was. -/
theorem applyAll_of_tiles {p q : ℕ} {ss : List (Store α)} (h : Tiles p ss q) (m : ℕ → α) (i : ℕ) :
    applyAll m ss i = if p ≤ i then (content ss).getD (i - p) (m i) else m i := by
  have hq := end_of_tiles h
  by_cases hi : i ∈ offsets ss
  · rw [if_pos ((mem_offsets_of_tiles h).1 hi).1]
    exact applyAll_eq_of_agree m (fun j => (content ss).getD (j - p) (m j))
      (fun s hs k hk => agree_of_tiles h hs hk m) hi
  · rw [applyAll_of_notMem m hi]
    rw [mem_offsets_of_tiles h] at hi
    split_ifs with hp
    · rw [List.getD_eq_default]
      omega
    · rfl

/-- A writer takes the offset to write at and gives its stores and the next offset. -/
abbrev Writer (α : Type*) := ℕ → List (Store α) × ℕ

def Writer.andThen (v w : Writer α) : Writer α := fun pos =>
  ((v pos).1 ++ (w (v pos).2).1, (w (v pos).2).2)

/-- One writer for each element of a list. -/
def writeMany {β : Type*} (w : β → Writer α) : List β → Writer α
  | [], pos => ([], pos)
  | b :: bs, pos => (w b).andThen (writeMany w bs) pos

/-- The writer puts down `x`. Its offsets are counted modulo `m`, so where `x` does not
end below `m` all that is said is that the cells up to there are stored to. -/
structure Lays (m : ℕ) (w : Writer α) (x : List α) : Prop where
  tiles : ∀ pos, pos + x.length < m → Tiles pos (w pos).1 (pos + x.length)
  content : ∀ pos, pos + x.length < m → content (w pos).1 = x
  next : ∀ pos < m, (w pos).2 = (pos + x.length) % m
  covers : ∀ pos < m, ∀ o, pos ≤ o → o < pos + x.length → o < m → o ∈ offsets (w pos).1

theorem lays_nil (m : ℕ) : Lays m (fun pos => (([] : List (Store α)), pos)) [] where
  tiles _ _ := rfl
  content _ _ := rfl
  next _ h := (Nat.mod_eq_of_lt h).symm
  covers pos _ _ h₁ h₂ _ := absurd (Nat.lt_of_le_of_lt h₁ h₂) (Nat.lt_irrefl pos)

theorem lays_andThen {m : ℕ} {v w : Writer α} {x y : List α} (hv : Lays m v x)
    (hw : Lays m w y) : Lays m (v.andThen w) (x ++ y) := by
  have hnext : ∀ pos, pos + x.length < m → (v pos).2 = pos + x.length := fun pos h => by
    rw [hv.next pos (by omega), Nat.mod_eq_of_lt h]
  refine ⟨fun pos h => ?_, fun pos h => ?_, fun pos h => ?_, fun pos h o h₁ h₂ h₃ => ?_⟩
  · rw [List.length_append, ← Nat.add_assoc] at h ⊢
    have h₁ := hnext pos (by omega)
    unfold Writer.andThen
    rw [h₁]
    exact tiles_append (hv.tiles pos (by omega)) (hw.tiles _ h)
  · rw [List.length_append, ← Nat.add_assoc] at h
    have h₁ := hnext pos (by omega)
    unfold Writer.andThen
    rw [content_append, hv.content pos (by omega), h₁, hw.content _ h]
  · have hm : 0 < m := by omega
    have e := hw.next _ (Nat.mod_lt (pos + x.length) hm)
    rw [← hv.next pos h] at e
    unfold Writer.andThen
    rw [e, hv.next pos h, Nat.mod_add_mod, List.length_append, Nat.add_assoc]
  · rw [List.length_append] at h₂
    unfold Writer.andThen
    rw [offsets_append, List.mem_append]
    by_cases hx : o < pos + x.length
    · exact Or.inl (hv.covers pos h o h₁ hx h₃)
    · rw [hnext pos (by omega)]
      exact Or.inr (hw.covers _ (by omega) o (by omega) (by omega) h₃)

theorem lays_many {β : Type*} {m : ℕ} {w : β → Writer α} {x : β → List α}
    (h : ∀ b, Lays m (w b) (x b)) (bs : List β) : Lays m (writeMany w bs) (bs.flatMap x) := by
  induction bs with
  | nil => exact lays_nil m
  | cons b bs ih => exact lays_andThen (h b) ih

end Stores
