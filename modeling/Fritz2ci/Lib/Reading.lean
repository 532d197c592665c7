import Mathlib.Data.List.GetD

/-! Readers of a block of memory. A reader gives a value and the offsets of the cells it
looked at, so that one definition says what is decoded and where the decoder looks. -/

/-- A computation that looks at cells of a memory. -/
def Reading (β α : Type) := (ℕ → β) → α × List ℕ

namespace Reading

variable {α β γ : Type}

instance : Monad (Reading β) where
  pure a := fun _ => (a, [])
  bind r f := fun mem => ((f (r mem).1 mem).1, (r mem).2 ++ (f (r mem).1 mem).2)

def val (r : Reading β α) (mem : ℕ → β) : α := (r mem).1

def offs (r : Reading β α) (mem : ℕ → β) : List ℕ := (r mem).2

def cell (off : ℕ) : Reading β β := fun mem => (mem off, [off])

def cells (n : ℕ) : Reading β (List β) := fun mem => ((List.range n).map mem, List.range n)

/-- A reader called with a pointer `base` cells further on. -/
def skip (base : ℕ) (r : Reading β α) : Reading β α := fun mem =>
  ((r fun i => mem (base + i)).1, (r fun i => mem (base + i)).2.map (base + ·))

/-- A reader that is given the offset to read at also gives the offset behind what it read. -/
abbrev Cursor (β α : Type) := ℕ → Reading β (α × ℕ)

/-- `count` items one behind the other. -/
def many (item : Cursor β α) : ℕ → Cursor β (List α)
  | 0, pos => pure ([], pos)
  | count + 1, pos => do
    let (a, p) ← item pos
    let (as, q) ← many item count p
    pure (a :: as, q)

/-- The reader looks at the first `n` cells only. -/
def Within (n : ℕ) (r : Reading β α) (mem : ℕ → β) : Prop := ∀ o ∈ offs r mem, o < n

/-- The memory begins with `x`. -/
def StartsWith (mem : ℕ → β) (x : List β) : Prop := ∀ i (h : i < x.length), mem i = x[i]

/-- A block of `n` cells begins with a word of `L`. -/
def Fits (mem : ℕ → β) (n : ℕ) (L : List β → Prop) : Prop :=
  ∃ x, L x ∧ x.length ≤ n ∧ StartsWith mem x

/-- `L x a` says that the word `x` stands for `a`. Below offset `m` the cursor reads any
word of `L` and nothing behind it, and it stays within a block only where the block holds
such a word. -/
structure Recognises (m : ℕ) (item : Cursor β α) (L : List β → α → Prop) : Prop where
  reads : ∀ x a, L x a → ∀ pos, pos + x.length < m → ∀ mem,
    StartsWith (fun i => mem (pos + i)) x →
      val (item pos) mem = (a, pos + x.length) ∧ Within (pos + x.length) (item pos) mem
  within : ∀ mem n pos, pos ≤ n → n < m → Within n (item pos) mem →
    ∃ x a, L x a ∧ pos + x.length ≤ n ∧ StartsWith (fun i => mem (pos + i)) x

/-- The words of `count` items. -/
def ManyOf (L : List β → α → Prop) (count : ℕ) (x : List β) (as : List α) : Prop :=
  as.length = count ∧ ∃ xs, List.Forall₂ L xs as ∧ x = xs.flatten

@[simp] theorem val_pure (a : α) (mem : ℕ → β) : val (pure a) mem = a := rfl

@[simp] theorem offs_pure (a : α) (mem : ℕ → β) : offs (pure a) mem = [] := rfl

@[simp] theorem val_bind (r : Reading β α) (f : α → Reading β γ) (mem : ℕ → β) :
    val (r >>= f) mem = val (f (val r mem)) mem := rfl

@[simp] theorem offs_bind (r : Reading β α) (f : α → Reading β γ) (mem : ℕ → β) :
    offs (r >>= f) mem = offs r mem ++ offs (f (val r mem)) mem := rfl

@[simp] theorem val_cell (off : ℕ) (mem : ℕ → β) : val (cell off) mem = mem off := rfl

@[simp] theorem offs_cell (off : ℕ) (mem : ℕ → β) : offs (cell off) mem = [off] := rfl

@[simp] theorem val_cells (n : ℕ) (mem : ℕ → β) :
    val (cells n) mem = (List.range n).map mem := rfl

@[simp] theorem val_skip (base : ℕ) (r : Reading β α) (mem : ℕ → β) :
    val (skip base r) mem = val r fun i => mem (base + i) := rfl

theorem within_pure (n : ℕ) (a : α) (mem : ℕ → β) : Within n (pure a) mem := by
  simp [Within]

theorem within_bind {n : ℕ} {r : Reading β α} {f : α → Reading β γ} {mem : ℕ → β} :
    Within n (r >>= f) mem ↔ Within n r mem ∧ Within n (f (val r mem)) mem := by
  simp [Within, or_imp, forall_and]

theorem within_cell {n off : ℕ} {mem : ℕ → β} : Within n (cell off) mem ↔ off < n := by
  simp [Within]

theorem within_cells {n k : ℕ} {mem : ℕ → β} : Within n (cells k) mem ↔ k ≤ n := by
  simp only [Within, offs, cells, List.mem_range]
  constructor
  · intro h
    rcases Nat.eq_zero_or_pos k with rfl | hk
    · exact Nat.zero_le n
    · have := h (k - 1) (by omega)
      omega
  · intro h o ho
    omega

theorem within_skip {n base : ℕ} {r : Reading β α} {mem : ℕ → β} :
    Within n (skip base r) mem ↔ Within (n - base) r fun i => mem (base + i) := by
  have e : offs (skip base r) mem = (offs r fun i => mem (base + i)).map (base + ·) := rfl
  simp only [Within, e, List.mem_map, forall_exists_index, and_imp, forall_apply_eq_imp_iff₂]
  exact forall₂_congr fun o _ => by omega

theorem Within.mono {n k : ℕ} {r : Reading β α} {mem : ℕ → β} (h : Within n r mem) (hk : n ≤ k) :
    Within k r mem := fun o ho => Nat.lt_of_lt_of_le (h o ho) hk

theorem startsWith_nil (mem : ℕ → β) : StartsWith mem [] := fun _ h => absurd h (Nat.not_lt_zero _)

theorem startsWith_cons {mem : ℕ → β} {b : β} {x : List β} :
    StartsWith mem (b :: x) ↔ mem 0 = b ∧ StartsWith (fun i => mem (1 + i)) x := by
  constructor
  · refine fun h => ⟨h 0 (by simp), fun i hi => ?_⟩
    have := h (1 + i) (by simp; omega)
    simpa [Nat.add_comm 1 i] using this
  · rintro ⟨rfl, h⟩ i hi
    cases i with
    | zero => rfl
    | succ i => simpa [Nat.add_comm 1 i] using h i (by simpa using hi)

theorem startsWith_append {mem : ℕ → β} {x y : List β} :
    StartsWith mem (x ++ y) ↔
      StartsWith mem x ∧ StartsWith (fun i => mem (x.length + i)) y := by
  constructor
  · intro h
    refine ⟨fun i hi => ?_, fun i hi => ?_⟩
    · have := h i (by simp; omega)
      rwa [List.getElem_append_left hi] at this
    · have := h (x.length + i) (by simp; omega)
      simpa [List.getElem_append_right] using this
  · rintro ⟨hx, hy⟩ i hi
    rw [List.length_append] at hi
    by_cases hlt : i < x.length
    · rw [List.getElem_append_left hlt]
      exact hx i hlt
    · have := hy (i - x.length) (by omega)
      rw [List.getElem_append_right (by omega), ← this]
      congr 1
      omega

theorem startsWith_range (mem : ℕ → β) (n : ℕ) : StartsWith mem ((List.range n).map mem) := by
  intro i hi
  simp

theorem range_of_startsWith {mem : ℕ → β} {x : List β} (h : StartsWith mem x) :
    (List.range x.length).map mem = x := by
  apply List.ext_getElem (by simp)
  intro i _ h₂
  simpa using h i h₂

/-- A block of `n` cells begins with `x`. -/
theorem startsWith_iff_prefix {mem : ℕ → β} {x : List β} {n : ℕ} :
    x <+: (List.range n).map mem ↔ x.length ≤ n ∧ StartsWith mem x := by
  rw [List.prefix_iff_getElem]
  constructor
  · rintro ⟨hl, h⟩
    exact ⟨by simpa using hl, fun i hi => by simpa using (h i hi).symm⟩
  · rintro ⟨hl, h⟩
    exact ⟨by simpa using hl, fun i hi => by simpa using (h i hi).symm⟩

theorem fits_iff_prefix {mem : ℕ → β} {n : ℕ} {L : List β → Prop} :
    Fits mem n L ↔ ∃ x, L x ∧ x <+: (List.range n).map mem := by
  simp only [Fits, startsWith_iff_prefix]

theorem fits_length {mem : ℕ → β} {n k : ℕ} : Fits mem n (fun x => x.length = k) ↔ k ≤ n := by
  constructor
  · rintro ⟨x, rfl, h, -⟩
    exact h
  · exact fun h => ⟨(List.range k).map mem, by simp, by simpa using h, startsWith_range mem k⟩

theorem manyOf_zero (L : List β → α → Prop) : ManyOf L 0 [] [] :=
  ⟨rfl, [], List.Forall₂.nil, rfl⟩

theorem manyOf_succ {L : List β → α → Prop} {count : ℕ} {x y : List β} {a : α} {as : List α}
    (h : L x a) (hs : ManyOf L count y as) : ManyOf L (count + 1) (x ++ y) (a :: as) := by
  obtain ⟨hc, xs, hxs, rfl⟩ := hs
  exact ⟨by simp [hc], x :: xs, List.Forall₂.cons h hxs, rfl⟩

theorem manyOf_flatMap {L : List β → α → Prop} {f : γ → List β} {g : γ → α} {is : List γ}
    (h : ∀ i ∈ is, L (f i) (g i)) : ManyOf L is.length (is.flatMap f) (is.map g) := by
  induction is with
  | nil => exact manyOf_zero L
  | cons i is ih => exact manyOf_succ (h i (by simp)) (ih fun j hj => h j (by simp [hj]))

theorem many_reads {m : ℕ} {item : Cursor β α} {L : List β → α → Prop} (h : Recognises m item L)
    {xs : List (List β)} {as : List α} (hs : List.Forall₂ L xs as) :
    ∀ pos, pos + xs.flatten.length < m → ∀ mem, StartsWith (fun i => mem (pos + i)) xs.flatten →
      val (many item as.length pos) mem = (as, pos + xs.flatten.length) ∧
        Within (pos + xs.flatten.length) (many item as.length pos) mem := by
  induction hs with
  | nil => exact fun pos _ mem _ => ⟨rfl, within_pure _ _ mem⟩
  | @cons x a xs as hx _ ih =>
    intro pos hm mem hmem
    rw [List.flatten_cons, List.length_append] at hm ⊢
    obtain ⟨hmem₁, hmem₂⟩ := startsWith_append.1 hmem
    obtain ⟨hv, hw⟩ := h.reads x a hx pos (by omega) mem hmem₁
    simp only [← Nat.add_assoc] at hmem₂
    obtain ⟨hv', hw'⟩ := ih (pos + x.length) (by omega) mem hmem₂
    simp only [List.length_cons, many, val_bind, within_bind, hv, hv', val_pure]
    exact ⟨by rw [Nat.add_assoc], hw.mono (by omega), hw'.mono (by omega), within_pure _ _ _⟩

/-- What holds of an item read at any offset holds of all items of a loop. -/
theorem many_forall {item : Cursor β α} {mem : ℕ → β} {P : α → Prop}
    (h : ∀ pos, P (val (item pos) mem).1) :
    ∀ count pos, ∀ a ∈ (val (many item count pos) mem).1, P a := by
  intro count
  induction count with
  | zero => exact fun pos a ha => absurd ha List.not_mem_nil
  | succ count ih => exact fun pos => List.forall_mem_cons.2 ⟨h pos, ih _⟩

theorem many_length (item : Cursor β α) (mem : ℕ → β) (count pos : ℕ) :
    (val (many item count pos) mem).1.length = count := by
  induction count generalizing pos with
  | zero => rfl
  | succ count ih => exact congrArg Nat.succ (ih _)

/-- A loop over items reads the words of the items one behind the other. -/
theorem recognises_many {m : ℕ} {item : Cursor β α} {L : List β → α → Prop}
    (h : Recognises m item L) (count : ℕ) : Recognises m (many item count) (ManyOf L count) where
  reads := by
    rintro _ as ⟨rfl, xs, hs, rfl⟩
    exact many_reads h hs
  within := by
    induction count with
    | zero => exact fun mem n pos hp _ _ => ⟨[], [], manyOf_zero L, hp, startsWith_nil _⟩
    | succ count ih =>
      intro mem n pos hp hn hw
      simp only [many, within_bind] at hw
      obtain ⟨x, a, hL, hlen, hx⟩ := h.within mem n pos hp hn hw.1
      have hw₂ := hw.2.1
      rw [(h.reads x a hL pos (by omega) mem hx).1] at hw₂
      obtain ⟨y, as, hy, hle, hmem⟩ := ih mem n (pos + x.length) (by omega) hn hw₂
      refine ⟨x ++ y, a :: as, manyOf_succ hL hy, ?_, ?_⟩
      · rw [List.length_append]
        omega
      · rw [startsWith_append]
        exact ⟨hx, by simpa only [← Nat.add_assoc] using hmem⟩

end Reading
