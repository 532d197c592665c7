import Fritz2ci.Spec.CIDBMessages
import Mathlib.Data.List.Nodup

/-! `cidbmsg_table_free` counts the cells in 16 bits against a product of two such numbers.
It frees a table of fewer than 65536 cells, and does not come back from a larger one. -/

namespace Fritz2ci

open CString

/-- What the table holds: entries that are not NULL, and the arrays that are there. -/
def Allocated (table : CIDBTable) : TableBlock → Prop
  | .name i => ∃ str, table.columnNames[i]? = some (some str)
  | .field i => ∃ str, table.fields[i]? = some (some str)
  | .columnNames => table.columnNames ≠ []
  | .fields => table.fields ≠ []

/-- The call returns with all blocks freed once and the table zero. -/
def FreesAll (table : CIDBTable) : Prop :=
  ∃ fuel freed, cidbmsgTableFree fuel table = some (freed, ⟨0, 0, [], []⟩) ∧ freed.Nodup ∧
    ∀ block, block ∈ freed ↔ Allocated table block

/-- The entries that are not NULL, from index `i` on. -/
def entriesFrom (array : List (Option CStr)) (block : ℕ → TableBlock) (i : ℕ) : List TableBlock :=
  ((List.range' i (array.length - i)).filter fun k => (array.getD k none).isSome).map block

section Loop

variable {array : List (Option CStr)} {block : ℕ → TableBlock}

theorem entriesFrom_lt {i : ℕ} (h : i < array.length) :
    entriesFrom array block i =
      if (array.getD i none).isSome then block i :: entriesFrom array block (i + 1)
      else entriesFrom array block (i + 1) := by
  unfold entriesFrom
  have hlen : array.length - i = array.length - (i + 1) + 1 := by omega
  rw [hlen, List.range'_succ, List.filter_cons]
  split_ifs <;> rfl

theorem entriesFrom_end {i : ℕ} (h : array.length ≤ i) : entriesFrom array block i = [] := by
  rw [entriesFrom, Nat.sub_eq_zero_of_le h]
  rfl

theorem freeLoop_ends (hlen : array.length < 2 ^ 16) :
    ∀ (fuel : ℕ) (i : UInt16), array.length - i.toNat < fuel →
      freeLoop array.length array block fuel i = some (entriesFrom array block i.toNat) := by
  intro fuel
  induction fuel with
  | zero => exact fun i h => absurd h (Nat.not_lt_zero _)
  | succ fuel ih =>
    intro i hfuel
    by_cases hi : i.toNat < array.length
    · have hnext : (i + 1).toNat = i.toNat + 1 := by
        rw [UInt16.toNat_add]
        exact Nat.mod_eq_of_lt (by simp; omega)
      rw [freeLoop, if_pos hi, ih (i + 1) (by omega), hnext, entriesFrom_lt hi]
      rfl
    · rw [freeLoop, if_neg hi, entriesFrom_end (Nat.not_lt.1 hi)]

/-- A counter of 16 bits is below every larger bound. -/
theorem freeLoop_runs_on {bound : ℕ} (hbound : 2 ^ 16 ≤ bound) (fuel : ℕ) (i : UInt16) :
    freeLoop bound array block fuel i = none := by
  induction fuel generalizing i with
  | zero => rfl
  | succ fuel ih =>
    have hi := i.toNat_lt
    rw [freeLoop, if_pos (by omega), ih]
    rfl

theorem mem_entries {b : TableBlock} :
    b ∈ entriesFrom array block 0 ↔ ∃ i, (∃ str, array[i]? = some (some str)) ∧ block i = b := by
  simp only [entriesFrom, List.mem_map, List.mem_filter, List.mem_range'_1,
    Option.isSome_iff_exists]
  refine exists_congr fun i => and_congr_left fun _ => ?_
  constructor
  · rintro ⟨⟨-, hi⟩, str, hstr⟩
    have hlt : i < array.length := by omega
    rw [List.getD_eq_getElem _ _ hlt] at hstr
    exact ⟨str, by rw [List.getElem?_eq_getElem hlt, hstr]⟩
  · rintro ⟨str, hstr⟩
    obtain ⟨hlt, hget⟩ := List.getElem?_eq_some_iff.1 hstr
    exact ⟨by omega, str, by rw [List.getD_eq_getElem _ _ hlt, hget]⟩

theorem entries_nodup (hinj : Function.Injective block) : (entriesFrom array block 0).Nodup :=
  (List.Nodup.filter _ (List.nodup_range' 1)).map hinj

end Loop

/-- One array: its entries and then itself, if it is there. -/
def freedOf (array : List (Option CStr)) (block : ℕ → TableBlock) (self : TableBlock) :
    List TableBlock :=
  if array = [] then [] else entriesFrom array block 0 ++ [self]

theorem mem_freedOf {array : List (Option CStr)} {block : ℕ → TableBlock} {self b : TableBlock} :
    b ∈ freedOf array block self ↔
      (∃ i, (∃ str, array[i]? = some (some str)) ∧ block i = b) ∨ array ≠ [] ∧ self = b := by
  unfold freedOf
  split_ifs with h
  · simp [h]
  · rw [List.mem_append, mem_entries, List.mem_singleton, and_iff_right h, eq_comm]

theorem freedOf_nodup {array : List (Option CStr)} {block : ℕ → TableBlock} {self : TableBlock}
    (hinj : Function.Injective block) (hself : ∀ i, block i ≠ self) :
    (freedOf array block self).Nodup := by
  unfold freedOf
  split_ifs
  · exact List.nodup_nil
  · refine List.nodup_append'.2 ⟨entries_nodup hinj, List.nodup_singleton self, ?_⟩
    rw [List.disjoint_singleton, mem_entries]
    rintro ⟨i, -, hi⟩
    exact hself i hi

theorem freeArray_eq {array : List (Option CStr)} (hlen : array.length < 2 ^ 16)
    (block : ℕ → TableBlock) (self : TableBlock) :
    freeArray (2 ^ 16) (some array.length) array block self = some (freedOf array block self) := by
  unfold freeArray freedOf
  split_ifs
  · rfl
  · rw [Option.bind_some, freeLoop_ends hlen (2 ^ 16) 0 (by simpa using hlen)]
    rfl

theorem tableFree_eq {table : CIDBTable} (hnames : table.columnNames.length = table.ncols.toNat)
    (hfields : table.fields.length = table.nrows.toNat * table.ncols.toNat)
    (hfew : table.nrows.toNat * table.ncols.toNat < 2 ^ 16) :
    cidbmsgTableFree (2 ^ 16) table =
      some (freedOf table.columnNames .name .columnNames ++ freedOf table.fields .field .fields,
        ⟨0, 0, [], []⟩) := by
  have hcols := table.ncols.toNat_lt
  have hcount : table.cellCount = some table.fields.length := by
    rw [CIDBTable.cellCount, Nat.mul_comm table.ncols.toNat, hfields]
    exact if_pos (by omega)
  unfold cidbmsgTableFree
  rw [hcount, ← hnames, freeArray_eq (by omega), freeArray_eq (by omega)]
  rfl

theorem freesAll_of_few {table : CIDBTable}
    (hnames : table.columnNames.length = table.ncols.toNat)
    (hfields : table.fields.length = table.nrows.toNat * table.ncols.toNat)
    (hfew : table.nrows.toNat * table.ncols.toNat < 2 ^ 16) : FreesAll table := by
  refine ⟨_, _, tableFree_eq hnames hfields hfew, ?_, fun b => ?_⟩
  · refine List.nodup_append'.2 ⟨freedOf_nodup (fun _ _ h => TableBlock.name.inj h) (by simp),
      freedOf_nodup (fun _ _ h => TableBlock.field.inj h) (by simp), ?_⟩
    intro b hname hfield
    rw [mem_freedOf] at hname hfield
    cases b <;> simp_all
  · rw [List.mem_append, mem_freedOf, mem_freedOf]
    cases b <;> simp [Allocated]

/-- With 65536 cells or more the second loop never ends, or its bound is not defined. -/
theorem not_freesAll_of_many {table : CIDBTable}
    (hfields : table.fields.length = table.nrows.toNat * table.ncols.toNat)
    (hmany : 2 ^ 16 ≤ table.nrows.toNat * table.ncols.toNat) : ¬ FreesAll table := by
  rintro ⟨fuel, freed, hfree, -⟩
  have hne : table.fields ≠ [] := by
    rw [← List.length_pos_iff]
    omega
  obtain ⟨names, -, hfree⟩ := Option.bind_eq_some_iff.1 hfree
  obtain ⟨cells, hcells, -⟩ := Option.map_eq_some_iff.1 hfree
  rw [freeArray, if_neg hne] at hcells
  obtain ⟨count, hcount, hloop⟩ := Option.bind_eq_some_iff.1 hcells
  have hbound : 2 ^ 16 ≤ count := by
    unfold CIDBTable.cellCount at hcount
    dsimp only at hcount
    split_ifs at hcount
    rw [← Option.some.inj hcount, Nat.mul_comm]
    exact hmany
  rw [freeLoop_runs_on hbound] at hloop
  cases hloop

/-- A table as `cidbmsg_read_table` allocates it is freed exactly when it has fewer than 65536
cells. -/
theorem freesAll_iff {table : CIDBTable} (hnames : table.columnNames.length = table.ncols.toNat)
    (hfields : table.fields.length = table.nrows.toNat * table.ncols.toNat) :
    FreesAll table ↔ table.nrows.toNat * table.ncols.toNat < 2 ^ 16 :=
  ⟨fun h => Nat.lt_of_not_le fun hmany => not_freesAll_of_many hfields hmany h,
    freesAll_of_few hnames hfields⟩

def smallTable : CIDBTable :=
  { nrows := 2, ncols := 2, columnNames := [some [110], some [99]]
    fields := [some [65], some [], none, some [66]] }

theorem smallTable_freed : FreesAll smallTable :=
  (freesAll_iff rfl rfl).2 (by decide)

def squareTable : CIDBTable :=
  { nrows := 256, ncols := 256, columnNames := List.replicate 256 (some [])
    fields := List.replicate 65536 (some []) }

theorem squareTable_never_freed : ¬ ∀ table : CIDBTable,
    table.columnNames.length = table.ncols.toNat →
    table.fields.length = table.nrows.toNat * table.ncols.toNat → FreesAll table := by
  intro h
  have hfree := h squareTable List.length_replicate List.length_replicate
  exact not_freesAll_of_many List.length_replicate (by decide) hfree

end Fritz2ci
