import Fritz2ci.Proofs.PayloadRoundTrip

/-! What `cidbmsg_write_table` encodes, `cidbmsg_read_table` gives back, for the tables whose
row offsets fit the 16 bits in which both functions count them. -/

namespace Fritz2ci

open CString LittleEndian Stores Reading

/-- The size of an encoding with every name and every cell in it. -/
def encodedSize (table : CIDBTable) : ℕ :=
  4 + ((table.columnNames ++ table.fields).flatMap stringBytes).length

/-- A table without NULL entries, each of them short enough for a length of 16 bits. -/
structure WritableTable (table : CIDBTable) : Prop where
  names : EncodableArray table.columnNames
  fields : EncodableArray table.fields
  names_length : table.columnNames.length = table.ncols.toNat
  fields_length : table.fields.length = table.nrows.toNat * table.ncols.toNat
  size : encodedSize table < 2 ^ 32

/-- Whatever the buffer and the new arrays held before, reading gives the table that was
written and takes as many bytes as writing reported. -/
def TableRestored (table : CIDBTable) : Prop :=
  ∀ (stray stray' : ℕ → Option CStr) (buffer : ℕ → UInt8),
    ∃ stores bytes, cidbmsgWriteTable stray table = some (stores, bytes) ∧
      val (cidbmsgReadTable stray') (applyAll buffer stores) = some (table, bytes)

theorem flatMap_rows {α : Type*} (d : α) (n : ℕ) :
    ∀ (m : ℕ) (l : List α), l.length = m * n →
      ((List.range m).flatMap fun i => (List.range n).map fun j => l.getD (i * n + j) d) = l := by
  intro m
  induction m with
  | zero =>
    intro l hl
    rw [Nat.zero_mul] at hl
    exact (List.length_eq_zero_iff.1 hl).symm
  | succ m ih =>
    intro l hl
    rw [Nat.succ_mul] at hl
    have hfirst : (l.take (m * n)).length = m * n := by rw [List.length_take]; omega
    have hrows : ((List.range m).flatMap fun i => (List.range n).map fun j =>
        l.getD (i * n + j) d) = l.take (m * n) := by
      refine Eq.trans ?_ (ih _ hfirst)
      refine List.flatMap_congr fun i hi => List.map_congr_left fun j hj => ?_
      have hlt := index_lt (List.mem_range.1 hi) (List.mem_range.1 hj)
      simp only [List.getD_eq_getElem?_getD, List.getElem?_take_of_lt hlt]
    have hlast : ((List.range n).map fun j => l.getD (m * n + j) d) = l.drop (m * n) := by
      apply List.ext_getElem (by simp; omega)
      intro j h₁ h₂
      rw [List.length_drop] at h₂
      rw [List.getElem_map, List.getElem_range, List.getElem_drop,
        List.getD_eq_getElem _ _ (by omega)]
    rw [List.range_succ, List.flatMap_append, hrows, List.flatMap_singleton, hlast,
      List.take_append_drop]

theorem tableStrings_eq (stray : ℕ → Option CStr) {table : CIDBTable} (h : WritableTable table)
    (hrows : (table.nrows.toNat - 1) * table.ncols.toNat < 2 ^ 16) :
    tableStrings stray table = table.columnNames ++ table.fields := by
  unfold tableStrings CIDBTable.names
  rw [map_entry stray h.names_length]
  congr 1
  refine Eq.trans ?_ (flatMap_rows none table.ncols.toNat table.nrows.toNat _ h.fields_length)
  refine List.flatMap_congr fun i hi => List.map_congr_left fun j hj => ?_
  have hlt := h.fields_length ▸ index_lt (List.mem_range.1 hi) (List.mem_range.1 hj)
  rw [rowOffset_eq hrows (List.mem_range.1 hi), entry, List.getD_eq_getElem _ _ hlt,
    List.getD_eq_getElem _ _ hlt]

theorem tableRestored_of_rows {table : CIDBTable} (h : WritableTable table)
    (hrows : (table.nrows.toNat - 1) * table.ncols.toNat < 2 ^ 16) : TableRestored table := by
  intro stray stray' buffer
  have hlen : (tableBytes stray table).length < 2 ^ 32 := by
    rw [tableBytes, tableStrings_eq stray h hrows, List.length_append]
    exact h.size
  obtain ⟨names, rows, hword, hnames, hplace⟩ :=
    tableWord_of_rows stray h.names h.fields h.names_length h.fields_length hrows
  have hsome := (writeTable_isSome stray table).2 (rowsIndexed_of_rows hrows)
  obtain ⟨⟨stores, bytes⟩, hwrite⟩ := Option.isSome_iff_exists.1 hsome
  obtain ⟨hfills, rfl⟩ := fills_writeTable hwrite
  have hmem := fills_memory hfills hlen buffer
  refine ⟨stores, _, hwrite, ?_⟩
  rw [(readTable_reads stray' hword hlen hmem).1, hplace, Option.map_some, Nat.mod_eq_of_lt hlen,
    hnames]

/-- The reader stores to no cell from 65536 and a row on. -/
theorem placeFields_untouched {stray : ℕ → Option CStr} {nrows ncols : UInt16}
    {rows : List (List CStr)} {fields : List (Option CStr)}
    (hfields : placeFields stray nrows ncols rows = some fields)
    (hrows : ∀ row ∈ rows, row.length = ncols.toNat) {k : ℕ}
    (hk : k < nrows.toNat * ncols.toNat) (hfar : 2 ^ 16 + ncols.toNat ≤ k + 1) :
    fields[k]? = some (stray k) := by
  have hindexed := (placeFields_isSome stray nrows ncols rows).1 (by rw [hfields]; rfl)
  rw [placeFields, rowidxs_eq, if_pos hindexed] at hfields
  obtain rfl := Option.some.inj hfields
  rw [List.getElem?_map, List.getElem?_range hk, Option.map_some]
  refine congrArg some (applyAll_of_notMem stray fun hmem => ?_)
  obtain ⟨store, hstore, -, hlt⟩ := mem_offsets.1 hmem
  obtain ⟨⟨idx, row⟩, hrow, rfl⟩ := List.mem_map.1 hstore
  have hlen := hrows row (List.of_mem_zip hrow).2
  obtain ⟨i, -, rfl⟩ := List.mem_map.1 (List.of_mem_zip hrow).1
  have hidx : i * ncols.toNat % 2 ^ 16 < 2 ^ 16 := Nat.mod_lt _ (by decide)
  simp only [List.length_map, hlen] at hlt
  omega

/-- What the reader gives when it reads the dimensions `nrows` and `ncols`. -/
theorem readTable_fields {stray : ℕ → Option CStr} {mem : ℕ → UInt8} {table : CIDBTable}
    {bytes : ℕ} (h : val (cidbmsgReadTable stray) mem = some (table, bytes)) :
    ∃ rows : List (List CStr), (∀ row ∈ rows, row.length = table.ncols.toNat) ∧
      placeFields stray table.nrows table.ncols rows = some table.fields := by
  simp only [cidbmsgReadTable, val_bind, val_pure] at h
  obtain ⟨fields, hfields, htable⟩ := Option.map_eq_some_iff.1 h
  cases htable
  exact ⟨_, many_forall (fun pos => many_length readEntry mem _ pos) _ _, hfields⟩

/-- The last cell of a table with a row behind offset 65535 is left as it was allocated. -/
theorem not_tableRestored {table : CIDBTable} (h : WritableTable table)
    (hrows : 2 ^ 16 ≤ (table.nrows.toNat - 1) * table.ncols.toNat) : ¬ TableRestored table := by
  intro hrestored
  obtain ⟨stores, bytes, -, hread⟩ := hrestored (fun _ => none) (fun _ => none) fun _ => 0
  obtain ⟨rows, hlen, hfields⟩ := readTable_fields hread
  have hpos : 0 < table.nrows.toNat := Nat.pos_of_ne_zero fun h0 => by
    rw [h0, Nat.zero_sub, Nat.zero_mul] at hrows
    omega
  have hcells : (table.nrows.toNat - 1) * table.ncols.toNat + table.ncols.toNat =
      table.nrows.toNat * table.ncols.toNat := by
    rw [← Nat.succ_mul]
    congr 1
    omega
  have hlast : table.nrows.toNat * table.ncols.toNat - 1 < table.fields.length := by
    rw [h.fields_length]
    omega
  have hnone := placeFields_untouched hfields hlen
    (k := table.nrows.toNat * table.ncols.toNat - 1) (by omega) (by omega)
  rw [List.getElem?_eq_getElem hlast] at hnone
  obtain ⟨str, hstr, -⟩ := h.fields _ (List.getElem_mem hlast)
  rw [hstr] at hnone
  cases hnone

/-- A table survives the round trip exactly when the offset of its last row fits 16 bits. -/
theorem tableRestored_iff {table : CIDBTable} (h : WritableTable table) :
    TableRestored table ↔ (table.nrows.toNat - 1) * table.ncols.toNat < 2 ^ 16 :=
  ⟨fun hrestored => Nat.lt_of_not_le fun hrows => not_tableRestored h hrows hrestored,
    tableRestored_of_rows h⟩

theorem oneCaller_writable : WritableTable oneCaller.table where
  names := by simp [EncodableArray, Encodable, oneCaller]
  fields := by simp [EncodableArray, Encodable, oneCaller]
  names_length := rfl
  fields_length := rfl
  size := by decide

theorem oneCaller_table_restored : TableRestored oneCaller.table ↔
    (oneCaller.table.nrows.toNat - 1) * oneCaller.table.ncols.toNat < 2 ^ 16 :=
  tableRestored_iff oneCaller_writable

/-- 257 rows of 256 empty cells: the last row begins at offset 65536. -/
def tallTable : CIDBTable :=
  { nrows := 257, ncols := 256, columnNames := List.replicate 256 (some [])
    fields := List.replicate 65792 (some []) }

theorem encodableArray_replicate (n : ℕ) : EncodableArray (List.replicate n (some [])) := by
  intro s hs
  exact ⟨[], (List.mem_replicate.1 hs).2, by simp [Encodable]⟩

theorem tallTable_cells : tallTable.nrows.toNat * tallTable.ncols.toNat = 65792 := by decide

theorem encodedSize_empty {table : CIDBTable} {m n : ℕ}
    (hnames : table.columnNames = List.replicate m (some []))
    (hfields : table.fields = List.replicate n (some [])) : encodedSize table = 4 + (m + n) := by
  have hcell : (stringBytes (some [])).length = 1 := by decide
  rw [encodedSize, hnames, hfields, ← List.replicate_add, List.length_flatMap, List.map_replicate,
    List.sum_replicate_nat, hcell, Nat.mul_one]

theorem tallTable_writable : WritableTable tallTable where
  names := encodableArray_replicate 256
  fields := encodableArray_replicate 65792
  names_length := List.length_replicate
  fields_length := by
    rw [tallTable_cells]
    exact List.length_replicate
  size := by
    rw [encodedSize_empty (m := 256) (n := 65792) rfl rfl]
    decide

theorem lastRow_lost : ¬ ∀ table, WritableTable table → TableRestored table := fun h =>
  not_tableRestored tallTable_writable (by decide) (h tallTable tallTable_writable)

end Fritz2ci
