import Fritz2ci.Proofs.PayloadRead
import Fritz2ci.Proofs.PayloadWrite

/-! What `cidbmsg_write_message` encodes, `cidbmsg_read_message` gives back, for messages of
the documented shape. -/

namespace Fritz2ci

open CString LittleEndian Stores Reading

/-- A string the format can carry. -/
def Encodable (str : CStr) : Prop := 0 ∉ str ∧ str.length < 2 ^ 16

def EncodableArray (array : List (Option CStr)) : Prop :=
  ∀ s ∈ array, ∃ str, s = some str ∧ Encodable str

/-- A table with names and cells the format can carry, and few enough of them. -/
structure EncodableTable (table : CIDBTable) : Prop where
  names : EncodableArray table.columnNames
  fields : EncodableArray table.fields
  names_length : table.columnNames.length = table.ncols.toNat
  fields_length : table.fields.length = table.nrows.toNat * table.ncols.toNat
  few : table.nrows.toNat * table.ncols.toNat < 2 ^ 16

/-- `nstrings` strings in the list, which may be NULL when there are none. -/
def EncodableStrings (dbmsg : CIDBMessage) (nstrings : ℕ) : Prop :=
  (dbmsg.stringlist.getD []).length = nstrings ∧ EncodableArray (dbmsg.stringlist.getD [])

def DocumentedQuery (dbmsg : CIDBMessage) : CIDBMsgCmd → Prop
  | .callerList => EncodableStrings dbmsg 1
  | .readCaller => EncodableStrings dbmsg 1 ∧ dbmsg.flags.toNat < 2 ^ 16
  | .writeCaller => EncodableTable dbmsg.table ∧ dbmsg.flags.toNat < 2 ^ 16
  | .writeCall => EncodableTable dbmsg.table
  | .describeTable => EncodableStrings dbmsg 1
  | .deleteCaller => EncodableStrings dbmsg 2 ∧ dbmsg.nstrings = 2
  | _ => True

def DocumentedResponse (dbmsg : CIDBMessage) : CIDBMsgCmd → Prop
  | .callerList => EncodableTable dbmsg.table
  | .readCaller => EncodableTable dbmsg.table
  | .callList => EncodableTable dbmsg.table
  | .showtables => EncodableStrings dbmsg dbmsg.nstrings.toNat
  | .describeTable => EncodableStrings dbmsg dbmsg.nstrings.toNat
  | _ => True

/-- A message of the shape the documentation of its command asks for. -/
def Documented (dbmsg : CIDBMessage) : Prop :=
  ∃ c : CIDBMsgCmd, dbmsg.cmd = c.code ∧
    (dbmsg.subcmd = CIDBMSG_SUBCMD_QUERY ∧ DocumentedQuery dbmsg c ∨
      dbmsg.subcmd = CIDBMSG_SUBCMD_RESP ∧ DocumentedResponse dbmsg c)

/-- The fields of a message that the layout of a query carries, in a message with no others. -/
def carriedByQuery (dbmsg : CIDBMessage) (c : CIDBMsgCmd) : CIDBMessage :=
  let none := CIDBMessage.ofCmd dbmsg.cmd dbmsg.subcmd
  match c with
  | .register => none
  | .callerList =>
    { none with userid := dbmsg.userid, nstrings := 1, stringlist := dbmsg.stringlist }
  | .readCaller =>
    { none with
      userid := dbmsg.userid, flags := dbmsg.flags, nstrings := 1, stringlist := dbmsg.stringlist }
  | .writeCaller =>
    { none with userid := dbmsg.userid, flags := dbmsg.flags, table := dbmsg.table }
  | .writeCall => { none with table := dbmsg.table }
  | .callList => { none with offset := dbmsg.offset, count := dbmsg.count }
  | .showtables => none
  | .describeTable => { none with nstrings := 1, stringlist := dbmsg.stringlist }
  | .deleteCaller =>
    { none with userid := dbmsg.userid, nstrings := 2, stringlist := dbmsg.stringlist }
  | .listInfo => none
  | .listen => { none with mask := dbmsg.mask }

def carriedByResponse (dbmsg : CIDBMessage) (c : CIDBMsgCmd) : CIDBMessage :=
  let none := { CIDBMessage.ofCmd dbmsg.cmd dbmsg.subcmd with errcode := dbmsg.errcode }
  -- a list without strings arrives as NULL
  let strings := { none with
    nstrings := dbmsg.nstrings
    stringlist := if dbmsg.nstrings = 0 then .none else dbmsg.stringlist }
  match c with
  | .register => { none with clientid := dbmsg.clientid }
  | .callerList => { none with table := dbmsg.table }
  | .readCaller => { none with table := dbmsg.table }
  | .writeCaller => { none with index := dbmsg.index }
  | .writeCall => { none with index := dbmsg.index }
  | .callList => { none with table := dbmsg.table }
  | .showtables => strings
  | .describeTable => strings
  | .deleteCaller => none
  | .listInfo => { none with maxentries := dbmsg.maxentries }
  | .listen => none

theorem CIDBMsgCmd.ofCode_code (c : CIDBMsgCmd) : CIDBMsgCmd.ofCode c.code = some c := by
  cases c <;> rfl

theorem strlen_of_encodable {str : CStr} (h : Encodable str) :
    (strlen (some str)).toNat = str.length := by
  unfold strlen
  rw [UInt16.toNat_ofNat', Option.getD_some, Nat.mod_eq_of_lt h.2]

theorem lengthWord_lengthBytes (len : UInt16) : LengthWord (lengthBytes len) len := by
  unfold lengthBytes
  split_ifs with h
  · exact Or.inr rfl
  · have hlt : len.toNat < 255 := by
      rw [UInt16.le_iff_toNat_le] at h
      exact Nat.lt_of_not_le h
    have hbyte : len.toUInt8.toNat = len.toNat := by
      rw [UInt16.toNat_toUInt8]
      omega
    refine Or.inl ⟨len.toUInt8, fun he => ?_, rfl, ?_⟩
    · rw [he] at hbyte
      exact absurd hbyte (by simp; omega)
    · apply UInt16.toNat_inj.1
      rw [UInt8.toNat_toUInt16, hbyte]

theorem stringWord_stringBytes {str : CStr} (h : Encodable str) :
    StringWord (stringBytes (some str)) str := by
  have hlen := strlen_of_encodable h
  refine ⟨_, _, str, lengthWord_lengthBytes _, hlen.symm, ?_, (ofBuffer_eq_self h.1).symm⟩
  rw [stringBytes, Option.getD_some, hlen, List.take_length]

theorem strings_of_encodable {array : List (Option CStr)} (h : EncodableArray array) :
    ∃ strs : List CStr, array = strs.map some ∧ ∀ str ∈ strs, Encodable str := by
  induction array with
  | nil => exact ⟨[], rfl, by simp⟩
  | cons s array ih =>
    obtain ⟨str, rfl, hs⟩ := h s (by simp)
    obtain ⟨strs, rfl, hstrs⟩ := ih fun t ht => h t (by simp [ht])
    exact ⟨str :: strs, rfl, by simpa using ⟨hs, hstrs⟩⟩

theorem map_entry (stray : ℕ → Option CStr) {array : List (Option CStr)} {n : ℕ}
    (h : array.length = n) : (List.range n).map (entry stray array) = array := by
  subst h
  apply List.ext_getElem (by simp)
  intro i h₁ h₂
  simp [entry, h₂]

theorem manyOf_strings {strs : List CStr} (h : ∀ str ∈ strs, Encodable str) :
    ManyOf StringWord strs.length ((strs.map some).flatMap stringBytes) strs := by
  have hm := manyOf_flatMap (f := fun str => stringBytes (some str)) (g := id)
    fun str hs => stringWord_stringBytes (h str hs)
  rw [List.map_id] at hm
  rwa [List.flatMap_map]

section Table

variable (stray : ℕ → Option CStr) {nrows ncols : UInt16} {cells : List CStr}

/-- Row `i` of a table whose cells stand row by row. -/
def rowOf (cells : List CStr) (ncols i : ℕ) : List CStr :=
  (List.range ncols).map fun j => cells.getD (i * ncols + j) []

theorem index_lt {m n i j : ℕ} (hi : i < m) (hj : j < n) : i * n + j < m * n := by
  have h := Nat.mul_le_mul_right n hi
  rw [Nat.succ_mul] at h
  omega

theorem rowOffset_eq (hrows : (nrows.toNat - 1) * ncols.toNat < 2 ^ 16) {i : ℕ}
    (hi : i < nrows.toNat) : i * ncols.toNat % 2 ^ 16 = i * ncols.toNat := by
  have h := Nat.mul_le_mul_right ncols.toNat (Nat.le_sub_one_of_lt hi)
  exact Nat.mod_eq_of_lt (by omega)

theorem rowsIndexed_of_rows (hrows : (nrows.toNat - 1) * ncols.toNat < 2 ^ 16) :
    RowsIndexed nrows ncols := hrows.trans (by decide)

theorem visited_row (hlen : cells.length = nrows.toNat * ncols.toNat)
    (hrows : (nrows.toNat - 1) * ncols.toNat < 2 ^ 16) {i : ℕ} (hi : i < nrows.toNat) :
    ((List.range ncols.toNat).map fun j =>
        entry stray (cells.map some) (i * ncols.toNat % 2 ^ 16 + j)) =
      (rowOf cells ncols.toNat i).map some := by
  rw [rowOf, List.map_map, rowOffset_eq hrows hi]
  refine List.map_congr_left fun j hj => ?_
  have h : i * ncols.toNat + j < cells.length := hlen ▸ index_lt hi (List.mem_range.1 hj)
  simp [entry, h]

/-- The array that rows, read in order, are assigned to. -/
theorem placeFields_eq (h : RowsIndexed nrows ncols) (row : ℕ → List CStr) :
    placeFields stray nrows ncols ((List.range nrows.toNat).map row) =
      some ((List.range (nrows.toNat * ncols.toNat)).map (applyAll stray
        ((List.range nrows.toNat).map fun i =>
          ⟨i * ncols.toNat % 2 ^ 16, (row i).map some⟩))) := by
  rw [placeFields, rowidxs_eq, if_pos h, Option.map_some, List.zip_map', List.map_map]
  rfl

theorem placeFields_rows (hlen : cells.length = nrows.toNat * ncols.toNat)
    (hrows : (nrows.toNat - 1) * ncols.toNat < 2 ^ 16) :
    placeFields stray nrows ncols ((List.range nrows.toNat).map (rowOf cells ncols.toNat)) =
      some (cells.map some) := by
  rw [placeFields_eq stray (rowsIndexed_of_rows hrows), Option.some.injEq]
  apply List.ext_getElem (by simp [hlen])
  intro k h₁ h₂
  rw [List.getElem_map, List.getElem_range, List.getElem_map]
  rw [List.length_map] at h₂
  have hk : k < nrows.toNat * ncols.toNat := hlen ▸ h₂
  have hcols : 0 < ncols.toNat := Nat.pos_of_ne_zero fun h => by simp [h] at hk
  refine (applyAll_eq_of_agree stray (fun k => some (cells.getD k [])) ?_ ?_).trans (by simp [h₂])
  · intro s hs j hj
    obtain ⟨i, hi, rfl⟩ := List.mem_map.1 hs
    simp only [rowOffset_eq hrows (List.mem_range.1 hi)]
    simp [rowOf]
  · have hi : k / ncols.toNat < nrows.toNat := Nat.div_lt_of_lt_mul (by rwa [Nat.mul_comm])
    have hdiv := Nat.div_add_mod' k ncols.toNat
    have hmod := Nat.mod_lt k hcols
    refine mem_offsets.2 ⟨_, List.mem_map.2 ⟨k / ncols.toNat, List.mem_range.2 hi, rfl⟩, ?_⟩
    simp only [rowOffset_eq hrows hi, rowOf, List.length_map, List.length_range]
    omega

theorem tableBytes_eq {table : CIDBTable} {names : List CStr}
    (hnames : table.columnNames = names.map some) (hfields : table.fields = cells.map some)
    (hn : names.length = table.ncols.toNat)
    (hlen : cells.length = table.nrows.toNat * table.ncols.toNat)
    (hrows : (table.nrows.toNat - 1) * table.ncols.toNat < 2 ^ 16) :
    tableBytes stray table = bytes16 table.nrows ++ bytes16 table.ncols ++
      (names.map some).flatMap stringBytes ++
      (List.range table.nrows.toNat).flatMap fun i =>
        ((rowOf cells table.ncols.toNat i).map some).flatMap stringBytes := by
  unfold tableBytes tableStrings CIDBTable.names
  rw [hnames, hfields, map_entry stray (by simpa using hn), List.flatMap_append,
    ← List.append_assoc, List.flatMap_assoc]
  congr 1
  refine List.flatMap_congr fun i hi => ?_
  rw [visited_row stray hlen hrows (List.mem_range.1 hi)]

/-- The bytes of a table whose row offsets fit 16 bits are a word of the layout, with its
cells in rows. -/
theorem tableWord_of_rows {table : CIDBTable} (hnames : EncodableArray table.columnNames)
    (hfields : EncodableArray table.fields)
    (hnlen : table.columnNames.length = table.ncols.toNat)
    (hflen : table.fields.length = table.nrows.toNat * table.ncols.toNat)
    (hrows : (table.nrows.toNat - 1) * table.ncols.toNat < 2 ^ 16) :
    ∃ names rows, TableWord (tableBytes stray table) table.nrows table.ncols names rows ∧
      names.map some = table.columnNames ∧
      ∀ stray', placeFields stray' table.nrows table.ncols rows = some table.fields := by
  obtain ⟨names, hnames, hn⟩ := strings_of_encodable hnames
  obtain ⟨cells, hcells, hc⟩ := strings_of_encodable hfields
  rw [hcells, List.length_map] at hflen
  rw [hnames, List.length_map] at hnlen
  have hrow : ∀ i ∈ List.range table.nrows.toNat, ManyOf StringWord table.ncols.toNat
      (((rowOf cells table.ncols.toNat i).map some).flatMap stringBytes)
      (rowOf cells table.ncols.toNat i) := by
    intro i hi
    have hstrs : ∀ str ∈ rowOf cells table.ncols.toNat i, Encodable str := by
      intro str hs
      obtain ⟨j, hj, rfl⟩ := List.mem_map.1 hs
      have hlt := hflen ▸ index_lt (List.mem_range.1 hi) (List.mem_range.1 hj)
      rw [List.getD_eq_getElem _ _ hlt]
      exact hc _ (List.getElem_mem hlt)
    simpa [rowOf] using manyOf_strings hstrs
  have hmany := manyOf_flatMap hrow
  rw [List.length_range] at hmany
  exact ⟨names, _, ⟨_, _, tableBytes_eq stray hnames hcells hnlen hflen hrows,
    hnlen ▸ manyOf_strings hn, hmany⟩, hnames.symm,
    fun stray' => (placeFields_rows stray' hflen hrows).trans (congrArg some hcells.symm)⟩

theorem EncodableTable.rows {table : CIDBTable} (h : EncodableTable table) :
    (table.nrows.toNat - 1) * table.ncols.toNat < 2 ^ 16 :=
  (Nat.mul_le_mul_right _ (Nat.sub_le ..)).trans_lt h.few

theorem EncodableTable.countable {table : CIDBTable} (h : EncodableTable table) :
    Countable stray table := by
  refine ⟨fun hnull => ?_, rowsIndexed_of_rows h.rows⟩
  rw [CIDBTable.names, map_entry stray h.names_length] at hnull
  obtain ⟨str, hstr, -⟩ := h.names none hnull
  cases hstr

theorem tableWord_tableBytes {table : CIDBTable} (h : EncodableTable table) :
    ∃ names rows, TableWord (tableBytes stray table) table.nrows table.ncols names rows ∧
      names.map some = table.columnNames ∧
      ∀ stray', placeFields stray' table.nrows table.ncols rows = table.fields :=
  tableWord_of_rows stray h.names h.fields h.names_length h.fields_length h.rows

end Table

section Read

variable (stray stray' : ℕ → Option CStr) {dbmsg r : CIDBMessage} {mem : ℕ → UInt8}

theorem isSome_of_encodable {n : ℕ} (h : EncodableStrings dbmsg n) (hn : n ≠ 0) :
    dbmsg.stringlist.isSome := by
  cases hl : dbmsg.stringlist with
  | none =>
    have hlen := h.1
    rw [hl] at hlen
    exact absurd hlen.symm hn
  | some list => rfl

theorem val_readFirst (off : ℕ) (h : EncodableStrings dbmsg 1)
    (hmem : StartsWith (fun i => mem (off + i)) (stringBytes (dbmsg.string stray 0))) :
    val (readFirst off r) mem = some { r with nstrings := 1, stringlist := dbmsg.stringlist } := by
  obtain ⟨list, hl⟩ := Option.isSome_iff_exists.1 (isSome_of_encodable h (by decide))
  obtain ⟨hlen, henc⟩ := h
  simp only [hl, Option.getD_some] at hlen henc
  obtain ⟨s, rfl⟩ := List.length_eq_one_iff.1 hlen
  obtain ⟨str, rfl, hstr⟩ := henc s (by simp)
  have hs : dbmsg.string stray 0 = some str := by simp [CIDBMessage.string, entry, hl]
  rw [hs] at hmem
  simp only [readFirst, val_bind, val_skip, (readString_reads (stringWord_stringBytes hstr) hmem).1,
    val_pure, hl]

theorem val_readTableAt (off : ℕ) {table : CIDBTable} (h : EncodableTable table)
    (hp : (tableBytes stray table).length < 2 ^ 32)
    (hmem : StartsWith (fun i => mem (off + i)) (tableBytes stray table)) :
    val (readTableAt stray' off r) mem = some { r with table } := by
  obtain ⟨names, rows, hw, hnames, hrows⟩ := tableWord_tableBytes stray h
  simp only [readTableAt, val_bind, val_skip, (readTable_reads stray' hw hp hmem).1, val_pure,
    hnames, hrows, Option.map_some]

theorem stringsBytes_eq (h : EncodableStrings dbmsg dbmsg.nstrings.toNat) :
    stringsBytes stray dbmsg =
      bytes16 dbmsg.nstrings ++ (dbmsg.stringlist.getD []).flatMap stringBytes := by
  have he := map_entry stray h.1
  rw [stringsBytes, ← List.flatMap_map (dbmsg.string stray) stringBytes]
  exact congrArg (fun l => bytes16 dbmsg.nstrings ++ l.flatMap stringBytes) he

theorem optionalStringsBytes_eq (h : EncodableStrings dbmsg dbmsg.nstrings.toNat) :
    optionalStringsBytes stray dbmsg = stringsBytes stray dbmsg := by
  unfold optionalStringsBytes
  split_ifs with hl
  · rfl
  · have hnone := Option.not_isSome_iff_eq_none.1 hl
    have h0 : dbmsg.nstrings = 0 := by
      apply UInt16.toNat_inj.1
      rw [← h.1, hnone]
      rfl
    rw [stringsBytes, h0]
    rfl

theorem val_readStrings (h : EncodableStrings dbmsg dbmsg.nstrings.toNat)
    (hp : 2 + (stringsBytes stray dbmsg).length < 2 ^ 32) (hr : r.stringlist = none)
    (hmem : StartsWith (fun i => mem (2 + i)) (stringsBytes stray dbmsg)) :
    val (readStrings r) mem = some { r with
      nstrings := dbmsg.nstrings
      stringlist := if dbmsg.nstrings = 0 then none else dbmsg.stringlist } := by
  rw [stringsBytes_eq stray h] at hp hmem
  obtain ⟨strs, hstrs, henc⟩ := strings_of_encodable h.2
  have hm := manyOf_strings henc
  have hlen : strs.length = dbmsg.nstrings.toNat := by rw [← h.1, hstrs, List.length_map]
  rw [List.length_append, length_bytes16] at hp
  rw [hlen, ← hstrs] at hm
  rw [(readStrings_reads r hm (by omega) hmem).1, hr]
  split_ifs with h0
  · rfl
  · cases hl : dbmsg.stringlist with
    | none =>
      have hzero := h.1
      rw [hl] at hzero
      exact absurd (UInt16.toNat_inj.1 hzero.symm) h0
    | some list => rw [← hstrs, hl, Option.getD_some]

theorem flags_kept (h : dbmsg.flags.toNat < 2 ^ 16) :
    dbmsg.flags.toUInt16.toUInt32 = dbmsg.flags := by
  apply UInt32.toNat_inj.1
  rw [UInt16.toNat_toUInt32, UInt32.toNat_toUInt16, Nat.mod_eq_of_lt h]

theorem firstString_eq (h : EncodableStrings dbmsg 1) :
    firstString stray dbmsg = dbmsg.string stray 0 := by
  exact if_pos (isSome_of_encodable h (by decide))

theorem readQuery_payload {c : CIDBMsgCmd} (hd : DocumentedQuery dbmsg c)
    (hp : (queryPayload stray dbmsg c).length < 2 ^ 32)
    (hmem : StartsWith mem (queryPayload stray dbmsg c)) :
    val (readQuery stray' false (CIDBMessage.ofCmd dbmsg.cmd dbmsg.subcmd) c) mem =
      some (carriedByQuery dbmsg c) := by
  have h0 : ∀ {x}, StartsWith mem x → StartsWith (fun i => mem (0 + i)) x := by
    simp only [Nat.zero_add, imp_self, implies_true]
  cases c with
  | register | showtables | listInfo => rfl
  | callerList =>
    obtain ⟨hu, hs⟩ := startsWith_append.1 hmem
    rw [firstString_eq stray hd] at hs
    rw [readQuery, val_bind, val_getUshort 0 (h0 hu), val_readFirst stray 2 hd hs]
    rfl
  | readCaller =>
    obtain ⟨hu, hs⟩ := startsWith_append.1 hmem
    obtain ⟨hu, hf⟩ := startsWith_append.1 hu
    rw [firstString_eq stray hd.1] at hs
    rw [readQuery, val_bind, val_bind, val_getUshort 0 (h0 hu), val_getUshort 2 hf,
      flags_kept hd.2, val_readFirst stray 4 hd.1 hs]
    rfl
  | writeCaller =>
    obtain ⟨hu, ht⟩ := startsWith_append.1 hmem
    obtain ⟨hu, hf⟩ := startsWith_append.1 hu
    simp only [queryPayload, List.length_append] at hp
    rw [readQuery, val_bind, val_bind, val_getUshort 0 (h0 hu), val_getUshort 2 hf,
      flags_kept hd.2, val_readTableAt stray stray' 4 hd.1 (by omega) ht]
    rfl
  | writeCall => exact val_readTableAt stray stray' 0 hd hp (h0 hmem)
  | callList =>
    obtain ⟨ho, hc⟩ := startsWith_append.1 hmem
    rw [readQuery, val_bind, val_bind, val_getUlong 0 (h0 ho), val_getUshort 4 hc]
    rfl
  | describeTable =>
    rw [queryPayload, if_pos (isSome_of_encodable hd (by decide))] at hmem
    exact val_readFirst stray 0 hd (h0 hmem)
  | deleteCaller =>
    obtain ⟨hu, hs⟩ := startsWith_append.1 hmem
    obtain ⟨henc, hn⟩ := hd
    have henc : EncodableStrings dbmsg dbmsg.nstrings.toNat := by rw [hn]; exact henc
    simp only [queryPayload, List.length_append, length_bytes16] at hp
    rw [readQuery, val_bind, val_getUshort 0 (h0 hu), val_readStrings stray henc hp rfl hs, hn]
    rfl
  | listen =>
    rw [readQuery, val_bind, val_getUlong 0 (h0 hmem)]
    rfl

theorem readResp_payload {c : CIDBMsgCmd} (hd : DocumentedResponse dbmsg c)
    (hp : (respPayload stray dbmsg c).length < 2 ^ 32)
    (hmem : StartsWith mem (respPayload stray dbmsg c)) :
    val (readResp stray' (CIDBMessage.ofCmd dbmsg.cmd dbmsg.subcmd) c) mem =
      some (carriedByResponse dbmsg c) := by
  have h0 : ∀ {x}, StartsWith mem x → StartsWith (fun i => mem (0 + i)) x := by
    simp only [Nat.zero_add, imp_self, implies_true]
  cases c with
  | register =>
    obtain ⟨he, hc⟩ := startsWith_append.1 hmem
    rw [readResp, val_bind, val_getUshort 0 (h0 he)]
    dsimp only
    rw [val_bind, val_getUshort 2 hc]
    rfl
  | callerList | readCaller | callList =>
    obtain ⟨he, ht⟩ := startsWith_append.1 hmem
    simp only [respPayload, List.length_append] at hp
    rw [readResp, val_bind, val_getUshort 0 (h0 he)]
    exact val_readTableAt stray stray' 2 hd (by omega) ht
  | writeCaller | writeCall | listInfo =>
    obtain ⟨he, hv⟩ := startsWith_append.1 hmem
    rw [readResp, val_bind, val_getUshort 0 (h0 he)]
    dsimp only
    rw [val_bind, val_getUlong 2 hv]
    rfl
  | showtables | describeTable =>
    obtain ⟨he, hs⟩ := startsWith_append.1 hmem
    simp only [respPayload, List.length_append, optionalStringsBytes_eq stray hd] at hp hs
    rw [readResp, val_bind, val_getUshort 0 (h0 he)]
    exact val_readStrings stray hd hp rfl hs
  | deleteCaller | listen =>
    rw [readResp, val_bind, val_getUshort 0 (h0 hmem)]
    rfl

end Read

theorem fills_memory {stores : List (Store UInt8)} {x : List UInt8} (h : Fills stores x)
    (hx : x.length < 2 ^ 32) (m : ℕ → UInt8) : StartsWith (applyAll m stores) x := by
  intro i hi
  rw [applyAll_of_tiles (h.tiles hx), h.content hx, if_pos (Nat.zero_le i), Nat.sub_zero,
    List.getD_eq_getElem _ _ hi]

theorem writeMessage_msg (stray : ℕ → Option CStr) {dbmsg : CIDBMessage} (fresh : ℕ → UInt8)
    (prior : CIDBMsg) {size : ℕ} (hs : sizePass stray dbmsg = some (some size))
    (hp : (payload stray dbmsg).length < 2 ^ 32)
    (hsize : size % 2 ^ 32 = (payload stray dbmsg).length) :
    ∃ e, cidbmsgWriteMessage stray dbmsg fresh prior = some e ∧
      e.msg.header = encodedHeader dbmsg size prior ∧
      StartsWith e.msg.memory (payload stray dbmsg) ∧
      (e.msg.data.isNone = true → payload stray dbmsg = []) := by
  have hzero : UInt32.ofNat size = 0 ↔ payload stray dbmsg = [] := by
    rw [← UInt32.toNat_inj, ← List.length_eq_zero_iff, ← hsize]
    rfl
  by_cases h0 : UInt32.ofNat size = 0
  · refine ⟨_, writeMessage_empty stray dbmsg hs h0 fresh prior, rfl, ?_, fun _ => hzero.1 h0⟩
    rw [hzero.1 h0]
    exact startsWith_nil _
  · obtain ⟨pass, hw⟩ := writePass_isSome stray dbmsg hs
    exact ⟨_, writeMessage_block stray dbmsg hs h0 hw fresh prior, rfl,
      fills_memory (fills_writePass stray dbmsg hw) hp fresh, fun h => nomatch h⟩

theorem sizesMatch_of_documented {dbmsg : CIDBMessage} {c : CIDBMsgCmd}
    (h : DocumentedQuery dbmsg c) : SizesMatch dbmsg c := by
  refine ⟨fun hc => ?_, fun hc => ?_⟩ <;> subst hc
  · exact isSome_of_encodable h (by decide)
  · exact ⟨isSome_of_encodable h.1 (by decide), h.2⟩

/-- A query without payload is one that is decoded alike with and without data. -/
theorem queryPayload_nil {stray : ℕ → Option CStr} {dbmsg : CIDBMessage} {c : CIDBMsgCmd}
    (h : queryPayload stray dbmsg c = []) : ¬ (c = .writeCall ∨ c = .describeTable) := by
  rintro (rfl | rfl)
  · simp [queryPayload, tableBytes, bytes16] at h
  · by_cases hl : dbmsg.stringlist.isSome
    · have hlen := stringBytes_length_textSize (dbmsg.string stray 0)
      rw [queryPayload, if_pos hl] at h
      rw [h, List.length_nil] at hlen
      omega
    · simp [queryPayload, hl, bytes16] at h

/-- The fields of a message that the layout of its command carries. -/
def carried (dbmsg : CIDBMessage) : CIDBMessage :=
  match CIDBMsgCmd.ofCode dbmsg.cmd with
  | none => CIDBMessage.ofCmd dbmsg.cmd dbmsg.subcmd
  | some c =>
    if dbmsg.subcmd = CIDBMSG_SUBCMD_QUERY then carriedByQuery dbmsg c
    else carriedByResponse dbmsg c

theorem querySize_of_documented {dbmsg : CIDBMessage} {c : CIDBMsgCmd}
    (h : DocumentedQuery dbmsg c) (stray : ℕ → Option CStr) :
    ∃ size, querySize stray dbmsg c = some size := by
  rw [← Option.isSome_iff_exists, querySize_isSome]
  cases c with
  | writeCaller => exact fun _ => h.1.countable stray
  | writeCall => exact fun _ => EncodableTable.countable stray h
  | _ => exact fun hsome => nomatch hsome

theorem respSize_of_documented {dbmsg : CIDBMessage} {c : CIDBMsgCmd}
    (h : DocumentedResponse dbmsg c) (stray : ℕ → Option CStr) :
    ∃ size, respSize stray dbmsg c = some size := by
  rw [← Option.isSome_iff_exists, respSize_isSome]
  cases c with
  | callerList | readCaller | callList => exact fun _ => EncodableTable.countable stray h
  | _ => exact fun hsome => nomatch hsome

/-- Reading back what was written, whatever the buffers held before. -/
theorem read_writeMessage (stray stray' : ℕ → Option CStr) {dbmsg : CIDBMessage}
    (fresh : ℕ → UInt8) (prior : CIDBMsg) (h : Documented dbmsg)
    (hp : (payload stray dbmsg).length < 2 ^ 32) :
    ∃ e, cidbmsgWriteMessage stray dbmsg fresh prior = some e ∧
      e.msg.read stray' = some (carried dbmsg) := by
  obtain ⟨c, hcmd, h⟩ := h
  have hc : CIDBMsgCmd.ofCode dbmsg.cmd = some c := hcmd ▸ CIDBMsgCmd.ofCode_code c
  rcases h with ⟨hq, hd⟩ | ⟨hr, hd⟩
  · obtain ⟨size, hquery⟩ := querySize_of_documented hd stray
    have hs : sizePass stray dbmsg = some (some size) := by
      simp only [sizePass, hc, if_pos hq, hquery]
    have hpay : payload stray dbmsg = queryPayload stray dbmsg c := by
      simp only [payload, hc, if_pos hq]
    rw [hpay] at hp
    have hsize := querySize_eq stray dbmsg hquery (sizesMatch_of_documented hd)
    rw [Nat.mod_eq_of_lt hp, ← hpay] at hsize
    rw [← hpay] at hp
    obtain ⟨e, he, hheader, hmem, hnull⟩ := writeMessage_msg stray fresh prior hs hp hsize
    rw [hpay] at hp hmem hnull
    refine ⟨e, he, ?_⟩
    unfold CIDBMsg.read cidbmsgReadMessage carried
    simp only [hheader, encodedHeader, hc, if_pos hq]
    rw [← readQuery_payload stray stray' hd hp hmem]
    cases hnone : e.msg.data.isNone with
    | true => rw [readQuery_null stray' _ (queryPayload_nil (hnull hnone))]
    | false => rfl
  · obtain ⟨size, hresp⟩ := respSize_of_documented hd stray
    have hnq : dbmsg.subcmd ≠ CIDBMSG_SUBCMD_QUERY := by rw [hr]; decide
    have hs : sizePass stray dbmsg = some (some size) := by
      simp only [sizePass, hc, if_neg hnq, if_pos (Or.inl hr), hresp]
    have hpay : payload stray dbmsg = respPayload stray dbmsg c := by
      simp only [payload, hc, if_neg hnq]
    rw [hpay] at hp
    have hsize := respSize_eq stray dbmsg hresp
    rw [Nat.mod_eq_of_lt hp, ← hpay] at hsize
    rw [← hpay] at hp
    obtain ⟨e, he, hheader, hmem, -⟩ := writeMessage_msg stray fresh prior hs hp hsize
    rw [hpay] at hp hmem
    refine ⟨e, he, ?_⟩
    unfold CIDBMsg.read cidbmsgReadMessage carried
    simp only [hheader, encodedHeader, hc, if_neg hnq, if_pos hr]
    exact readResp_payload stray stray' hd hp hmem

def oneCaller : CIDBMessage := { CIDBMessage.ofCmd 0x04 0x80 with
  userid := 3, flags := 1, table := ⟨1, 2, [some [110], some [99]], [some [65, 66], some []]⟩ }

theorem oneCaller_documented : Documented oneCaller :=
  ⟨.writeCaller, rfl, Or.inl ⟨rfl, ⟨by simp [EncodableArray, Encodable, oneCaller],
    by simp [EncodableArray, Encodable, oneCaller], rfl, rfl, by decide⟩, by decide⟩⟩

theorem oneCaller_restored : ∃ e,
    cidbmsgWriteMessage (fun _ => none) oneCaller (fun _ => 0) noMessage = some e ∧
      e.msg.read (fun _ => none) = some oneCaller :=
  read_writeMessage _ _ _ _ oneCaller_documented (by decide)

end Fritz2ci
