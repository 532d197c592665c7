import Fritz2ci.Spec.CIDBLayout

/-! Strings and tables of a CIDB message, written and read: what the writers lay down is
`stringBytes` and `tableBytes`, what the readers accept is `StringWord` and `TableWord`. -/

namespace Fritz2ci

open CString LittleEndian Stores Reading

theorem strlen_le (str : Option CStr) : (strlen str).toNat ≤ (str.getD []).length := by
  unfold strlen
  rw [UInt16.toNat_ofNat']
  exact Nat.mod_le _ _

theorem lengthBytes_length (len : UInt16) :
    (lengthBytes len).length = if 255 ≤ len then 3 else 1 := by
  unfold lengthBytes
  split_ifs <;> rfl

theorem stringBytes_length (str : Option CStr) :
    (stringBytes str).length = (if 255 ≤ strlen str then 3 else 1) + (strlen str).toNat := by
  unfold stringBytes
  rw [List.length_append, lengthBytes_length, List.length_take,
    Nat.min_eq_left (strlen_le str)]

theorem stringBytes_length_textSize (str : Option CStr) :
    (stringBytes str).length = 1 + textSize str := by
  rw [stringBytes_length, textSize]
  split_ifs <;> omega

theorem textSize_le (str : Option CStr) : textSize str ≤ 65537 := by
  have := (strlen str).toNat_lt
  unfold textSize
  split_ifs <;> omega

theorem setStrlen_snd (len : UInt16) : (cidbmsgSetStrlen len).2 = (lengthBytes len).length := by
  rw [lengthBytes_length]
  unfold cidbmsgSetStrlen
  split_ifs <;> rfl

theorem setStrlen_tiles (len : UInt16) :
    Tiles 0 (cidbmsgSetStrlen len).1 (lengthBytes len).length := by
  unfold cidbmsgSetStrlen lengthBytes
  split_ifs <;> simp [Tiles, cidbSetUchar, cidbSetUshort]

theorem setStrlen_content (len : UInt16) :
    content (cidbmsgSetStrlen len).1 = lengthBytes len := by
  unfold cidbmsgSetStrlen lengthBytes
  split_ifs <;> simp [content, cidbSetUchar, cidbSetUshort]

theorem writeString_snd (str : Option CStr) :
    (cidbmsgWriteString str).2 = (stringBytes str).length := by
  rw [stringBytes_length, ← lengthBytes_length, ← setStrlen_snd]
  rfl

theorem writeString_tiles (str : Option CStr) :
    Tiles 0 (cidbmsgWriteString str).1 (stringBytes str).length := by
  unfold cidbmsgWriteString stringBytes
  rw [List.length_append]
  refine tiles_append (setStrlen_tiles _) ⟨setStrlen_snd _, rfl⟩

theorem writeString_content (str : Option CStr) :
    content (cidbmsgWriteString str).1 = stringBytes str := by
  unfold cidbmsgWriteString stringBytes
  rw [content_append, setStrlen_content]
  simp [content]

theorem lays_writeNext (stray : ℕ → Option CStr) (dbmsg : CIDBMessage) (i : ℕ) :
    Lays (2 ^ 32) (writeNext stray dbmsg i) (stringBytes (dbmsg.string stray i)) where
  tiles pos _ := tiles_shift pos (writeString_tiles _)
  content _ _ := (content_shift _ _).trans (writeString_content _)
  next pos _ := by
    unfold writeNext
    rw [← writeString_snd]
  covers pos _ o h₁ h₂ _ := by
    unfold writeNext
    rw [mem_offsets_shift, mem_offsets_of_tiles (writeString_tiles _)]
    omega

theorem writeEntry_eq (str : Option CStr) (bytes : ℕ) :
    writeEntry str bytes =
      (shift bytes (cidbmsgSetStrlen (strlen str)).1 ++
        [⟨(bytes + (lengthBytes (strlen str)).length) % 2 ^ 32,
          (str.getD []).take (strlen str).toNat⟩],
      (bytes + (stringBytes str).length) % 2 ^ 32) := by
  have e : (bytes + (stringBytes str).length) % 2 ^ 32 =
      ((bytes + (cidbmsgSetStrlen (strlen str)).2) % 2 ^ 32 + (strlen str).toNat) % 2 ^ 32 := by
    rw [Nat.mod_add_mod, setStrlen_snd, stringBytes_length, lengthBytes_length, Nat.add_assoc]
  rw [e, ← setStrlen_snd]
  rfl

theorem lays_writeEntry (str : Option CStr) :
    Lays (2 ^ 32) (writeEntry str) (stringBytes str) := by
  have hlen : (stringBytes str).length =
      (lengthBytes (strlen str)).length + ((str.getD []).take (strlen str).toNat).length :=
    List.length_append
  refine ⟨fun pos h => ?_, fun pos h => ?_, fun pos h => ?_, fun pos h o h₁ h₂ h₃ => ?_⟩
  · rw [hlen] at h ⊢
    rw [writeEntry_eq, Nat.mod_eq_of_lt (by omega)]
    exact tiles_append (tiles_shift pos (setStrlen_tiles _)) ⟨rfl, Nat.add_assoc ..⟩
  · rw [writeEntry_eq, content_append, content_shift, setStrlen_content]
    simp [content, stringBytes]
  · rw [writeEntry_eq]
  · rw [hlen] at h₂
    rw [writeEntry_eq, offsets_append, List.mem_append, mem_offsets_shift,
      mem_offsets_of_tiles (setStrlen_tiles _)]
    by_cases hp : o < pos + (lengthBytes (strlen str)).length
    · exact Or.inl (by omega)
    · rw [Nat.mod_eq_of_lt (by omega)]
      exact Or.inr (mem_offsets.2 ⟨_, List.mem_singleton.2 rfl, by simp only; omega⟩)

/-- The stores a pass makes from the front of its block: `x` if that fits, and at least
everything below 2^32. -/
structure Fills (stores : List (Store UInt8)) (x : List UInt8) : Prop where
  tiles : x.length < 2 ^ 32 → Tiles 0 stores x.length
  content : x.length < 2 ^ 32 → content stores = x
  covers : ∀ o, o < x.length → o < 2 ^ 32 → o ∈ offsets stores

theorem fills_of_tiles {stores : List (Store UInt8)} {x : List UInt8}
    (h : Tiles 0 stores x.length) (hc : Stores.content stores = x) : Fills stores x :=
  ⟨fun _ => h, fun _ => hc, fun _ ho _ => (mem_offsets_of_tiles h).2 ⟨Nat.zero_le _, ho⟩⟩

theorem fills_append {fields stores : List (Store UInt8)} {x y : List UInt8} {w : Writer UInt8}
    (hf : Tiles 0 fields x.length) (hc : Stores.content fields = x) (hw : Lays (2 ^ 32) w y)
    (hx : x.length < 2 ^ 32) (hs : stores = (w x.length).1) :
    Fills (fields ++ stores) (x ++ y) := by
  subst hs
  refine ⟨fun h => ?_, fun h => ?_, fun o h₁ h₂ => ?_⟩
  · rw [List.length_append] at h ⊢
    exact tiles_append hf (hw.tiles _ h)
  · rw [List.length_append] at h
    rw [content_append, hc, hw.content _ h]
  · rw [List.length_append] at h₁
    rw [offsets_append, List.mem_append, mem_offsets_of_tiles hf]
    by_cases ho : o < x.length
    · exact Or.inl ⟨Nat.zero_le _, ho⟩
    · exact Or.inr (hw.covers _ hx o (by omega) h₁ h₂)

/-- Fixed fields, and behind them what a callee stores from its own offset 0 on. -/
theorem fills_shift {fields stores : List (Store UInt8)} {x y : List UInt8}
    (hf : Tiles 0 fields x.length) (hc : Stores.content fields = x) (hs : Fills stores y) :
    Fills (fields ++ shift x.length stores) (x ++ y) := by
  refine ⟨fun h => ?_, fun h => ?_, fun o h₁ h₂ => ?_⟩
  · rw [List.length_append] at h ⊢
    exact tiles_append hf (tiles_shift x.length (hs.tiles (by omega)))
  · rw [List.length_append] at h
    rw [content_append, content_shift, hc, hs.content (by omega)]
  · rw [List.length_append] at h₁
    rw [offsets_append, List.mem_append, mem_offsets_of_tiles hf, mem_offsets_shift]
    by_cases ho : o < x.length
    · exact Or.inl ⟨Nat.zero_le _, ho⟩
    · exact Or.inr ⟨by omega, hs.covers _ (by omega) (by omega)⟩

theorem mapM_ite {α β : Type*} {p : α → Prop} [DecidablePred p] {f : α → Option β} {g : α → β}
    (h : ∀ a, f a = if p a then some (g a) else none) (as : List α) :
    as.mapM f = if ∀ a ∈ as, p a then some (as.map g) else none := by
  induction as with
  | nil => simp
  | cons a as ih =>
    rw [List.mapM_cons, h]
    by_cases ha : p a
    · by_cases has : ∀ a ∈ as, p a
      · rw [ih, if_pos ha, if_pos has, if_pos (List.forall_mem_cons.2 ⟨ha, has⟩)]
        rfl
      · have hall : ¬ ∀ b ∈ a :: as, p b := fun h => has (List.forall_mem_cons.1 h).2
        rw [ih, if_pos ha, if_neg has, if_neg hall]
        rfl
    · have hall : ¬ ∀ b ∈ a :: as, p b := fun h => ha (List.forall_mem_cons.1 h).1
      rw [if_neg ha, if_neg hall]
      rfl

/-- All row offsets can be computed exactly when that of the last row can. -/
theorem rowidxs_eq (nrows ncols : UInt16) : rowidxs nrows ncols =
    if RowsIndexed nrows ncols then
      some ((List.range nrows.toNat).map fun i => i * ncols.toNat % 2 ^ 16)
    else none := by
  have hlast : (∀ i ∈ List.range nrows.toNat, i * ncols.toNat < 2 ^ 31) ↔
      RowsIndexed nrows ncols := by
    constructor
    · intro h
      by_cases h0 : nrows.toNat = 0
      · rw [RowsIndexed, h0, Nat.zero_sub, Nat.zero_mul]
        decide
      · exact h _ (List.mem_range.2 (by omega))
    · intro h i hi
      have hle := Nat.mul_le_mul_right ncols.toNat (Nat.le_sub_one_of_lt (List.mem_range.1 hi))
      exact hle.trans_lt h
  have hrow : ∀ i, rowidx ncols i =
      if i * ncols.toNat < 2 ^ 31 then some (i * ncols.toNat % 2 ^ 16) else none := fun _ => rfl
  rw [rowidxs, mapM_ite hrow]
  simp only [hlast]

theorem visited_eq (stray : ℕ → Option CStr) (table : CIDBTable) :
    table.visited stray =
      if RowsIndexed table.nrows table.ncols then some (tableStrings stray table) else none := by
  rw [CIDBTable.visited, rowidxs_eq]
  split_ifs
  · rw [Option.map_some, List.flatMap_map]
    rfl
  · rfl

theorem fills_writeTable {stray : ℕ → Option CStr} {table : CIDBTable}
    {stores : List (Store UInt8)} {bytes : ℕ}
    (h : cidbmsgWriteTable stray table = some (stores, bytes)) :
    Fills stores (tableBytes stray table) ∧ bytes = (tableBytes stray table).length % 2 ^ 32 := by
  rw [cidbmsgWriteTable, visited_eq] at h
  have hrows : RowsIndexed table.nrows table.ncols := by
    by_contra hn
    rw [if_neg hn] at h
    cases h
  rw [if_pos hrows, Option.map_some] at h
  cases h
  have hlays := lays_many lays_writeEntry (tableStrings stray table)
  refine ⟨fills_append (x := bytes16 table.nrows ++ bytes16 table.ncols) ⟨rfl, rfl, rfl⟩ rfl
    hlays (by simp) rfl, ?_⟩
  rw [tableBytes, List.length_append]
  exact hlays.next 4 (by decide)

theorem writeTable_isSome (stray : ℕ → Option CStr) (table : CIDBTable) :
    (cidbmsgWriteTable stray table).isSome ↔ RowsIndexed table.nrows table.ncols := by
  rw [cidbmsgWriteTable, visited_eq]
  split_ifs with h <;> simp [h]

/-- A table whose size can be counted. -/
def Countable (stray : ℕ → Option CStr) (table : CIDBTable) : Prop :=
  none ∉ table.names stray ∧ RowsIndexed table.nrows table.ncols

instance (stray : ℕ → Option CStr) (table : CIDBTable) : Decidable (Countable stray table) :=
  inferInstanceAs (Decidable (_ ∧ _))

theorem tableGetSize_eq (stray : ℕ → Option CStr) (table : CIDBTable) :
    cidbmsgTableGetSize stray table =
      if Countable stray table then some ((tableBytes stray table).length % 2 ^ 32) else none := by
  have hsum : ∀ (strs : List (Option CStr)) (n : ℕ), n < 2 ^ 32 → strs.foldl (fun bytes str =>
      (bytes + (if 255 ≤ strlen str then 3 else 1) + (strlen str).toNat) % 2 ^ 32) n =
        (n + (strs.flatMap stringBytes).length) % 2 ^ 32 := by
    intro strs
    induction strs with
    | nil => exact fun n hn => (Nat.mod_eq_of_lt hn).symm
    | cons s strs ih =>
      intro n _
      rw [List.foldl_cons, ih _ (Nat.mod_lt _ (by decide)), Nat.mod_add_mod, List.flatMap_cons,
        List.length_append, stringBytes_length, Nat.add_assoc n, Nat.add_assoc n]
  have hlen : (tableBytes stray table).length =
      4 + ((tableStrings stray table).flatMap stringBytes).length := List.length_append
  rw [cidbmsgTableGetSize, visited_eq]
  unfold Countable
  by_cases hnull : none ∈ table.names stray
  · simp [hnull]
  · by_cases hrows : RowsIndexed table.nrows table.ncols
    · simp only [hnull, hrows, if_true, if_false, Option.map_some, not_false_eq_true, true_and,
        hsum _ 4 (by decide), hlen]
    · simp [hnull, hrows]

/-- The size announced is the size written, and the stores are those of its offsets, one
behind the other. -/
def SizeWritten (stray : ℕ → Option CStr) (table : CIDBTable) : Prop :=
  ∃ size stores, cidbmsgTableGetSize stray table = some size ∧
    cidbmsgWriteTable stray table = some (stores, size) ∧ offsets stores = List.range size

/-- Both traversals count the same bytes, and the stores are one behind the other. -/
theorem writeTable_fills_getSize (stray : ℕ → Option CStr) {table : CIDBTable}
    (hnames : none ∉ table.names stray)
    (hrows : (table.nrows.toNat - 1) * table.ncols.toNat < 2 ^ 31)
    (htotal : (tableBytes stray table).length < 2 ^ 32) : SizeWritten stray table := by
  have hsome := (writeTable_isSome stray table).2 hrows
  obtain ⟨⟨stores, bytes⟩, hwrite⟩ := Option.isSome_iff_exists.1 hsome
  obtain ⟨hfills, rfl⟩ := fills_writeTable hwrite
  refine ⟨_, stores, ?_, hwrite, ?_⟩
  · rw [tableGetSize_eq, if_pos ⟨hnames, hrows⟩]
  · rw [Nat.mod_eq_of_lt htotal, offsets_of_tiles (hfills.tiles htotal), Nat.sub_zero,
      List.range_eq_range']

/-- Two columns, a NULL cell and one with a text. -/
def nameTable : CIDBTable :=
  ⟨1, 2, [some (ascii "id"), some (ascii "Name")], [none, some (ascii "Alice")]⟩

theorem nameTable_fills_getSize : SizeWritten (fun _ => none) nameTable :=
  writeTable_fills_getSize _ (by decide) (by decide) (by decide)

theorem tableBytes_length_empty {stray : ℕ → Option CStr} {table : CIDBTable}
    (h : ∀ s ∈ tableStrings stray table, s = some []) : (tableBytes stray table).length =
      4 + (table.ncols.toNat + table.nrows.toNat * table.ncols.toNat) := by
  have hone : (tableStrings stray table).map (fun s => (stringBytes s).length) =
      List.replicate (tableStrings stray table).length 1 :=
    List.map_eq_replicate_iff.2 fun s hs => by rw [h s hs]; rfl
  have hlen : (tableStrings stray table).length =
      table.ncols.toNat + table.nrows.toNat * table.ncols.toNat := by
    simp [tableStrings, CIDBTable.names]
  have hbytes : (tableBytes stray table).length =
      4 + ((tableStrings stray table).flatMap stringBytes).length := List.length_append
  rw [hbytes, List.length_flatMap, hone, List.sum_replicate_nat, hlen, Nat.mul_one]

/-- 46342 rows and columns of empty cells: the offset of the last row is no `int`. -/
def hugeTable : CIDBTable where
  nrows := 46342
  ncols := 46342
  columnNames := List.replicate 46342 (some [])
  fields := List.replicate (46342 * 46342) (some [])

theorem hugeTable_size_undefined : ¬ ∀ stray table, none ∉ CIDBTable.names stray table →
    (tableBytes stray table).length < 2 ^ 32 → SizeWritten stray table := by
  intro h
  have hentry : ∀ n i, entry (fun _ => some []) (List.replicate n (some [])) i = some [] := by
    intro n i
    rw [entry, List.getD_eq_getElem?_getD, List.getElem?_replicate]
    split_ifs <;> rfl
  have hnames : ∀ s ∈ hugeTable.names fun _ => some [], s = some [] := by
    intro s hs
    obtain ⟨j, -, rfl⟩ := List.mem_map.1 hs
    exact hentry _ j
  have hstrings : ∀ s ∈ tableStrings (fun _ => some []) hugeTable, s = some [] := by
    intro s hs
    rcases List.mem_append.1 hs with hs | hs
    · exact hnames s hs
    · obtain ⟨i, -, hs⟩ := List.mem_flatMap.1 hs
      obtain ⟨j, -, rfl⟩ := List.mem_map.1 hs
      exact hentry _ _
  have hlen := tableBytes_length_empty hstrings
  obtain ⟨size, stores, hsize, -⟩ := h (fun _ => some []) hugeTable
    (fun hs => nomatch hnames none hs) (by rw [hlen]; decide)
  rw [tableGetSize_eq, if_neg fun hc => absurd hc.2 (by decide)] at hsize
  cases hsize

theorem within_getUshort {n off : ℕ} {mem : ℕ → UInt8} :
    Within n (cidbGetUshort off) mem ↔ off + 2 ≤ n := by
  simp only [cidbGetUshort, within_bind, within_cell, within_pure, and_true]
  omega

theorem within_getUlong {n off : ℕ} {mem : ℕ → UInt8} :
    Within n (cidbGetUlong off) mem ↔ off + 4 ≤ n := by
  simp only [cidbGetUlong, within_bind, within_cell, within_pure, and_true]
  omega

theorem val_getUshort (off : ℕ) {mem : ℕ → UInt8} {v : UInt16}
    (h : StartsWith (fun i => mem (off + i)) (bytes16 v)) : val (cidbGetUshort off) mem = v := by
  have h₀ : mem off = v.toUInt8 := h 0 (by simp)
  have h₁ : mem (off + 1) = (v >>> 8).toUInt8 := h 1 (by simp)
  simp only [cidbGetUshort, val_bind, val_cell, val_pure, h₀, h₁, value16_bytes16]

theorem val_getUlong_eq (off : ℕ) (mem : ℕ → UInt8) : val (cidbGetUlong off) mem =
    value32 (mem off) (mem (off + 1)) (mem (off + 2)) (mem (off + 3)) := rfl

theorem val_getUlong (off : ℕ) {mem : ℕ → UInt8} {v : UInt32}
    (h : StartsWith (fun i => mem (off + i)) (bytes32 v)) : val (cidbGetUlong off) mem = v := by
  have h₀ : mem off = v.toUInt8 := h 0 (by simp)
  have h₁ : mem (off + 1) = (v >>> 8).toUInt8 := h 1 (by simp)
  have h₂ : mem (off + 2) = (v >>> 16).toUInt8 := h 2 (by simp)
  have h₃ : mem (off + 3) = (v >>> 24).toUInt8 := h 3 (by simp)
  rw [val_getUlong_eq, h₀, h₁, h₂, h₃, value32_bytes32]

theorem startsWith_getUshort (off : ℕ) (mem : ℕ → UInt8) :
    StartsWith (fun i => mem (off + i)) (bytes16 (val (cidbGetUshort off) mem)) := by
  have h := bytes16_value16 (mem off) (mem (off + 1))
  simp only [cidbGetUshort, val_bind, val_cell, val_pure, h]
  intro i hi
  match i, hi with
  | 0, _ => rfl
  | 1, _ => rfl

theorem strlen_reads {x : List UInt8} {len : UInt16} (h : LengthWord x len) {mem : ℕ → UInt8}
    (hx : StartsWith mem x) :
    val cidbmsgStrlen mem = (len, x.length) ∧ Within x.length cidbmsgStrlen mem := by
  rcases h with ⟨b, hb, rfl, rfl⟩ | rfl
  · have h₀ : mem 0 = b := hx 0 (by simp)
    simp [cidbmsgStrlen, cidbGetUchar, within_bind, within_cell, within_pure, h₀, hb]
  · obtain ⟨h₀, hx⟩ := startsWith_cons.1 hx
    simp [cidbmsgStrlen, cidbGetUchar, within_bind, within_cell, within_pure, within_getUshort,
      val_getUshort 1 hx, h₀]

theorem strlen_within {n : ℕ} {mem : ℕ → UInt8} (h : Within n cidbmsgStrlen mem) :
    ∃ x len, LengthWord x len ∧ x.length ≤ n ∧ StartsWith mem x := by
  rw [cidbmsgStrlen, within_bind, cidbGetUchar, within_cell, val_cell] at h
  by_cases hb : mem 0 = 255
  · rw [if_pos hb, within_bind, within_getUshort] at h
    refine ⟨255 :: bytes16 (val (cidbGetUshort 1) mem), _, Or.inr rfl, by simp; omega, ?_⟩
    rw [startsWith_cons]
    exact ⟨hb, startsWith_getUshort 1 mem⟩
  · refine ⟨[mem 0], _, Or.inl ⟨mem 0, hb, rfl, rfl⟩, h.1, ?_⟩
    rw [startsWith_cons]
    exact ⟨rfl, startsWith_nil _⟩

theorem readString_reads {x : List UInt8} {str : CStr} (h : StringWord x str) {mem : ℕ → UInt8}
    (hx : StartsWith mem x) :
    val cidbmsgReadString mem = (str, x.length) ∧ Within x.length cidbmsgReadString mem := by
  obtain ⟨p, len, text, hp, htext, rfl, rfl⟩ := h
  obtain ⟨hxp, hxt⟩ := startsWith_append.1 hx
  obtain ⟨hv, hw⟩ := strlen_reads hp hxp
  have hcells := range_of_startsWith hxt
  rw [htext] at hcells
  rw [List.length_append, htext]
  simp only [cidbmsgReadString, cidbmsgReadStr, val_bind, within_bind, hv, val_skip, within_skip,
    val_cells, hcells, val_pure, within_cells, within_pure, and_true, true_and]
  exact ⟨hw.mono (by omega), by omega⟩

theorem readString_within {n : ℕ} {mem : ℕ → UInt8} (h : Within n cidbmsgReadString mem) :
    ∃ x str, StringWord x str ∧ x.length ≤ n ∧ StartsWith mem x := by
  rw [cidbmsgReadString, within_bind] at h
  obtain ⟨p, len, hp, hlen, hxp⟩ := strlen_within h.1
  obtain ⟨hv, -⟩ := strlen_reads hp hxp
  have h₂ := h.2
  simp only [hv, within_bind, within_skip, cidbmsgReadStr, within_cells] at h₂
  refine ⟨p ++ (List.range len.toNat).map fun i => mem (p.length + i), _,
    ⟨p, len, _, hp, by simp, rfl, rfl⟩, by simp; omega, ?_⟩
  rw [startsWith_append]
  exact ⟨hxp, startsWith_range _ _⟩

theorem recognises_readNext : Recognises (2 ^ 32) readNext StringWord where
  reads x str h pos hm mem hx := by
    obtain ⟨hv, hw⟩ := readString_reads h hx
    simp only [readNext, val_bind, within_bind, val_skip, within_skip, hv, val_pure, within_pure,
      and_true, Nat.mod_eq_of_lt hm, true_and]
    exact hw.mono (by omega)
  within mem n pos hp _ hw := by
    rw [readNext, within_bind, within_skip] at hw
    obtain ⟨x, str, h, hlen, hx⟩ := readString_within hw.1
    exact ⟨x, str, h, by omega, hx⟩

/-- Reading the next string of a table, where the offset could wrap behind the length too. -/
theorem recognises_readEntry : Recognises (2 ^ 32) readEntry StringWord where
  reads := by
    rintro _ _ ⟨p, len, text, hp, htext, rfl, rfl⟩ pos hm mem hx
    obtain ⟨hxp, hxt⟩ := startsWith_append.1 hx
    obtain ⟨hv, hw⟩ := strlen_reads hp hxp
    have hcells := range_of_startsWith hxt
    simp only [← Nat.add_assoc, htext] at hcells
    rw [List.length_append, htext, ← Nat.add_assoc] at hm ⊢
    have hmod : (pos + p.length) % 2 ^ 32 = pos + p.length := Nat.mod_eq_of_lt (by omega)
    simp only [readEntry, cidbmsgReadStr, val_bind, within_bind, val_skip, within_skip, hv, hmod,
      val_cells, hcells, val_pure, within_cells, within_pure, and_true, Nat.mod_eq_of_lt hm,
      true_and]
    exact ⟨hw.mono (by omega), by omega⟩
  within mem n pos hp hn hw := by
    rw [readEntry, within_bind, within_skip] at hw
    obtain ⟨p, len, hlen, hle, hxp⟩ := strlen_within hw.1
    obtain ⟨hv, -⟩ := strlen_reads hlen hxp
    have hw₂ := hw.2
    have hmod : (pos + p.length) % 2 ^ 32 = pos + p.length := Nat.mod_eq_of_lt (by omega)
    simp only [val_skip, hv, hmod, within_bind, within_skip, cidbmsgReadStr, within_cells] at hw₂
    refine ⟨p ++ (List.range len.toNat).map fun i => mem (pos + (p.length + i)), _,
      ⟨p, len, _, hlen, by simp, rfl, rfl⟩, by simp; omega, ?_⟩
    rw [startsWith_append]
    exact ⟨hxp, startsWith_range _ _⟩

end Fritz2ci
