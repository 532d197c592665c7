import Fritz2ci.Proofs.PayloadStrings

/-! `cidbmsg_read_message` on arbitrary data: it looks at the bytes of the block only exactly
when the block begins with a payload in the layout of its command. -/

namespace Fritz2ci

open CString LittleEndian Stores Reading

theorem fits_behind {mem : ℕ → UInt8} {n k : ℕ} {L : List UInt8 → Prop} :
    Fits mem n (Behind k L) ↔ k ≤ n ∧ Fits (fun i => mem (k + i)) (n - k) L := by
  constructor
  · rintro ⟨_, ⟨y, z, rfl, rfl, hz⟩, hlen, hmem⟩
    rw [List.length_append] at hlen
    exact ⟨by omega, z, hz, by omega, (startsWith_append.1 hmem).2⟩
  · rintro ⟨hk, z, hz, hlen, hmem⟩
    refine ⟨(List.range k).map mem ++ z, ⟨_, z, rfl, by simp, hz⟩, by simp; omega, ?_⟩
    rw [startsWith_append]
    exact ⟨startsWith_range mem k, by simpa using hmem⟩

theorem readTable_reads (stray : ℕ → Option CStr) {x : List UInt8} {nrows ncols : UInt16}
    {names : List CStr} {rows : List (List CStr)} (h : TableWord x nrows ncols names rows)
    (hm : x.length < 2 ^ 32) {mem : ℕ → UInt8} (hx : StartsWith mem x) :
    val (cidbmsgReadTable stray) mem =
        (placeFields stray nrows ncols rows).map (fun fields =>
          ({ nrows, ncols, columnNames := names.map some, fields }, x.length)) ∧
      Within x.length (cidbmsgReadTable stray) mem := by
  obtain ⟨y, z, rfl, hy, hz⟩ := h
  obtain ⟨hx, hmz⟩ := startsWith_append.1 hx
  obtain ⟨hx, hmy⟩ := startsWith_append.1 hx
  obtain ⟨hr, hc⟩ := startsWith_append.1 hx
  simp only [List.length_append, length_bytes16] at hm hmy hmz ⊢
  have hrows : val (cidbGetUshort 0) mem = nrows := val_getUshort 0 (by simpa using hr)
  have hcols : val (cidbGetUshort 2) mem = ncols := val_getUshort 2 hc
  have hentry := recognises_readEntry
  obtain ⟨hv₁, hw₁⟩ := (recognises_many hentry _).reads y names hy 4 (by omega) mem hmy
  obtain ⟨hv₂, hw₂⟩ := (recognises_many (recognises_many hentry _) _).reads z rows hz
    (4 + y.length) (by omega) mem hmz
  simp only [cidbmsgReadTable, val_bind, within_bind, hrows, hcols, hv₁, hv₂, val_pure, within_pure,
    within_getUshort, and_true]
  exact ⟨trivial, by omega, by omega, hw₁.mono (by omega), hw₂⟩

theorem readTable_within (stray : ℕ → Option CStr) {n : ℕ} (hn : n < 2 ^ 32) {mem : ℕ → UInt8} :
    Within n (cidbmsgReadTable stray) mem ↔ Fits mem n IsTable := by
  constructor
  · intro h
    simp only [cidbmsgReadTable, within_bind, within_getUshort] at h
    obtain ⟨-, h₂, hnames, hrest⟩ := h
    have hentry := recognises_many recognises_readEntry (val (cidbGetUshort 2) mem).toNat
    obtain ⟨y, names, hy, hly, hmy⟩ := hentry.within mem n 4 (by omega) hn hnames
    rw [(hentry.reads y names hy 4 (by omega) mem hmy).1] at hrest
    obtain ⟨z, rows, hz, hlz, hmz⟩ := (recognises_many hentry _).within mem n _ hly hn hrest.1
    have hr := startsWith_getUshort 0 mem
    simp only [Nat.zero_add] at hr
    refine ⟨_, ⟨_, _, names, rows, y, z, rfl, hy, hz⟩, by simp; omega, ?_⟩
    simp only [startsWith_append, List.length_append, length_bytes16]
    exact ⟨⟨⟨hr, startsWith_getUshort 2 mem⟩, hmy⟩, hmz⟩
  · rintro ⟨x, ⟨nrows, ncols, names, rows, hx⟩, hlen, hmem⟩
    exact (readTable_reads stray hx (by omega) hmem).2.mono hlen

theorem readString_within_iff {n : ℕ} {mem : ℕ → UInt8} :
    Within n cidbmsgReadString mem ↔ Fits mem n IsString := by
  constructor
  · intro h
    obtain ⟨x, str, hx, hle, hmem⟩ := readString_within h
    exact ⟨x, ⟨str, hx⟩, hle, hmem⟩
  · rintro ⟨x, ⟨str, hx⟩, hle, hmem⟩
    exact (readString_reads hx hmem).2.mono hle

section Message

variable (stray : ℕ → Option CStr) (dbmsg : CIDBMessage) {n : ℕ} {mem : ℕ → UInt8}

theorem within_readFirst (off : ℕ) :
    Within n (readFirst off dbmsg) mem ↔ Fits (fun i => mem (off + i)) (n - off) IsString := by
  simp only [readFirst, within_bind, within_skip, within_pure, and_true, readString_within_iff]

theorem within_readTableAt (hn : n < 2 ^ 32) (off : ℕ) :
    Within n (readTableAt stray off dbmsg) mem ↔
      Fits (fun i => mem (off + i)) (n - off) IsTable := by
  simp only [readTableAt, within_bind, within_skip, within_pure, and_true]
  exact readTable_within stray (by omega)

theorem readStrings_reads {y : List UInt8} {strs : List CStr} {nstrings : UInt16}
    (hy : ManyOf StringWord nstrings.toNat y strs) (hm : 4 + y.length < 2 ^ 32)
    (hmem : StartsWith (fun i => mem (2 + i)) (bytes16 nstrings ++ y)) :
    val (readStrings dbmsg) mem = some { dbmsg with
        nstrings, stringlist := if nstrings = 0 then dbmsg.stringlist else some (strs.map some) } ∧
      Within (4 + y.length) (readStrings dbmsg) mem := by
  obtain ⟨hn, hmy⟩ := startsWith_append.1 hmem
  have hval : val (cidbGetUshort 2) mem = nstrings := val_getUshort 2 hn
  simp only [length_bytes16, ← Nat.add_assoc] at hmy
  obtain ⟨hv, hw⟩ := (recognises_many recognises_readNext _).reads y strs hy 4 hm mem hmy
  by_cases h0 : nstrings = 0
  · simp only [readStrings, val_bind, within_bind, within_getUshort, hval, h0, if_true, val_pure,
      within_pure, and_true, true_and]
    omega
  · simp only [readStrings, val_bind, within_bind, within_getUshort, hval, h0, if_false, hv,
      val_pure, within_pure, and_true, true_and]
    exact ⟨by omega, hw⟩

theorem within_readStrings (hn : n < 2 ^ 32) :
    Within n (readStrings dbmsg) mem ↔ Fits (fun i => mem (2 + i)) (n - 2) IsStrings := by
  constructor
  · intro h
    rw [readStrings, within_bind, within_getUshort] at h
    have hnum := startsWith_getUshort 2 mem
    by_cases h0 : val (cidbGetUshort 2) mem = 0
    · rw [h0] at hnum
      refine ⟨bytes16 0 ++ [], ⟨0, [], [], rfl, manyOf_zero _⟩, by simp; omega, ?_⟩
      rw [List.append_nil]
      exact hnum
    · have h₂ := h.2
      rw [if_neg h0, within_bind] at h₂
      obtain ⟨y, strs, hy, hle, hmy⟩ := (recognises_many recognises_readNext _).within mem n 4
        (by omega) hn h₂.1
      refine ⟨bytes16 _ ++ y, ⟨_, y, strs, rfl, hy⟩, by simp; omega, ?_⟩
      simp only [startsWith_append, length_bytes16, ← Nat.add_assoc]
      exact ⟨hnum, hmy⟩
  · rintro ⟨_, ⟨nstrings, y, strs, rfl, hy⟩, hle, hmem⟩
    rw [List.length_append, length_bytes16] at hle
    exact (readStrings_reads dbmsg hy (by omega) hmem).2.mono (by omega)

theorem within_ushort_bind {α : Type} {f : UInt16 → Reading UInt8 α} {off : ℕ} :
    Within n (cidbGetUshort off >>= f) mem ↔
      off + 2 ≤ n ∧ Within n (f (val (cidbGetUshort off) mem)) mem := by
  rw [within_bind, within_getUshort]

theorem within_ulong_bind {α : Type} {f : UInt32 → Reading UInt8 α} {off : ℕ} :
    Within n (cidbGetUlong off >>= f) mem ↔
      off + 4 ≤ n ∧ Within n (f (val (cidbGetUlong off) mem)) mem := by
  rw [within_bind, within_getUlong]

end Message

section

variable (stray : ℕ → Option CStr) (dbmsg : CIDBMessage) {n : ℕ} {mem : ℕ → UInt8}

theorem within_readQuery (hn : n < 2 ^ 32) (c : CIDBMsgCmd) :
    Within n (readQuery stray false dbmsg c) mem ↔ Fits mem n (IsQuery c) := by
  cases c with
  | register | showtables | listInfo =>
    exact iff_of_true (within_pure _ _ _) (fits_length.2 (Nat.zero_le n))
  | callerList =>
    rw [readQuery, within_ushort_bind, within_readFirst]
    exact fits_behind.symm
  | readCaller =>
    rw [readQuery, within_ushort_bind, within_ushort_bind, within_readFirst, IsQuery, fits_behind,
      ← and_assoc]
    exact and_congr_left fun _ => by omega
  | writeCaller =>
    rw [readQuery, within_ushort_bind, within_ushort_bind, within_readTableAt _ _ hn, IsQuery,
      fits_behind, ← and_assoc]
    exact and_congr_left fun _ => by omega
  | writeCall =>
    have h : Within n (readTableAt stray 0 dbmsg) mem ↔ _ := within_readTableAt stray dbmsg hn 0
    simp only [Nat.zero_add, Nat.sub_zero] at h
    exact h
  | callList =>
    rw [readQuery, within_ulong_bind, within_ushort_bind, IsQuery, fits_length]
    simp only [within_pure, and_true]
    omega
  | describeTable =>
    have h : Within n (readFirst 0 dbmsg) mem ↔ _ := within_readFirst dbmsg 0
    simp only [Nat.zero_add, Nat.sub_zero] at h
    exact h
  | deleteCaller =>
    rw [readQuery, within_ushort_bind, within_readStrings _ hn]
    exact fits_behind.symm
  | listen =>
    rw [readQuery, within_ulong_bind]
    exact (and_iff_left (within_pure _ _ _)).trans fits_length.symm

/-- Only two branches ask whether the data is NULL. -/
theorem readQuery_null {c : CIDBMsgCmd} (hc : ¬ (c = .writeCall ∨ c = .describeTable)) :
    readQuery stray true dbmsg c = readQuery stray false dbmsg c := by
  cases c with
  | writeCall => exact absurd (Or.inl rfl) hc
  | describeTable => exact absurd (Or.inr rfl) hc
  | _ => rfl

theorem within_readResp (hn : n < 2 ^ 32) (c : CIDBMsgCmd) :
    Within n (readResp stray dbmsg c) mem ↔ Fits mem n (IsResponse c) := by
  rw [readResp, within_ushort_bind]
  cases c with
  | register =>
    simp only [within_ushort_bind, within_pure, IsResponse, fits_length, and_true]
    omega
  | callerList | readCaller | callList =>
    simp only [within_readTableAt _ _ hn]
    exact fits_behind.symm
  | writeCaller | writeCall | listInfo =>
    simp only [within_ulong_bind, within_pure, IsResponse, fits_length, and_true]
    omega
  | showtables | describeTable =>
    simp only [within_readStrings _ hn]
    exact fits_behind.symm
  | deleteCaller | listen => exact (and_iff_left (within_pure _ _ _)).trans fits_length.symm

end

theorem placeFields_isSome (stray : ℕ → Option CStr) (nrows ncols : UInt16)
    (rows : List (List CStr)) :
    (placeFields stray nrows ncols rows).isSome ↔ RowsIndexed nrows ncols := by
  rw [placeFields, rowidxs_eq]
  split_ifs with h <;> simp [h]

section Defined

variable (stray : ℕ → Option CStr) (dbmsg : CIDBMessage) (mem : ℕ → UInt8)

/-- The dimensions at an offset are those of a table whose row offsets can be computed. -/
def RowsIndexedAt (k : ℕ) : Prop :=
  RowsIndexed (val (cidbGetUshort k) mem) (val (cidbGetUshort (k + 2)) mem)

theorem readTableAt_isSome (off : ℕ) :
    (val (readTableAt stray off dbmsg) mem).isSome ↔ RowsIndexedAt mem off := by
  simp only [readTableAt, cidbmsgReadTable, val_bind, val_pure, val_skip, Option.isSome_map,
    placeFields_isSome]
  exact Iff.rfl

theorem readStrings_isSome : (val (readStrings dbmsg) mem).isSome := by
  simp only [readStrings, val_bind]
  split_ifs <;> rfl

theorem readQuery_isSome (c : CIDBMsgCmd) : (val (readQuery stray false dbmsg c) mem).isSome ↔
    ∀ k ∈ queryTable c, RowsIndexedAt mem k := by
  cases c with
  | writeCaller | writeCall =>
    exact (readTableAt_isSome stray _ mem _).trans (by simp [queryTable])
  | deleteCaller => exact iff_of_true (readStrings_isSome _ mem) (by simp [queryTable])
  | _ => exact iff_of_true rfl (by simp [queryTable])

theorem readResp_isSome (c : CIDBMsgCmd) : (val (readResp stray dbmsg c) mem).isSome ↔
    ∀ k ∈ respTable c, RowsIndexedAt mem k := by
  cases c with
  | callerList | readCaller | callList =>
    exact (readTableAt_isSome stray _ mem _).trans (by simp [respTable])
  | showtables | describeTable => exact iff_of_true (readStrings_isSome _ mem) (by simp [respTable])
  | _ => exact iff_of_true rfl (by simp [respTable])

end Defined

/-- The block of `dataSize` bytes -/
def CIDBMsg.block (msg : CIDBMsg) : List UInt8 :=
  (List.range msg.header.dataSize.toNat).map msg.memory

/-- The block begins with a payload in the layout of its command. Nothing is asked where no
byte is looked at: for an unknown command or subcommand, and where a callee is handed the
NULL pointer and returns at once. -/
def PayloadInBlock (msg : CIDBMsg) : Prop :=
  match CIDBMsgCmd.ofCode msg.header.msgCommand with
  | none => True
  | some c =>
    if msg.header.msgSubcommand = CIDBMSG_SUBCMD_QUERY then
      (msg.data = none ∧ (c = .writeCall ∨ c = .describeTable)) ∨
        ∃ x, IsQuery c x ∧ x <+: msg.block
    else if msg.header.msgSubcommand = CIDBMSG_SUBCMD_RESP then
      ∃ x, IsResponse c x ∧ x <+: msg.block
    else True

/-- The decoder looks at bytes of the block only, and does nothing that C leaves undefined. -/
def ReadsInside (stray : ℕ → Option CStr) (msg : CIDBMsg) : Prop :=
  Within msg.header.dataSize.toNat (cidbmsgReadMessage stray msg.header msg.data.isNone)
      msg.memory ∧ (msg.read stray).isSome

theorem readMessage_within (stray : ℕ → Option CStr) (msg : CIDBMsg) :
    Within msg.header.dataSize.toNat (cidbmsgReadMessage stray msg.header msg.data.isNone)
        msg.memory ↔ PayloadInBlock msg := by
  have hn : msg.header.dataSize.toNat < 2 ^ 32 := msg.header.dataSize.toNat_lt
  unfold cidbmsgReadMessage PayloadInBlock CIDBMsg.block
  cases CIDBMsgCmd.ofCode msg.header.msgCommand with
  | none => exact iff_of_true (within_pure _ _ _) trivial
  | some c =>
    dsimp only
    split_ifs with hq hr
    · cases hd : msg.data with
      | some mem =>
        simp only [Option.isNone_some, reduceCtorEq, false_and, false_or]
        rw [within_readQuery _ _ hn, fits_iff_prefix]
      | none =>
        simp only [Option.isNone_none, true_and]
        by_cases hc : c = .writeCall ∨ c = .describeTable
        · refine iff_of_true ?_ (Or.inl hc)
          rcases hc with rfl | rfl <;> exact within_pure _ _ _
        · rw [readQuery_null stray _ hc, within_readQuery _ _ hn, fits_iff_prefix, or_iff_right hc]
    · rw [within_readResp _ _ hn, fits_iff_prefix]
    · exact iff_of_true (within_pure _ _ _) trivial

/-- Without data the dimensions are never looked at, or read as zero. -/
theorem rowsIndexedAt_zero (k : ℕ) : RowsIndexedAt (fun _ => 0) k := by
  change RowsIndexed (value16 0 0) (value16 0 0)
  decide

theorem readMessage_isSome (stray : ℕ → Option CStr) (msg : CIDBMsg) :
    (msg.read stray).isSome ↔
      ∀ k ∈ tableOffset msg.header.msgCommand msg.header.msgSubcommand,
        RowsIndexedAt msg.memory k := by
  unfold CIDBMsg.read cidbmsgReadMessage tableOffset
  cases CIDBMsgCmd.ofCode msg.header.msgCommand with
  | none => simp
  | some c =>
    dsimp only [Option.bind_some]
    split_ifs with hq hr
    · cases hd : msg.data with
      | some mem => exact readQuery_isSome stray _ msg.memory c
      | none =>
        have hmem : msg.memory = fun _ => 0 := by rw [CIDBMsg.memory, hd, Option.getD_none]
        rw [Option.isNone_none, hmem]
        refine iff_of_true ?_ fun k _ => rowsIndexedAt_zero k
        by_cases hc : c = .writeCall ∨ c = .describeTable
        · rcases hc with rfl | rfl <;> rfl
        · rw [readQuery_null stray _ hc]
          exact (readQuery_isSome stray _ _ c).2 fun k _ => rowsIndexedAt_zero k
    · exact readResp_isSome stray _ msg.memory c
    · simp

/-- The decoder stays inside the block exactly when the payload is in it and the rows of its
table can be indexed. -/
theorem readMessage_inside_iff (stray : ℕ → Option CStr) (msg : CIDBMsg) :
    ReadsInside stray msg ↔ PayloadInBlock msg ∧
      ∀ k ∈ tableOffset msg.header.msgCommand msg.header.msgSubcommand,
        RowsIndexedAt msg.memory k :=
  and_congr (readMessage_within stray msg) (readMessage_isSome stray msg)

/-- A response in five bytes that announces a string of 200 bytes. -/
def announcedText : CIDBMsg where
  header :=
    { clientId := 0, msgCommand := 0x07, msgSubcommand := 0x81, msgId := 0, msgFlags := 0
      dataSize := 5, partSize := 5, offset := 0 }
  data := some fun i => [0, 0, 1, 0, 200].getD i 0

theorem announced_text_overruns :
    5 ∈ offs (cidbmsgReadMessage (fun _ => none) announcedText.header announcedText.data.isNone)
        announcedText.memory ∧
      ¬ ReadsInside (fun _ => none) announcedText :=
  ⟨by decide, fun h => absurd (h.1 5 (by decide)) (by decide)⟩

end Fritz2ci
