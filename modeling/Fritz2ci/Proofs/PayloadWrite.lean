import Fritz2ci.Proofs.PayloadStrings

/-! The two passes of `cidbmsg_write_message` against each other: the second stores
`payload` from the front of the block on, the first announces the length of `payload`, save
for the queries named in `CountsMatch`. -/

namespace Fritz2ci

open CString LittleEndian Stores Reading

section

variable (stray : ℕ → Option CStr) (dbmsg : CIDBMessage)

theorem fills_writeFirst {fields : List (Store UInt8)} {x : List UInt8}
    (hf : Tiles 0 fields x.length) (hc : content fields = x) :
    Fills (writeFirst stray dbmsg x.length fields).stores
      (x ++ stringBytes (firstString stray dbmsg)) := by
  have hempty : Fills [cidbSetUchar 0 0] (stringBytes none) := fills_of_tiles ⟨rfl, rfl⟩ rfl
  have hnull : Fills (fields ++ [cidbSetUchar x.length 0]) (x ++ stringBytes none) :=
    fills_shift hf hc hempty
  unfold writeFirst firstString
  split_ifs with h₁ h₂
  · exact fills_shift hf hc (fills_of_tiles (writeString_tiles _) (writeString_content _))
  · rw [Option.not_isSome_iff_eq_none.1 h₂]
    exact hnull
  · exact hnull

theorem fills_writeTableAt {fields : List (Store UInt8)} {x : List UInt8} {pass : WritePass}
    (h : writeTableAt stray dbmsg x.length fields = some pass) (hf : Tiles 0 fields x.length)
    (hc : content fields = x) :
    Fills pass.stores (x ++ tableBytes stray dbmsg.table) := by
  obtain ⟨⟨stores, bytes⟩, hwrite, rfl⟩ := Option.map_eq_some_iff.1 h
  exact fills_shift hf hc (fills_writeTable hwrite).1

theorem fills_writeStrings (field : UInt16) :
    Fills (writeStrings stray dbmsg field).stores (bytes16 field ++ stringsBytes stray dbmsg) := by
  unfold stringsBytes
  rw [← List.append_assoc]
  exact fills_append ⟨rfl, rfl, rfl⟩ rfl (lays_many (lays_writeNext stray dbmsg) _) (by simp) rfl

theorem fills_writeOptionalStrings :
    Fills (writeOptionalStrings stray dbmsg).stores
      (bytes16 dbmsg.errcode ++ optionalStringsBytes stray dbmsg) := by
  unfold writeOptionalStrings optionalStringsBytes
  split_ifs
  · exact fills_writeStrings stray dbmsg dbmsg.errcode
  · exact fills_of_tiles ⟨rfl, rfl, rfl⟩ rfl

theorem fills_queryPass {c : CIDBMsgCmd} {pass : WritePass}
    (h : queryPass stray dbmsg c = some pass) :
    Fills pass.stores (queryPayload stray dbmsg c) := by
  cases c with
  | register | showtables | listInfo =>
    cases h
    exact fills_of_tiles (x := []) rfl rfl
  | callerList =>
    cases h
    exact fills_writeFirst stray dbmsg (x := bytes16 dbmsg.userid) ⟨rfl, rfl⟩ rfl
  | readCaller =>
    cases h
    exact fills_writeFirst stray dbmsg (x := bytes16 dbmsg.userid ++ bytes16 _) ⟨rfl, rfl, rfl⟩ rfl
  | writeCaller =>
    exact fills_writeTableAt stray dbmsg (x := bytes16 dbmsg.userid ++ bytes16 _) h
      ⟨rfl, rfl, rfl⟩ rfl
  | writeCall => exact fills_writeTableAt stray dbmsg (x := []) h rfl rfl
  | callList =>
    cases h
    exact fills_of_tiles (x := bytes32 _ ++ bytes16 _) ⟨rfl, rfl, rfl⟩ rfl
  | describeTable =>
    unfold queryPass at h
    unfold queryPayload
    split_ifs at h ⊢ <;> cases h
    · exact fills_of_tiles (writeString_tiles _) (writeString_content _)
    · exact fills_of_tiles (x := bytes16 0) ⟨rfl, rfl⟩ rfl
  | deleteCaller =>
    cases h
    exact fills_writeStrings stray dbmsg dbmsg.userid
  | listen =>
    cases h
    exact fills_of_tiles (x := bytes32 _) ⟨rfl, rfl⟩ rfl

theorem fills_respPass {c : CIDBMsgCmd} {pass : WritePass}
    (h : respPass stray dbmsg c = some pass) :
    Fills pass.stores (respPayload stray dbmsg c) := by
  cases c with
  | register =>
    cases h
    exact fills_of_tiles (x := bytes16 _ ++ bytes16 _) ⟨rfl, rfl, rfl⟩ rfl
  | callerList | readCaller | callList =>
    exact fills_writeTableAt stray dbmsg (x := bytes16 dbmsg.errcode) h ⟨rfl, rfl⟩ rfl
  | writeCaller | writeCall | listInfo =>
    cases h
    exact fills_of_tiles (x := bytes16 _ ++ bytes32 _) ⟨rfl, rfl, rfl⟩ rfl
  | showtables | describeTable =>
    cases h
    exact fills_writeOptionalStrings stray dbmsg
  | deleteCaller | listen =>
    cases h
    exact fills_of_tiles (x := bytes16 _) ⟨rfl, rfl⟩ rfl

theorem fills_writePass {pass : WritePass} (h : writePass stray dbmsg = some pass) :
    Fills pass.stores (payload stray dbmsg) := by
  revert h
  unfold writePass payload
  cases CIDBMsgCmd.ofCode dbmsg.cmd with
  | none =>
    rintro ⟨⟩
    exact fills_of_tiles (x := []) rfl rfl
  | some c =>
    dsimp only
    intro h
    split_ifs at h ⊢
    · exact fills_queryPass stray dbmsg h
    · exact fills_respPass stray dbmsg h

/-- Where the message carries a table, that can be counted. -/
def TableCountable : Prop :=
  (tableOffset dbmsg.cmd dbmsg.subcmd).isSome → Countable stray dbmsg.table

theorem tableSize_isSome (k : ℕ) :
    (tableSize stray dbmsg k).isSome ↔ Countable stray dbmsg.table := by
  rw [tableSize, tableGetSize_eq]
  split_ifs with h <;> simp [h]

theorem querySize_isSome (c : CIDBMsgCmd) : (querySize stray dbmsg c).isSome ↔
    ((queryTable c).isSome → Countable stray dbmsg.table) := by
  cases c <;> simp [querySize, queryTable, tableSize_isSome]

theorem respSize_isSome (c : CIDBMsgCmd) : (respSize stray dbmsg c).isSome ↔
    ((respTable c).isSome → Countable stray dbmsg.table) := by
  cases c <;> simp [respSize, respTable, tableSize_isSome]

/-- The first pass runs into what C does not define exactly for a table that cannot be
counted. -/
theorem sizePass_defined : sizePass stray dbmsg ≠ some none ↔ TableCountable stray dbmsg := by
  unfold sizePass TableCountable tableOffset
  cases hcmd : CIDBMsgCmd.ofCode dbmsg.cmd with
  | none => simp
  | some c =>
    have hlisten : c = .listen → respTable c = none := fun h => h ▸ rfl
    dsimp only [Option.bind_some]
    by_cases hq : dbmsg.subcmd = CIDBMSG_SUBCMD_QUERY
    · rw [if_pos hq, if_pos hq, ← querySize_isSome, Ne, Option.some_inj, ← Ne,
        Option.ne_none_iff_isSome]
    · rw [if_neg hq, if_neg hq]
      by_cases hr : dbmsg.subcmd = CIDBMSG_SUBCMD_RESP
      · rw [if_pos (Or.inl hr), if_pos hr, ← respSize_isSome, Ne, Option.some_inj, ← Ne,
          Option.ne_none_iff_isSome]
      · rw [if_neg hr]
        refine iff_of_true ?_ (by simp)
        split_ifs with hl
        · obtain rfl := hl.resolve_left hr
          simp [respSize]
        · simp

theorem writeTableAt_isSome (off : ℕ) (fields : List (Store UInt8))
    (h : Countable stray dbmsg.table) : (writeTableAt stray dbmsg off fields).isSome := by
  rw [writeTableAt, Option.isSome_map, writeTable_isSome]
  exact h.2

theorem queryPass_isSome {c : CIDBMsgCmd} (h : (querySize stray dbmsg c).isSome) :
    (queryPass stray dbmsg c).isSome := by
  rw [querySize_isSome] at h
  cases c with
  | writeCaller | writeCall => exact writeTableAt_isSome stray dbmsg _ _ (h rfl)
  | describeTable =>
    unfold queryPass
    split_ifs <;> rfl
  | _ => rfl

theorem respPass_isSome {c : CIDBMsgCmd} (h : (respSize stray dbmsg c).isSome) :
    (respPass stray dbmsg c).isSome := by
  rw [respSize_isSome] at h
  cases c with
  | callerList | readCaller | callList => exact writeTableAt_isSome stray dbmsg _ _ (h rfl)
  | _ => rfl

theorem writePass_isSome {size : ℕ} (hs : sizePass stray dbmsg = some (some size)) :
    ∃ pass, writePass stray dbmsg = some pass := by
  rw [← Option.isSome_iff_exists]
  revert hs
  unfold sizePass writePass
  cases CIDBMsgCmd.ofCode dbmsg.cmd with
  | none => exact fun hs => nomatch hs
  | some c =>
    dsimp only
    intro hs
    split_ifs at hs ⊢
    · exact queryPass_isSome stray dbmsg (by rw [Option.some.inj hs]; rfl)
    · exact respPass_isSome stray dbmsg (by rw [Option.some.inj hs]; rfl)

theorem stringsSize_eq (h : dbmsg.stringlist.isSome) :
    stringsSize stray dbmsg =
      ((List.range dbmsg.nstrings.toNat).flatMap fun i =>
        stringBytes (dbmsg.string stray i)).length := by
  have hfold : ∀ (is : List ℕ) (n : ℕ),
      is.foldl (fun n i => n + 1 + textSize (dbmsg.string stray i)) n =
        n + (is.flatMap fun i => stringBytes (dbmsg.string stray i)).length := by
    intro is
    induction is with
    | nil => exact fun n => rfl
    | cons i is ih =>
      intro n
      rw [List.foldl_cons, ih, List.flatMap_cons, List.length_append, stringBytes_length_textSize]
      omega
  rw [stringsSize, if_pos h, hfold, Nat.zero_add]

theorem optionalStringsBytes_length :
    (optionalStringsBytes stray dbmsg).length = 2 + stringsSize stray dbmsg := by
  unfold optionalStringsBytes
  split_ifs with h
  · rw [stringsSize_eq stray dbmsg h, stringsBytes, List.length_append, length_bytes16]
  · rw [stringsSize, if_neg h, length_bytes16]

theorem firstString_length :
    (stringBytes (firstString stray dbmsg)).length = 1 + optionalText stray dbmsg 0 := by
  rw [stringBytes_length_textSize]
  unfold firstString optionalText
  split_ifs <;> rfl

theorem optionalText_le (i : ℕ) : optionalText stray dbmsg i ≤ 65537 := by
  unfold optionalText
  split_ifs
  · exact textSize_le _
  · exact Nat.zero_le _

/-- The write phase reads only the first `nstrings` entries of `stringlist` and none of a
NULL list. -/
def EntriesInList (pass : WritePass) : Prop :=
  ∀ i ∈ pass.entries, dbmsg.stringlist.isSome ∧ i < dbmsg.nstrings.toNat

/-- The bytes stored are those of the block of `ret` bytes. -/
def PassesAgree (e : Encoded) : Prop :=
  EntriesInList dbmsg e.pass ∧ ∀ o, o ∈ offsets e.pass.stores ↔ o < e.ret

/-- A query that reads strings has those its size is counted for. -/
def QueryCounts : CIDBMsgCmd → Prop
  | .callerList => dbmsg.stringlist.isSome → dbmsg.nstrings ≠ 0
  | .readCaller => dbmsg.stringlist.isSome → dbmsg.nstrings ≠ 0
  | .describeTable => dbmsg.stringlist.isSome ∧ dbmsg.nstrings ≠ 0
  | .deleteCaller => dbmsg.stringlist.isSome ∧ dbmsg.nstrings = 2
  | _ => True

def CountsMatch : Prop :=
  match CIDBMsgCmd.ofCode dbmsg.cmd with
  | none => True
  | some c => dbmsg.subcmd = CIDBMSG_SUBCMD_QUERY → QueryCounts dbmsg c

theorem entriesInList_nil (stores : List (Store UInt8)) : EntriesInList dbmsg ⟨stores, []⟩ :=
  fun _ h => nomatch h

theorem nstrings_pos_iff : 0 < dbmsg.nstrings.toNat ↔ dbmsg.nstrings ≠ 0 := by
  rw [Nat.pos_iff_ne_zero, Ne, Ne, ← UInt16.toNat_inj]
  rfl

theorem entriesInList_zero (stores : List (Store UInt8)) :
    EntriesInList dbmsg ⟨stores, [0]⟩ ↔ dbmsg.stringlist.isSome ∧ dbmsg.nstrings ≠ 0 := by
  simp [EntriesInList, nstrings_pos_iff]

theorem entriesInList_writeFirst (off : ℕ) (fields : List (Store UInt8)) :
    EntriesInList dbmsg (writeFirst stray dbmsg off fields) ↔
      (dbmsg.stringlist.isSome → dbmsg.nstrings ≠ 0) := by
  unfold writeFirst EntriesInList
  split_ifs with h₁ h₂ <;> simp [h₁, nstrings_pos_iff]

theorem entriesInList_writeStrings (field : UInt16) :
    EntriesInList dbmsg (writeStrings stray dbmsg field) ↔
      (dbmsg.nstrings.toNat ≠ 0 → dbmsg.stringlist.isSome) := by
  simp only [EntriesInList, writeStrings, List.mem_range]
  constructor
  · exact fun h hn => (h 0 (Nat.pos_of_ne_zero hn)).1
  · exact fun h i hi => ⟨h (by omega), hi⟩

theorem entriesInList_writeOptionalStrings :
    EntriesInList dbmsg (writeOptionalStrings stray dbmsg) := by
  unfold writeOptionalStrings
  split_ifs with h
  · exact (entriesInList_writeStrings stray dbmsg _).2 fun _ => h
  · exact entriesInList_nil dbmsg _

theorem strings_length_ge (n : ℕ) (h : 2 ≤ n) :
    textSize (dbmsg.string stray 0) + textSize (dbmsg.string stray 1) + n ≤
      ((List.range n).flatMap fun i => stringBytes (dbmsg.string stray i)).length := by
  induction n, h using Nat.le_induction with
  | base => simp [List.range_succ, stringBytes_length_textSize]; omega
  | succ n _ ih =>
    rw [List.range_succ, List.flatMap_append, List.length_append]
    simp only [List.flatMap_cons, List.flatMap_nil, List.append_nil, stringBytes_length_textSize]
    omega

/-- The query whose size is counted for two strings and written for `nstrings`. -/
theorem deleteCaller_counts :
    (dbmsg.nstrings.toNat ≠ 0 → dbmsg.stringlist.isSome) ∧
        6 + optionalText stray dbmsg 0 + optionalText stray dbmsg 1 =
          2 + (stringsBytes stray dbmsg).length ↔
      dbmsg.stringlist.isSome ∧ dbmsg.nstrings = 2 := by
  have htwo : dbmsg.nstrings = 2 ↔ dbmsg.nstrings.toNat = 2 := UInt16.toNat_inj.symm
  rw [htwo, stringsBytes, List.length_append, length_bytes16]
  generalize dbmsg.nstrings.toNat = n
  by_cases h : dbmsg.stringlist.isSome
  · simp only [optionalText, h, implies_true, true_and, if_true]
    match n with
    | 0 => simp; omega
    | 1 => simp [stringBytes_length_textSize]; omega
    | 2 => simp [List.range_succ, stringBytes_length_textSize]; omega
    | n + 3 => have := strings_length_ge stray dbmsg (n + 3) (by omega); omega
  · simp only [optionalText, h, Bool.false_eq_true, if_false]
    refine iff_of_false (fun ⟨hn, he⟩ => ?_) (by simp)
    have : n = 0 := by by_contra hne; exact absurd (hn hne) (by simp)
    subst this
    simp at he

theorem tableAt_size {k size : ℕ} {x : List UInt8} (hs : tableSize stray dbmsg k = some size)
    (hx : x.length = k) :
    size % 2 ^ 32 = (x ++ tableBytes stray dbmsg.table).length % 2 ^ 32 := by
  obtain ⟨n, hn, rfl⟩ := Option.map_eq_some_iff.1 hs
  have hcount : Countable stray dbmsg.table := (tableSize_isSome stray dbmsg k).1 (by rw [hs]; rfl)
  rw [tableGetSize_eq, if_pos hcount, Option.some.injEq] at hn
  rw [List.length_append, hx, ← hn, Nat.add_mod_mod]

/-- Where the first pass counts what the second writes: a table to be described has a name,
and two strings tell the caller to be deleted. -/
def SizesMatch (c : CIDBMsgCmd) : Prop :=
  (c = .describeTable → dbmsg.stringlist.isSome) ∧
    (c = .deleteCaller → dbmsg.stringlist.isSome ∧ dbmsg.nstrings = 2)

theorem sizesMatch_of_ne {c : CIDBMsgCmd} (h₁ : c ≠ .describeTable) (h₂ : c ≠ .deleteCaller) :
    SizesMatch dbmsg c := ⟨fun h => absurd h h₁, fun h => absurd h h₂⟩

theorem querySize_eq {c : CIDBMsgCmd} {size : ℕ} (hs : querySize stray dbmsg c = some size)
    (h : SizesMatch dbmsg c) : size % 2 ^ 32 = (queryPayload stray dbmsg c).length % 2 ^ 32 := by
  cases c with
  | register | callList | showtables | listInfo | listen =>
    cases hs
    rfl
  | callerList | readCaller =>
    cases hs
    have hfirst := firstString_length stray dbmsg
    simp only [queryPayload, List.length_append, length_bytes16, hfirst]
    omega
  | writeCaller => exact tableAt_size stray dbmsg hs rfl
  | writeCall => exact tableAt_size stray dbmsg (x := []) hs rfl
  | describeTable =>
    cases hs
    simp only [queryPayload, optionalText, h.1 rfl, if_true, stringBytes_length_textSize]
  | deleteCaller =>
    cases hs
    have hsize := ((deleteCaller_counts stray dbmsg).2 (h.2 rfl)).2
    simp only [queryPayload, List.length_append, length_bytes16]
    omega

theorem respSize_eq {c : CIDBMsgCmd} {size : ℕ} (hs : respSize stray dbmsg c = some size) :
    size % 2 ^ 32 = (respPayload stray dbmsg c).length % 2 ^ 32 := by
  cases c with
  | register | writeCaller | writeCall | deleteCaller | listInfo | listen =>
    cases hs
    rfl
  | callerList | readCaller | callList => exact tableAt_size stray dbmsg hs rfl
  | showtables | describeTable =>
    cases hs
    have hopt := optionalStringsBytes_length stray dbmsg
    simp only [respPayload, List.length_append, hopt, length_bytes16]
    omega

theorem entries_writeTableAt {off : ℕ} {fields : List (Store UInt8)} {pass : WritePass}
    (h : writeTableAt stray dbmsg off fields = some pass) : EntriesInList dbmsg pass := by
  obtain ⟨_, -, rfl⟩ := Option.map_eq_some_iff.1 h
  exact entriesInList_nil dbmsg _

/-- For a payload below 2^32 bytes the first pass announces its length and the second reads
the entries that are there exactly when the counts match. -/
theorem query_counts {c : CIDBMsgCmd} {size : ℕ} {pass : WritePass}
    (hs : querySize stray dbmsg c = some size) (hw : queryPass stray dbmsg c = some pass)
    (hp : (queryPayload stray dbmsg c).length < 2 ^ 32) :
    EntriesInList dbmsg pass ∧ size % 2 ^ 32 = (queryPayload stray dbmsg c).length ↔
      QueryCounts dbmsg c := by
  cases c with
  | register | callList | showtables | listInfo | listen =>
    have hsize := querySize_eq stray dbmsg hs (sizesMatch_of_ne dbmsg (by decide) (by decide))
    rw [Nat.mod_eq_of_lt hp] at hsize
    cases hw
    exact iff_of_true ⟨entriesInList_nil dbmsg _, hsize⟩ trivial
  | writeCaller | writeCall =>
    have hsize := querySize_eq stray dbmsg hs (sizesMatch_of_ne dbmsg (by decide) (by decide))
    rw [Nat.mod_eq_of_lt hp] at hsize
    exact iff_of_true ⟨entries_writeTableAt stray dbmsg hw, hsize⟩ trivial
  | callerList | readCaller =>
    have hsize := querySize_eq stray dbmsg hs (sizesMatch_of_ne dbmsg (by decide) (by decide))
    rw [Nat.mod_eq_of_lt hp] at hsize
    cases hw
    exact (and_iff_left hsize).trans (entriesInList_writeFirst stray dbmsg _ _)
  | describeTable =>
    by_cases hl : dbmsg.stringlist.isSome
    · have hm : SizesMatch dbmsg .describeTable := ⟨fun _ => hl, fun h => absurd h (by decide)⟩
      rw [queryPass, if_pos hl] at hw
      cases hw
      rw [and_iff_left ((querySize_eq stray dbmsg hs hm).trans (Nat.mod_eq_of_lt hp))]
      exact entriesInList_zero dbmsg _
    · -- one byte is announced, two are written
      refine iff_of_false (fun h => ?_) fun h => hl h.1
      have hsize := h.2
      cases hs
      simp [queryPayload, optionalText, hl] at hsize
  | deleteCaller =>
    have h₀ := optionalText_le stray dbmsg 0
    have h₁ := optionalText_le stray dbmsg 1
    cases hs
    cases hw
    rw [entriesInList_writeStrings, queryPayload, List.length_append, length_bytes16,
      Nat.mod_eq_of_lt (by omega), deleteCaller_counts]
    rfl

theorem entries_respPass {c : CIDBMsgCmd} {pass : WritePass}
    (hw : respPass stray dbmsg c = some pass) : EntriesInList dbmsg pass := by
  cases c with
  | callerList | readCaller | callList => exact entries_writeTableAt stray dbmsg hw
  | showtables | describeTable =>
    cases hw
    exact entriesInList_writeOptionalStrings stray dbmsg
  | _ =>
    cases hw
    exact entriesInList_nil dbmsg _

theorem counts_iff {size : ℕ} {pass : WritePass} (hs : sizePass stray dbmsg = some (some size))
    (hw : writePass stray dbmsg = some pass) (hp : (payload stray dbmsg).length < 2 ^ 32) :
    EntriesInList dbmsg pass ∧ size % 2 ^ 32 = (payload stray dbmsg).length ↔
      CountsMatch dbmsg := by
  revert hs hw hp
  unfold sizePass payload writePass CountsMatch
  cases CIDBMsgCmd.ofCode dbmsg.cmd with
  | none => exact fun hs => nomatch hs
  | some c =>
    dsimp only
    by_cases hq : dbmsg.subcmd = CIDBMSG_SUBCMD_QUERY
    · simp only [hq, if_true, forall_const, Option.some.injEq]
      exact fun hs hw hp => query_counts stray dbmsg hs hw hp
    · simp only [hq, if_false, false_implies, iff_true]
      intro hs hw hp
      split_ifs at hs
      have hsize := respSize_eq stray dbmsg (Option.some.inj hs)
      exact ⟨entries_respPass stray dbmsg hw, by rw [hsize, Nat.mod_eq_of_lt hp]⟩

theorem payload_of_table {k : ℕ} (hk : tableOffset dbmsg.cmd dbmsg.subcmd = some k) :
    ∃ x : List UInt8, x.length = k ∧
      payload stray dbmsg = x ++ tableBytes stray dbmsg.table := by
  unfold tableOffset at hk
  unfold payload
  cases hc : CIDBMsgCmd.ofCode dbmsg.cmd with
  | none => rw [hc] at hk; cases hk
  | some c =>
    rw [hc, Option.bind_some] at hk
    dsimp only
    split_ifs at hk ⊢
    · cases c <;> cases hk
      · exact ⟨bytes16 _ ++ bytes16 _, rfl, rfl⟩
      · exact ⟨[], rfl, rfl⟩
    · cases c <;> cases hk <;> exact ⟨bytes16 _, rfl, rfl⟩

/-- A table that can be counted is announced with its size. -/
theorem sizePass_of_table {k : ℕ} (hk : tableOffset dbmsg.cmd dbmsg.subcmd = some k)
    (hcount : TableCountable stray dbmsg) (hp : (payload stray dbmsg).length < 2 ^ 32) :
    ∃ size, sizePass stray dbmsg = some (some size) ∧
      size % 2 ^ 32 = (payload stray dbmsg).length := by
  obtain ⟨x, hx, hpay⟩ := payload_of_table stray dbmsg hk
  obtain ⟨size, hs⟩ := Option.isSome_iff_exists.1
    ((tableSize_isSome stray dbmsg k).2 (hcount (by rw [hk]; rfl)))
  have hlen := tableAt_size stray dbmsg hs hx
  rw [← hpay, Nat.mod_eq_of_lt hp] at hlen
  refine ⟨size, ?_, hlen⟩
  unfold tableOffset at hk
  unfold sizePass
  cases hc : CIDBMsgCmd.ofCode dbmsg.cmd with
  | none => rw [hc] at hk; cases hk
  | some c =>
    rw [hc, Option.bind_some] at hk
    dsimp only
    split_ifs at hk with hq hr
    · rw [if_pos hq]
      cases c <;> cases hk <;> exact congrArg some hs
    · rw [if_neg hq, if_pos (Or.inl hr)]
      cases c <;> cases hk <;> exact congrArg some hs

/-- The block is the payload exactly when it is stored to at its own offsets only. -/
theorem offsets_iff {size : ℕ} {pass : WritePass} (hw : writePass stray dbmsg = some pass)
    (hsize : size < 2 ^ 32) : (∀ o, o ∈ offsets pass.stores ↔ o < size) ↔
      (payload stray dbmsg).length < 2 ^ 32 ∧ size = (payload stray dbmsg).length := by
  have hfills := fills_writePass stray dbmsg hw
  constructor
  · intro h
    have hp : (payload stray dbmsg).length < 2 ^ 32 := by
      by_contra hge
      -- the offset behind the block is stored to before the counter wraps
      exact absurd ((h size).1 (hfills.covers size (by omega) hsize)) (Nat.lt_irrefl _)
    have htiles := fun o => (mem_offsets_of_tiles (hfills.tiles hp) (o := o)).symm.trans (h o)
    have h₁ := htiles size
    have h₂ := htiles (payload stray dbmsg).length
    exact ⟨hp, by omega⟩
  · rintro ⟨hp, rfl⟩ o
    rw [mem_offsets_of_tiles (hfills.tiles hp)]
    omega

/-- The header that the encoder leaves when it knows the size. -/
def encodedHeader (size : ℕ) (prior : CIDBMsg) : CIDBMsgHeader :=
  { clientId := dbmsg.clientid, msgCommand := dbmsg.cmd, msgSubcommand := dbmsg.subcmd
    msgId := dbmsg.msgid, msgFlags := 0, dataSize := UInt32.ofNat size, partSize := 0
    offset := prior.header.offset &&& 0xffff0000 }

/-- What the encoder leaves where it allocates a block. -/
theorem writeMessage_block {size : ℕ} (hs : sizePass stray dbmsg = some (some size))
    (hne : UInt32.ofNat size ≠ 0) {pass : WritePass} (hw : writePass stray dbmsg = some pass)
    (fresh : ℕ → UInt8) (prior : CIDBMsg) :
    cidbmsgWriteMessage stray dbmsg fresh prior = some
      { ret := size % 2 ^ 32
        msg := { header := encodedHeader dbmsg size prior
                 data := some (applyAll fresh pass.stores) }
        pass } := by
  unfold cidbmsgWriteMessage
  simp only [hs, hne, if_false, hw, Option.map_some]
  rfl

theorem writeMessage_empty {size : ℕ} (hs : sizePass stray dbmsg = some (some size))
    (h0 : UInt32.ofNat size = 0) (fresh : ℕ → UInt8) (prior : CIDBMsg) :
    cidbmsgWriteMessage stray dbmsg fresh prior = some
      { ret := 0, msg := { header := encodedHeader dbmsg size prior, data := none }
        pass := ⟨[], []⟩ } := by
  unfold cidbmsgWriteMessage
  simp only [hs, h0, if_true]
  rw [encodedHeader, h0]

theorem writeMessage_undefined (fresh : ℕ → UInt8) (prior : CIDBMsg) :
    cidbmsgWriteMessage stray dbmsg fresh prior = none ↔ ¬ TableCountable stray dbmsg := by
  rw [← sizePass_defined, not_not]
  match hs : sizePass stray dbmsg with
  | none =>
    unfold cidbmsgWriteMessage
    rw [hs]
    simp
  | some none =>
    unfold cidbmsgWriteMessage
    rw [hs]
    simp
  | some (some size) =>
    obtain ⟨pass, hw⟩ := writePass_isSome stray dbmsg hs
    by_cases h0 : UInt32.ofNat size = 0
    · rw [writeMessage_empty stray dbmsg hs h0]
      simp
    · rw [writeMessage_block stray dbmsg hs h0 hw]
      simp

/-- Whenever something is encoded, both passes agree exactly when the table can be counted,
the counts match and the payload is shorter than 2^32 bytes. -/
theorem passesAgree_iff (fresh : ℕ → UInt8) (prior : CIDBMsg)
    (hret : ∀ e, cidbmsgWriteMessage stray dbmsg fresh prior = some e → 0 < e.ret) :
    (∃ e, cidbmsgWriteMessage stray dbmsg fresh prior = some e ∧ PassesAgree dbmsg e) ↔
      TableCountable stray dbmsg ∧ CountsMatch dbmsg ∧
        (payload stray dbmsg).length < 2 ^ 32 := by
  match hs : sizePass stray dbmsg with
  | none =>
    have h0 := hret _ (by unfold cidbmsgWriteMessage; rw [hs])
    exact absurd h0 (Nat.lt_irrefl 0)
  | some none =>
    have hcount : ¬ TableCountable stray dbmsg := by
      rw [← sizePass_defined, hs]
      simp
    refine iff_of_false ?_ fun h => hcount h.1
    rintro ⟨e, he, -⟩
    rw [(writeMessage_undefined stray dbmsg fresh prior).2 hcount] at he
    cases he
  | some (some size) =>
    have hcount : TableCountable stray dbmsg := by
      rw [← sizePass_defined, hs]
      simp
    have hne : UInt32.ofNat size ≠ 0 := fun h0 =>
      Nat.lt_irrefl 0 (hret _ (writeMessage_empty stray dbmsg hs h0 fresh prior))
    obtain ⟨pass, hw⟩ := writePass_isSome stray dbmsg hs
    rw [writeMessage_block stray dbmsg hs hne hw, and_iff_right hcount]
    simp only [Option.some.injEq, exists_eq_left', PassesAgree]
    rw [offsets_iff stray dbmsg hw (Nat.mod_lt _ (by decide))]
    constructor
    · rintro ⟨hentries, hp, hlen⟩
      exact ⟨(counts_iff stray dbmsg hs hw hp).1 ⟨hentries, hlen⟩, hp⟩
    · rintro ⟨hc, hp⟩
      obtain ⟨hentries, hlen⟩ := (counts_iff stray dbmsg hs hw hp).2 hc
      exact ⟨hentries, hp, hlen⟩

end

def noMessage : CIDBMsg := { header := ⟨0, 0, 0, 0, 0, 0, 0, 0⟩, data := none }

/-- Two strings, as the documentation of the command says. -/
theorem deleteCaller_passes_agree :
    let dbmsg := { CIDBMessage.ofCmd 0x09 0x80 with
      nstrings := 2, stringlist := some [some [49], none] }
    ∃ e, cidbmsgWriteMessage (fun _ => none) dbmsg (fun _ => 0) noMessage = some e ∧
      PassesAgree dbmsg e := by
  intro dbmsg
  have hret : ∀ e, cidbmsgWriteMessage (fun _ => none) dbmsg (fun _ => 0) noMessage = some e →
      0 < e.ret := by
    rintro _ ⟨⟩
    decide
  have hcounts : CountsMatch dbmsg := fun _ => ⟨rfl, rfl⟩
  exact (passesAgree_iff _ dbmsg _ _ hret).2 ⟨fun h => (nomatch h), hcounts, by decide⟩

/-- A query for a table without a name: one byte is allocated, two are stored. -/
theorem describeTable_overruns :
    let dbmsg := CIDBMessage.ofCmd 0x08 0x80
    ∃ e, cidbmsgWriteMessage (fun _ => none) dbmsg (fun _ => 0) noMessage = some e ∧
      e.ret = 1 ∧ 1 ∈ offsets e.pass.stores ∧ ¬ PassesAgree dbmsg e :=
  ⟨_, rfl, by decide, by decide, fun h => absurd ((h.2 1).1 (by decide)) (by decide)⟩

end Fritz2ci
