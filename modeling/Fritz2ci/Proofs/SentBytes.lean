import Fritz2ci.Proofs.PayloadRoundTrip
import Fritz2ci.Proofs.Reassembly

/-! Two runs of `cidbcon_send_message` on one message, with whatever the allocated blocks
held before: which messages put only their own bytes on the wire. -/

namespace Fritz2ci

open CString LittleEndian Stores Reading

/-- The encoder leaves what it may touch: it follows a NULL `stringlist`, or stores to an
offset behind its block. -/
def LeavesBlock (dbmsg : CIDBMessage) (e : Encoded) : Prop :=
  (dbmsg.stringlist = none ∧ e.pass.entries ≠ []) ∨ ∃ o ∈ offsets e.pass.stores, e.ret ≤ o

instance (dbmsg : CIDBMessage) (e : Encoded) : Decidable (LeavesBlock dbmsg e) :=
  inferInstanceAs (Decidable (_ ∨ _))

/-- What `cidbcon_send_message` returns and passes to `send`, `none` where it does something
that C leaves undefined. -/
def sentBytes (stray : ℕ → Option CStr) (dbmsg : CIDBMessage) (fresh : ℕ → UInt8)
    (prior : CIDBMsg) (took : ℕ → Bool) (buffer : ℕ → UInt8) : Option (ℕ × List (List UInt8)) :=
  (cidbmsgWriteMessage stray dbmsg fresh prior).bind fun e =>
    if LeavesBlock dbmsg e then none
    else cidbconSendMessage stray dbmsg fresh prior took buffer

/-- The same bytes go out whatever stands in memory behind the arrays of the message, whatever
the new message, its data block and the part buffer held, and however far `send` gets. -/
def SentDetermined (dbmsg : CIDBMessage) : Prop :=
  ∀ stray stray' took fresh fresh' prior prior' buffer buffer', ∃ sent,
    sentBytes stray dbmsg fresh prior took buffer = some sent ∧
      sentBytes stray' dbmsg fresh' prior' took buffer' = some sent

/-- Messages that go out alike: their headers are the same but for the offset, which each part
sets, and so are the data they announce. -/
structure SameWire (msg msg' : CIDBMsg) : Prop where
  header : msg'.header = { msg.header with offset := msg'.header.offset }
  data : ∀ i, i < msg.header.dataSize.toNat → msg.memory i = msg'.memory i

theorem SameWire.dataSize {msg msg' : CIDBMsg} (h : SameWire msg msg') :
    msg'.header.dataSize = msg.header.dataSize := by
  rw [h.header]

theorem SameWire.withSpan {msg msg' : CIDBMsg} (h : SameWire msg msg') (partSize offset : UInt32) :
    { msg'.header with partSize, offset } = { msg.header with partSize, offset } := by
  rw [h.header]

theorem SameWire.slice {msg msg' : CIDBMsg} (h : SameWire msg msg') {off n : ℕ}
    (hin : off + n ≤ msg.header.dataSize.toNat) : msg.slice off n = msg'.slice off n := by
  refine List.map_congr_left fun i hi => ?_
  rw [List.mem_range] at hi
  exact h.data (off + i) (by omega)

theorem part_congr {t t' : CIDBMsgTransmission} (h : SameWire t.completeMsg t'.completeMsg)
    (ho : t.offset = t'.offset) {size : UInt32}
    (hin : t.offset.toNat + size.toNat ≤ t.completeMsg.header.dataSize.toNat) :
    (t.part size).1 = (t'.part size).1 ∧ (t.part size).2.1 = (t'.part size).2.1 := by
  refine ⟨?_, rfl⟩
  simp only [CIDBMsgTransmission.part]
  rw [← ho, h.slice hin, h.withSpan]

theorem part_sameWire {t t' : CIDBMsgTransmission} (h : SameWire t.completeMsg t'.completeMsg)
    (ho : t.offset = t'.offset) (size : UInt32) :
    SameWire (t.part size).2.2.completeMsg (t'.part size).2.2.completeMsg ∧
      (t.part size).2.2.offset = (t'.part size).2.2.offset := by
  refine ⟨⟨?_, fun i hi => h.data i hi⟩, congrArg (· + size) ho⟩
  simp only [CIDBMsgTransmission.part]
  rw [← ho, h.withSpan]

theorem partsFrom_of_none {t : CIDBMsgTransmission} (h : cidbmsgTransmissionContinue t = none) :
    partsFrom t = [] := by
  rw [partsFrom]
  split
  · rfl
  · next hsome => rw [h] at hsome; cases hsome

theorem partsFrom_of_some {t next : CIDBMsgTransmission} {stores : List (Store UInt8)}
    {bytes : ℕ} (h : cidbmsgTransmissionContinue t = some (stores, bytes, next)) :
    partsFrom t = (stores, bytes) :: partsFrom next := by
  rw [partsFrom]
  split
  · next hnone => rw [h] at hnone; cases hnone
  · next hsome =>
    rw [h] at hsome
    cases hsome
    rfl

theorem partsFrom_congr (t : CIDBMsgTransmission) : ∀ t' : CIDBMsgTransmission,
    SameWire t.completeMsg t'.completeMsg → t.offset = t'.offset →
      partsFrom t = partsFrom t' := by
  fun_induction partsFrom t with
  | case1 t hnone =>
    intro t' h ho
    have hnone' : cidbmsgTransmissionContinue t' = none := by
      unfold cidbmsgTransmissionContinue at hnone ⊢
      rw [← ho, h.dataSize]
      split_ifs at hnone ⊢
      rfl
    exact (partsFrom_of_none hnone').symm
  | case2 t stores bytes next hsome _ ih =>
    intro t' h ho
    obtain ⟨hle, hpart⟩ := transmissionContinue_some hsome
    have hsize := nextPartSize_toNat hle
    set size := nextPartSize t.completeMsg.header.dataSize t.offset with hdef
    have hle' : ¬ t'.completeMsg.header.dataSize ≤ t'.offset := by rwa [← ho, h.dataSize]
    have hsome' : cidbmsgTransmissionContinue t' = some (t'.part size) := by
      rw [cidbmsgTransmissionContinue, if_neg hle', hdef, ho, h.dataSize]
    have hin : t.offset.toNat + size.toNat ≤ t.completeMsg.header.dataSize.toNat := by
      rw [UInt32.le_iff_toNat_le, Nat.not_le] at hle
      omega
    obtain ⟨hstores, hbytes⟩ := part_congr h ho hin
    obtain ⟨hwire, hoffset⟩ := part_sameWire h ho size
    obtain ⟨⟨stores', bytes', next'⟩, hpart'⟩ : ∃ part', t'.part size = part' := ⟨_, rfl⟩
    rw [hpart, hpart'] at hwire hoffset
    rw [hpart, hpart'] at hstores hbytes
    rw [hpart'] at hsome'
    obtain rfl : stores = stores' := hstores
    obtain rfl : bytes = bytes' := hbytes
    rw [partsFrom_of_some hsome', ih next' hwire hoffset]

theorem transmissionParts_congr {msg msg' : CIDBMsg} (h : SameWire msg msg') :
    transmissionParts msg = transmissionParts msg' := by
  have hsize := firstPartSize_toNat msg.header.dataSize
  unfold transmissionParts cidbmsgTransmissionStart
  rw [h.dataSize]
  set size := if UInt32.ofNat CIDBMSG_DATA_SIZE < msg.header.dataSize
    then UInt32.ofNat CIDBMSG_DATA_SIZE else msg.header.dataSize
  set t : CIDBMsgTransmission := { completeMsg := msg, offset := 0 }
  set t' : CIDBMsgTransmission := { completeMsg := msg', offset := 0 }
  have ht : SameWire t.completeMsg t'.completeMsg := h
  have hin : t.offset.toNat + size.toNat ≤ t.completeMsg.header.dataSize.toNat := by
    change 0 + size.toNat ≤ msg.header.dataSize.toNat
    omega
  obtain ⟨hstores, hbytes⟩ := part_congr ht rfl hin
  obtain ⟨hwire, hoffset⟩ := part_sameWire ht rfl size
  have hrest := partsFrom_congr _ _ hwire hoffset
  change ((t.part size).1, (t.part size).2.1) :: partsFrom (t.part size).2.2 =
    ((t'.part size).1, (t'.part size).2.1) :: partsFrom (t'.part size).2.2
  rw [hstores, hbytes, hrest]

/-- Parts that fill the buffer as far as it is sent do not show what it held. -/
theorem sendParts_congr {parts : List (List (Store UInt8) × ℕ)}
    (h : ∀ part ∈ parts, Tiles 0 part.1 part.2) (took : ℕ → Bool) (k : ℕ)
    (buffer buffer' : ℕ → UInt8) :
    sendParts took k buffer parts = sendParts took k buffer' parts := by
  induction parts generalizing k buffer buffer' with
  | nil => rfl
  | cons part parts ih =>
    obtain ⟨hpart, hparts⟩ := List.forall_mem_cons.1 h
    rw [sendParts, sendParts, sent_of_tiles hpart, sent_of_tiles hpart,
      ih hparts (k + 1) (applyAll buffer part.1) (applyAll buffer' part.1)]

theorem sendMessage_congr {msg msg' : CIDBMsg} (h : SameWire msg msg') (took : ℕ → Bool)
    (buffer buffer' : ℕ → UInt8) :
    sendParts took 0 buffer (transmissionParts msg) =
      sendParts took 0 buffer' (transmissionParts msg') := by
  obtain ⟨-, -, -, htiles⟩ := transmissionParts_spans msg
  rw [← transmissionParts_congr h]
  exact sendParts_congr htiles took 0 buffer buffer'

theorem sameParts_of_sent {msg msg' : CIDBMsg} {buffer buffer' : ℕ → UInt8}
    (h : sendParts (fun _ => true) 0 buffer (transmissionParts msg) =
      sendParts (fun _ => true) 0 buffer' (transmissionParts msg')) :
    ∃ spans, PartSpans msg spans ∧ spans ≠ [] ∧ ∀ span ∈ spans,
      msg'.header.msgFlags = msg.header.msgFlags ∧
        msg'.header.dataSize = msg.header.dataSize ∧
        msg'.slice span.1.toNat span.2.toNat = msg.slice span.1.toNat span.2.toNat := by
  obtain ⟨spans, hspans, hsent⟩ := sendParts_spans msg
  obtain ⟨spans', -, hsent'⟩ := sendParts_spans msg'
  have hne := spans_ne_nil (hsent buffer)
  rw [hsent, hsent'] at h
  have hpackets : spans.map (wirePart msg) = spans'.map (wirePart msg') := (Prod.mk.inj h).2
  refine ⟨spans, hspans, hne, fun span hspan => ?_⟩
  have hpacket : wirePart msg span ∈ spans'.map (wirePart msg') :=
    hpackets ▸ List.mem_map_of_mem hspan
  obtain ⟨span', -, hsame⟩ := List.mem_map.1 hpacket
  have hheader := congrArg headerOf hsame
  rw [headerOf_wirePart, headerOf_wirePart] at hheader
  have hoff : span'.1 = span.1 := congrArg CIDBMsgHeader.offset hheader
  have hsize : span'.2 = span.2 := congrArg CIDBMsgHeader.partSize hheader
  have hbytes := congrArg (fun packet => packet.drop 22) hsame
  simp only [wirePart, List.drop_left' (headerBytes_length _), hoff, hsize] at hbytes
  have hflags := congrArg CIDBMsgHeader.msgFlags hheader
  have hdataSize := congrArg CIDBMsgHeader.dataSize hheader
  exact ⟨hflags, hdataSize, hbytes⟩

theorem memory_of_sent {msg msg' : CIDBMsg} {buffer buffer' : ℕ → UInt8}
    (h : sendParts (fun _ => true) 0 buffer (transmissionParts msg) =
      sendParts (fun _ => true) 0 buffer' (transmissionParts msg')) {p : ℕ}
    (hp : p < msg.header.dataSize.toNat) : msg'.memory p = msg.memory p := by
  obtain ⟨spans, hspans, -, hparts⟩ := sameParts_of_sent h
  obtain ⟨s, hs, hlo, hhi⟩ := mem_offsets.1
    ((mem_offsets_of_tiles hspans.tiles).2 ⟨Nat.zero_le p, hp⟩)
  obtain ⟨span, hspan, rfl⟩ := List.mem_map.1 hs
  obtain ⟨-, -, hbytes⟩ := hparts span hspan
  rw [dataStore, slice_length] at hhi
  change span.1.toNat ≤ p at hlo
  change p < span.1.toNat + span.2.toNat at hhi
  have hi : p - span.1.toNat < span.2.toNat := by omega
  have hcell := congrArg (fun l => l[p - span.1.toNat]?) hbytes
  simp only [CIDBMsg.slice, List.getElem?_map, List.getElem?_range hi, Option.map_some,
    Option.some.injEq] at hcell
  have hsum : span.1.toNat + (p - span.1.toNat) = p := by omega
  rwa [hsum] at hcell

theorem header_of_sent {msg msg' : CIDBMsg} {buffer buffer' : ℕ → UInt8}
    (h : sendParts (fun _ => true) 0 buffer (transmissionParts msg) =
      sendParts (fun _ => true) 0 buffer' (transmissionParts msg')) :
    msg'.header.msgFlags = msg.header.msgFlags ∧
      msg'.header.dataSize = msg.header.dataSize := by
  obtain ⟨spans, -, hne, hparts⟩ := sameParts_of_sent h
  obtain ⟨span, spans, rfl⟩ := List.exists_cons_of_ne_nil hne
  obtain ⟨hflags, hsize, -⟩ := hparts span List.mem_cons_self
  exact ⟨hflags, hsize⟩

section

variable (dbmsg : CIDBMessage)

/-- A list of strings is one of `nstrings` entries. -/
def ListHeld : Prop :=
  ∀ list, dbmsg.stringlist = some list → list.length = dbmsg.nstrings.toNat

/-- The cells that the loops over the rows visit, as places in the array of fields. -/
def CIDBTable.places (table : CIDBTable) : List ℕ :=
  (List.range table.nrows.toNat).flatMap fun i =>
    (List.range table.ncols.toNat).map fun j => i * table.ncols.toNat % 2 ^ 16 + j

/-- A table whose arrays hold what the loops visit, with no NULL among the names, and whose
row offsets can be computed. -/
structure TableHeld (table : CIDBTable) : Prop where
  names : ∀ j < table.ncols.toNat, ∃ str, table.columnNames[j]? = some (some str)
  fields : ∀ k ∈ table.places, k < table.fields.length
  rows : RowsIndexed table.nrows table.ncols

/-- The size pass has a branch for the message. -/
def KnownMessage : Prop :=
  ∃ c, CIDBMsgCmd.ofCode dbmsg.cmd = some c ∧
    (dbmsg.subcmd = CIDBMSG_SUBCMD_QUERY ∨ dbmsg.subcmd = CIDBMSG_SUBCMD_RESP ∨ c = .listen)

/-- A message with the strings that its query is counted for and a table that is all there,
whose payload is counted right in 32 bits, or as nothing at all. -/
structure Sendable : Prop where
  known : KnownMessage dbmsg
  counts : CountsMatch dbmsg
  table : (tableOffset dbmsg.cmd dbmsg.subcmd).isSome → TableHeld dbmsg.table
  size : (payload (fun _ => none) dbmsg).length < 2 ^ 32 ∨
    2 ^ 32 ∣ (payload (fun _ => none) dbmsg).length

variable {dbmsg}

theorem entry_held (stray stray' : ℕ → Option CStr) {array : List (Option CStr)} {i : ℕ}
    (h : i < array.length) : entry stray array i = entry stray' array i := by
  simp [entry, h]

theorem string_held (hlist : ListHeld dbmsg) (hsome : dbmsg.stringlist.isSome)
    (stray stray' : ℕ → Option CStr) {i : ℕ} (hi : i < dbmsg.nstrings.toNat) :
    dbmsg.string stray i = dbmsg.string stray' i := by
  obtain ⟨list, hl⟩ := Option.isSome_iff_exists.1 hsome
  refine entry_held stray stray' ?_
  rw [hl, Option.getD_some, hlist list hl]
  exact hi

theorem names_held {table : CIDBTable} (h : TableHeld table) (stray stray' : ℕ → Option CStr) :
    table.names stray = table.names stray' := by
  refine List.map_congr_left fun j hj => entry_held stray stray' ?_
  obtain ⟨str, hstr⟩ := h.names j (List.mem_range.1 hj)
  exact (List.getElem?_eq_some_iff.1 hstr).1

theorem tableStrings_places (stray : ℕ → Option CStr) (table : CIDBTable) :
    tableStrings stray table =
      table.names stray ++ table.places.map (entry stray table.fields) := by
  simp only [tableStrings, CIDBTable.places, List.map_flatMap, List.map_map]
  rfl

theorem tableBytes_held {table : CIDBTable} (h : TableHeld table)
    (stray stray' : ℕ → Option CStr) : tableBytes stray table = tableBytes stray' table := by
  have hcells : table.places.map (entry stray table.fields) =
      table.places.map (entry stray' table.fields) :=
    List.map_congr_left fun k hk => entry_held stray stray' (h.fields k hk)
  rw [tableBytes, tableBytes, tableStrings_places, tableStrings_places,
    names_held h stray stray', hcells]

theorem stringsBytes_held (hlist : ListHeld dbmsg) (hsome : dbmsg.stringlist.isSome)
    (stray stray' : ℕ → Option CStr) : stringsBytes stray dbmsg = stringsBytes stray' dbmsg := by
  refine congrArg (bytes16 dbmsg.nstrings ++ ·) (List.flatMap_congr fun i hi => ?_)
  rw [string_held hlist hsome stray stray' (List.mem_range.1 hi)]

theorem firstString_held (hlist : ListHeld dbmsg)
    (hn : dbmsg.stringlist.isSome → dbmsg.nstrings ≠ 0) (stray stray' : ℕ → Option CStr) :
    firstString stray dbmsg = firstString stray' dbmsg := by
  unfold firstString
  split_ifs with hsome
  · exact string_held hlist hsome stray stray' ((nstrings_pos_iff dbmsg).2 (hn hsome))
  · rfl

theorem queryPayload_held (hlist : ListHeld dbmsg) {c : CIDBMsgCmd} (hc : QueryCounts dbmsg c)
    (ht : (queryTable c).isSome → TableHeld dbmsg.table) (stray stray' : ℕ → Option CStr) :
    queryPayload stray dbmsg c = queryPayload stray' dbmsg c := by
  cases c with
  | callerList | readCaller =>
    rw [queryPayload, queryPayload, firstString_held hlist hc stray stray']
  | writeCaller | writeCall =>
    rw [queryPayload, queryPayload, tableBytes_held (ht rfl) stray stray']
  | describeTable =>
    rw [queryPayload, queryPayload, if_pos hc.1, if_pos hc.1,
      string_held hlist hc.1 stray stray' ((nstrings_pos_iff dbmsg).2 hc.2)]
  | deleteCaller =>
    rw [queryPayload, queryPayload, stringsBytes_held hlist hc.1 stray stray']
  | register | callList | showtables | listInfo | listen => rfl

theorem respPayload_held (hlist : ListHeld dbmsg) {c : CIDBMsgCmd}
    (ht : (respTable c).isSome → TableHeld dbmsg.table) (stray stray' : ℕ → Option CStr) :
    respPayload stray dbmsg c = respPayload stray' dbmsg c := by
  cases c with
  | callerList | readCaller | callList =>
    rw [respPayload, respPayload, tableBytes_held (ht rfl) stray stray']
  | showtables | describeTable =>
    rw [respPayload, respPayload, optionalStringsBytes, optionalStringsBytes]
    split_ifs with hsome
    · rw [stringsBytes_held hlist hsome stray stray']
    · rfl
  | register | writeCaller | writeCall | deleteCaller | listInfo | listen => rfl

/-- What is behind the arrays of a message in order does not show in its payload. -/
theorem payload_held (hlist : ListHeld dbmsg) (h : Sendable dbmsg)
    (stray stray' : ℕ → Option CStr) : payload stray dbmsg = payload stray' dbmsg := by
  obtain ⟨⟨c, hcode, hsub⟩, hcounts, htable, -⟩ := h
  simp only [CountsMatch, hcode] at hcounts
  simp only [tableOffset, hcode, Option.bind_some] at htable
  simp only [payload, hcode]
  split_ifs with hq
  · rw [if_pos hq] at htable
    exact queryPayload_held hlist (hcounts hq) htable stray stray'
  · refine respPayload_held hlist (fun hsome => htable ?_) stray stray'
    rcases hsub with hquery | hr | rfl
    · exact absurd hquery hq
    · rwa [if_neg hq, if_pos hr]
    · cases hsome

theorem countable_of_held {table : CIDBTable} (h : TableHeld table)
    (stray : ℕ → Option CStr) : Countable stray table := by
  refine ⟨fun hnull => ?_, h.rows⟩
  obtain ⟨j, hj, hentry⟩ := List.mem_map.1 hnull
  obtain ⟨str, hstr⟩ := h.names j (List.mem_range.1 hj)
  rw [entry, List.getD_eq_getElem?_getD, hstr, Option.getD_some] at hentry
  cases hentry

theorem sizePass_ne_none (stray : ℕ → Option CStr) :
    sizePass stray dbmsg ≠ none ↔ KnownMessage dbmsg := by
  unfold sizePass KnownMessage
  cases CIDBMsgCmd.ofCode dbmsg.cmd with
  | none => simp
  | some c =>
    simp only [Option.some.injEq, exists_eq_left']
    split_ifs with hq hr
    · simp [hq]
    · simp [hq, hr]
    · simp [hq, hr]

theorem sizePass_mod {stray : ℕ → Option CStr} {size : ℕ}
    (hs : sizePass stray dbmsg = some (some size)) (hc : CountsMatch dbmsg) :
    size % 2 ^ 32 = (payload stray dbmsg).length % 2 ^ 32 := by
  revert hs hc
  unfold sizePass payload CountsMatch
  cases CIDBMsgCmd.ofCode dbmsg.cmd with
  | none => exact fun hs => nomatch hs
  | some c =>
    dsimp only
    intro hs hc
    split_ifs at hs ⊢ with hq
    · have hcounts := hc hq
      refine querySize_eq stray dbmsg (Option.some.inj hs) ⟨fun h => ?_, fun h => ?_⟩ <;> subst h
      · exact hcounts.1
      · exact hcounts
    · exact respSize_eq stray dbmsg (Option.some.inj hs)

theorem header_of_write {stray : ℕ → Option CStr} {size : ℕ}
    (hs : sizePass stray dbmsg = some (some size)) {fresh : ℕ → UInt8} {prior : CIDBMsg}
    {e : Encoded} (he : cidbmsgWriteMessage stray dbmsg fresh prior = some e) :
    e.msg.header = encodedHeader dbmsg size prior := by
  by_cases h0 : UInt32.ofNat size = 0
  · rw [writeMessage_empty stray dbmsg hs h0] at he
    cases he
    rfl
  · obtain ⟨pass, hw⟩ := writePass_isSome stray dbmsg hs
    rw [writeMessage_block stray dbmsg hs h0 hw] at he
    cases he
    rfl

/-- What the encoder makes of a message in order. -/
theorem encoded_of_sendable (hlist : ListHeld dbmsg) (h : Sendable dbmsg)
    (stray : ℕ → Option CStr) (fresh : ℕ → UInt8) (prior : CIDBMsg) :
    ∃ e, cidbmsgWriteMessage stray dbmsg fresh prior = some e ∧ ¬ LeavesBlock dbmsg e ∧
      e.msg.header = encodedHeader dbmsg (payload (fun _ => none) dbmsg).length prior ∧
      (e.msg.header.dataSize ≠ 0 → StartsWith e.msg.memory (payload (fun _ => none) dbmsg)) := by
  have hcount : TableCountable stray dbmsg := fun hsome =>
    countable_of_held (h.table hsome) stray
  have hdefined := (sizePass_defined stray dbmsg).2 hcount
  have hknown := (sizePass_ne_none stray).2 h.known
  obtain ⟨size, hs⟩ : ∃ size, sizePass stray dbmsg = some (some size) := by
    match hs : sizePass stray dbmsg with
    | none => exact absurd hs hknown
    | some none => exact absurd hs hdefined
    | some (some size) => exact ⟨size, rfl⟩
  have hmod := sizePass_mod hs h.counts
  have hsize := h.size
  rw [payload_held hlist h stray fun _ => none] at hmod
  have hword : UInt32.ofNat size = UInt32.ofNat (payload (fun _ => none) dbmsg).length :=
    UInt32.toNat_inj.1 hmod
  have hheader : encodedHeader dbmsg size prior =
      encodedHeader dbmsg (payload (fun _ => none) dbmsg).length prior := by
    rw [encodedHeader, encodedHeader, hword]
  by_cases h0 : UInt32.ofNat size = 0
  · refine ⟨_, writeMessage_empty stray dbmsg hs h0 fresh prior, ?_, hheader,
      fun hne => absurd h0 hne⟩
    simp [LeavesBlock]
  · obtain ⟨pass, hw⟩ := writePass_isSome stray dbmsg hs
    have hp : (payload (fun _ => none) dbmsg).length < 2 ^ 32 := by
      refine hsize.resolve_right fun hdvd => h0 (UInt32.toNat_inj.1 ?_)
      rw [UInt32.toNat_ofNat', hmod, Nat.mod_eq_zero_of_dvd hdvd]
      rfl
    rw [Nat.mod_eq_of_lt hp, ← payload_held hlist h stray] at hmod
    rw [← payload_held hlist h stray] at hp hheader ⊢
    obtain ⟨hentries, -⟩ := (counts_iff stray dbmsg hs hw hp).2 h.counts
    have hinside := (offsets_iff stray dbmsg hw (Nat.mod_lt size (by decide))).2 ⟨hp, hmod⟩
    refine ⟨_, writeMessage_block stray dbmsg hs h0 hw fresh prior, ?_, hheader,
      fun _ => fills_memory (fills_writePass stray dbmsg hw) hp fresh⟩
    rintro (⟨hnull, hread⟩ | ⟨o, ho, hle⟩)
    · obtain ⟨i, hi⟩ := List.exists_mem_of_ne_nil _ hread
      have hsome := (hentries i hi).1
      rw [hnull] at hsome
      cases hsome
    · exact absurd ((hinside o).1 ho) (Nat.not_lt.2 hle)

theorem determined_of_sendable (hlist : ListHeld dbmsg) (h : Sendable dbmsg) :
    SentDetermined dbmsg := by
  intro stray stray' took fresh fresh' prior prior' buffer buffer'
  obtain ⟨e, he, hin, hheader, hdata⟩ := encoded_of_sendable hlist h stray fresh prior
  obtain ⟨e', he', hin', hheader', hdata'⟩ := encoded_of_sendable hlist h stray' fresh' prior'
  have hwire : SameWire e.msg e'.msg := by
    refine ⟨by rw [hheader, hheader']; rfl, fun i hi => ?_⟩
    have hne : e.msg.header.dataSize ≠ 0 := fun h0 => by
      rw [h0] at hi
      exact Nat.not_lt_zero i hi
    have hne' : e'.msg.header.dataSize ≠ 0 := by
      rw [hheader] at hne
      rw [hheader']
      exact hne
    have hlt : i < (payload (fun _ => none) dbmsg).length := by
      rw [hheader] at hi
      exact hi.trans_le (Nat.mod_le _ _)
    rw [hdata hne i hlt, hdata' hne' i hlt]
  have hsent := sendMessage_congr hwire took buffer buffer'
  refine ⟨sendParts took 0 buffer (transmissionParts e.msg), ?_, ?_⟩
  · rw [sentBytes, he, Option.bind_some, if_neg hin, cidbconSendMessage, he, Option.map_some]
  · rw [sentBytes, he', Option.bind_some, if_neg hin', cidbconSendMessage, he', Option.map_some,
      hsent]

/-- Two encodings of a determined message stay inside their blocks and go out alike. -/
theorem alike_of_determined (h : SentDetermined dbmsg) (stray stray' : ℕ → Option CStr)
    (fresh fresh' : ℕ → UInt8) (prior prior' : CIDBMsg) :
    ∃ e e', cidbmsgWriteMessage stray dbmsg fresh prior = some e ∧
      cidbmsgWriteMessage stray' dbmsg fresh' prior' = some e' ∧ ¬ LeavesBlock dbmsg e ∧
      sendParts (fun _ => true) 0 (fun _ => 0) (transmissionParts e.msg) =
        sendParts (fun _ => true) 0 (fun _ => 0) (transmissionParts e'.msg) := by
  obtain ⟨sent, hsent, hsent'⟩ :=
    h stray stray' (fun _ => true) fresh fresh' prior prior' (fun _ => 0) fun _ => 0
  obtain ⟨e, he, hrest⟩ := Option.bind_eq_some_iff.1 hsent
  obtain ⟨e', he', hrest'⟩ := Option.bind_eq_some_iff.1 hsent'
  split_ifs at hrest with hin
  split_ifs at hrest' with hin'
  rw [cidbconSendMessage, he, Option.map_some, Option.some.injEq] at hrest
  rw [cidbconSendMessage, he', Option.map_some, Option.some.injEq] at hrest'
  exact ⟨e, e', he, he', hin, hrest.trans hrest'.symm⟩

/-- A message without a branch of its own goes out with the flags that the new block held. -/
theorem known_of_determined (h : SentDetermined dbmsg) : KnownMessage dbmsg := by
  rw [← sizePass_ne_none fun _ => none]
  intro hs
  obtain ⟨e, e', he, he', -, hsent⟩ := alike_of_determined h (fun _ => none) (fun _ => none)
    (fun _ => 0) (fun _ => 0) noMessage
    { noMessage with header := { noMessage.header with msgFlags := 1 } }
  unfold cidbmsgWriteMessage at he he'
  rw [hs] at he he'
  cases he
  cases he'
  have hflags : (1 : UInt16) = 0 := (header_of_sent hsent).1
  exact absurd hflags (by decide)

theorem sizes_of_determined (h : SentDetermined dbmsg) (stray : ℕ → Option CStr) :
    ∃ size, sizePass stray dbmsg = some (some size) := by
  have hknown := (sizePass_ne_none stray).2 (known_of_determined h)
  match hs : sizePass stray dbmsg with
  | none => exact absurd hs hknown
  | some none =>
    obtain ⟨e, -, he, -⟩ :=
      alike_of_determined h stray stray (fun _ => 0) (fun _ => 0) noMessage noMessage
    have hcount : ¬ TableCountable stray dbmsg := fun hc =>
      (sizePass_defined stray dbmsg).2 hc hs
    rw [(writeMessage_undefined stray dbmsg _ _).2 hcount] at he
    cases he
  | some (some size) => exact ⟨size, rfl⟩

/-- The size announced does not depend on what is behind the arrays. -/
theorem size_of_determined (h : SentDetermined dbmsg) {stray stray' : ℕ → Option CStr}
    {size size' : ℕ} (hs : sizePass stray dbmsg = some (some size))
    (hs' : sizePass stray' dbmsg = some (some size')) : size % 2 ^ 32 = size' % 2 ^ 32 := by
  obtain ⟨e, e', he, he', -, hsent⟩ := alike_of_determined h stray stray' (fun _ => 0)
    (fun _ => 0) noMessage noMessage
  have hsize := (header_of_sent hsent).2
  rw [header_of_write hs he, header_of_write hs' he'] at hsize
  exact (congrArg UInt32.toNat hsize).symm

/-- A block that is announced is written, all of it and nothing else. -/
theorem block_of_determined (h : SentDetermined dbmsg) {stray : ℕ → Option CStr} {size : ℕ}
    (hs : sizePass stray dbmsg = some (some size)) (hne : size % 2 ^ 32 ≠ 0) :
    (payload stray dbmsg).length < 2 ^ 32 ∧ size % 2 ^ 32 = (payload stray dbmsg).length ∧
      ∀ pass, writePass stray dbmsg = some pass → dbmsg.stringlist = none →
        pass.entries = [] := by
  have h0 : UInt32.ofNat size ≠ 0 := fun h0 => hne (congrArg UInt32.toNat h0)
  obtain ⟨pass, hw⟩ := writePass_isSome stray dbmsg hs
  obtain ⟨e, e', he, he', hin, hsent⟩ := alike_of_determined h stray stray (fun _ => 0)
    (fun _ => 1) noMessage noMessage
  rw [writeMessage_block stray dbmsg hs h0 hw] at he he'
  cases he
  cases he'
  have hstored : ∀ o, o ∈ offsets pass.stores ↔ o < size % 2 ^ 32 := by
    refine fun o => ⟨fun ho => ?_, fun ho => ?_⟩
    · by_contra hle
      exact hin (Or.inr ⟨o, ho, Nat.not_lt.1 hle⟩)
    · by_contra hnot
      have hmemory : applyAll (fun _ => 1) pass.stores o = applyAll (fun _ => 0) pass.stores o :=
        memory_of_sent hsent ho
      rw [applyAll_of_notMem _ hnot, applyAll_of_notMem _ hnot] at hmemory
      exact absurd hmemory (by decide)
  obtain ⟨hp, hsize⟩ := (offsets_iff stray dbmsg hw (Nat.mod_lt size (by decide))).1 hstored
  refine ⟨hp, hsize, fun pass' hw' hnull => ?_⟩
  obtain rfl := Option.some.inj (hw.symm.trans hw')
  by_contra hread
  exact hin (Or.inl ⟨hnull, hread⟩)

/-- With an empty list the first string is foreign memory, and so is its length. -/
theorem nstrings_of_determined (h : SentDetermined dbmsg) (hlist : ListHeld dbmsg)
    (hsome : dbmsg.stringlist.isSome) {n : ℕ} (hsize : ∀ stray, sizePass stray dbmsg =
      some (some (n + optionalText stray dbmsg 0))) (hn : n ≤ 5) : dbmsg.nstrings ≠ 0 := by
  intro h0
  obtain ⟨list, hl⟩ := Option.isSome_iff_exists.1 hsome
  have hnil : list = [] := by
    rw [← List.length_eq_zero_iff, hlist list hl, h0]
    rfl
  have htext : ∀ stray : ℕ → Option CStr,
      optionalText stray dbmsg 0 = textSize (stray 0) := fun stray => by
    rw [optionalText, if_pos hsome, CIDBMessage.string, hl, hnil]
    rfl
  have hsame := size_of_determined h (hsize fun _ => none) (hsize fun _ => some [1])
  have hnone : textSize none = 0 := rfl
  have hone : textSize (some [1]) = 1 := rfl
  have hlt : n + 1 < 2 ^ 32 := (Nat.succ_le_succ hn).trans_lt (by decide)
  rw [htext, htext, hnone, hone, Nat.add_zero, Nat.mod_eq_of_lt (Nat.lt_of_succ_lt hlt),
    Nat.mod_eq_of_lt hlt] at hsame
  omega

theorem queryCounts_of_determined (h : SentDetermined dbmsg) (hlist : ListHeld dbmsg)
    {c : CIDBMsgCmd} (hcode : CIDBMsgCmd.ofCode dbmsg.cmd = some c)
    (hq : dbmsg.subcmd = CIDBMSG_SUBCMD_QUERY) : QueryCounts dbmsg c := by
  have hs : ∀ stray, sizePass stray dbmsg = some (querySize stray dbmsg c) := fun stray => by
    simp only [sizePass, hcode, if_pos hq]
  have hpay : ∀ stray, payload stray dbmsg = queryPayload stray dbmsg c := fun stray => by
    simp only [payload, hcode, if_pos hq]
  have hpass : ∀ stray, writePass stray dbmsg = queryPass stray dbmsg c := fun stray => by
    simp only [writePass, hcode, if_pos hq]
  cases c with
  | callerList => exact fun hsome => nstrings_of_determined h hlist hsome hs (by decide)
  | readCaller => exact fun hsome => nstrings_of_determined h hlist hsome hs (by decide)
  | describeTable =>
    have hsome : dbmsg.stringlist.isSome := by
      by_contra hnull
      have htext : optionalText (fun _ => none) dbmsg 0 = 0 := if_neg hnull
      have hone := hs fun _ => none
      rw [querySize, htext] at hone
      have hblock := (block_of_determined h hone (by decide)).2.1
      rw [hpay, queryPayload, if_neg hnull] at hblock
      exact absurd hblock (by decide)
    exact ⟨hsome, nstrings_of_determined h hlist hsome hs (by decide)⟩
  | deleteCaller =>
    have h₀ := optionalText_le (fun _ => none) dbmsg 0
    have h₁ := optionalText_le (fun _ => none) dbmsg 1
    have hmod : (6 + optionalText (fun _ => none) dbmsg 0 + optionalText (fun _ => none) dbmsg 1) %
        2 ^ 32 = 6 + optionalText (fun _ => none) dbmsg 0 + optionalText (fun _ => none) dbmsg 1 :=
      Nat.mod_eq_of_lt (by omega)
    obtain ⟨-, hsize, hentries⟩ := block_of_determined h (hs fun _ => none) (by omega)
    rw [hpay, queryPayload, List.length_append, length_bytes16, hmod] at hsize
    refine (deleteCaller_counts (fun _ => none) dbmsg).1 ⟨fun hn => ?_, hsize⟩
    by_contra hnull
    have hnil := hentries _ (hpass _) (Option.not_isSome_iff_eq_none.1 hnull)
    exact hn (List.range_eq_nil.1 hnil)
  | register | writeCaller | writeCall | callList | showtables | listInfo | listen => trivial

theorem counts_of_determined (h : SentDetermined dbmsg) (hlist : ListHeld dbmsg) :
    CountsMatch dbmsg := by
  obtain ⟨c, hcode, -⟩ := known_of_determined h
  simp only [CountsMatch, hcode]
  exact queryCounts_of_determined h hlist hcode

/-- Every place behind the end of an array shows in the length of the encoding. -/
theorem missing_length (array : List (Option CStr)) (places : List ℕ) :
    ((places.map (entry (fun _ => some [1]) array)).flatMap stringBytes).length =
      ((places.map (entry (fun _ => none) array)).flatMap stringBytes).length +
        (places.filter (array.length ≤ ·)).length := by
  induction places with
  | nil => rfl
  | cons k places ih =>
    simp only [List.map_cons, List.flatMap_cons, List.length_append, ih]
    by_cases hk : array.length ≤ k
    · have hentry : ∀ s : Option CStr, entry (fun _ => s) array k = s := fun s => by
        rw [entry, List.getD_eq_getElem?_getD, List.getElem?_eq_none hk, Option.getD_none]
      have hone : (stringBytes (some [1])).length = (stringBytes none).length + 1 := by decide
      rw [hentry, hentry, List.filter_cons_of_pos (by simpa using hk), List.length_cons, hone]
      omega
    · rw [entry_held (fun _ => some [1]) (fun _ => none) (Nat.lt_of_not_le hk),
        List.filter_cons_of_neg (by simpa using hk)]
      omega

theorem places_length (table : CIDBTable) : table.places.length < 2 ^ 32 := by
  have hrows := table.nrows.toNat_lt
  have hcols := table.ncols.toNat_lt
  have hlen : table.places.length = table.nrows.toNat * table.ncols.toNat := by
    simp [CIDBTable.places]
  rw [hlen]
  exact (Nat.mul_lt_mul'' hrows hcols).trans_eq (by decide)

theorem table_of_determined (h : SentDetermined dbmsg) (hlist : ListHeld dbmsg)
    (hsome : (tableOffset dbmsg.cmd dbmsg.subcmd).isSome) : TableHeld dbmsg.table := by
  have hcounts := counts_of_determined h hlist
  have hcountable : ∀ stray, Countable stray dbmsg.table := fun stray => by
    obtain ⟨size, hs⟩ := sizes_of_determined h stray
    exact (sizePass_defined stray dbmsg).1 (by rw [hs]; simp) hsome
  have hnames : ∀ j < dbmsg.table.ncols.toNat,
      ∃ str, dbmsg.table.columnNames[j]? = some (some str) := by
    intro j hj
    have hnone := (hcountable fun _ => none).1
    match hentry : dbmsg.table.columnNames[j]? with
    | some (some str) => exact ⟨str, rfl⟩
    | some none | none =>
      refine absurd (List.mem_map.2 ⟨j, List.mem_range.2 hj, ?_⟩) hnone
      rw [entry, List.getD_eq_getElem?_getD, hentry]
      rfl
  refine ⟨hnames, ?_, (hcountable fun _ => none).2⟩
  obtain ⟨k, hk⟩ := Option.isSome_iff_exists.1 hsome
  obtain ⟨size, hs⟩ := sizes_of_determined h fun _ => none
  obtain ⟨size', hs'⟩ := sizes_of_determined h fun _ => some [1]
  have hsame := size_of_determined h hs hs'
  rw [sizePass_mod hs hcounts, sizePass_mod hs' hcounts] at hsame
  have hnamesSame : dbmsg.table.names (fun _ => none) =
      dbmsg.table.names fun _ => some [1] := by
    refine List.map_congr_left fun j hj => entry_held _ _ ?_
    obtain ⟨str, hstr⟩ := hnames j (List.mem_range.1 hj)
    exact (List.getElem?_eq_some_iff.1 hstr).1
  have hlength : (payload (fun _ => some [1]) dbmsg).length =
      (payload (fun _ => none) dbmsg).length +
        (dbmsg.table.places.filter (dbmsg.table.fields.length ≤ ·)).length := by
    obtain ⟨x, hx, hpay⟩ := payload_of_table (fun _ => none) dbmsg hk
    obtain ⟨x', hx', hpay'⟩ := payload_of_table (fun _ => some [1]) dbmsg hk
    rw [hpay, hpay', List.length_append, List.length_append, hx, hx', tableBytes, tableBytes,
      tableStrings_places, tableStrings_places, hnamesSame]
    simp only [List.length_append, List.flatMap_append, missing_length]
    omega
  have hfew := (List.length_filter_le (dbmsg.table.fields.length ≤ ·)
    dbmsg.table.places).trans_lt (places_length dbmsg.table)
  have hnone : dbmsg.table.places.filter (dbmsg.table.fields.length ≤ ·) = [] := by
    rw [← List.length_eq_zero_iff]
    omega
  intro place hplace
  have hin := List.filter_eq_nil_iff.1 hnone place hplace
  simpa using hin

theorem size_of_determined_payload (h : SentDetermined dbmsg) (hlist : ListHeld dbmsg) :
    (payload (fun _ => none) dbmsg).length < 2 ^ 32 ∨
      2 ^ 32 ∣ (payload (fun _ => none) dbmsg).length := by
  obtain ⟨size, hs⟩ := sizes_of_determined h fun _ => none
  by_cases h0 : size % 2 ^ 32 = 0
  · rw [sizePass_mod hs (counts_of_determined h hlist)] at h0
    exact Or.inr (Nat.dvd_of_mod_eq_zero h0)
  · exact Or.inl (block_of_determined h hs h0).1

/-- What goes out depends on the message alone exactly for the messages in order. -/
theorem sentDetermined_iff (hlist : ListHeld dbmsg) : SentDetermined dbmsg ↔ Sendable dbmsg :=
  ⟨fun h => ⟨known_of_determined h, counts_of_determined h hlist, table_of_determined h hlist,
    size_of_determined_payload h hlist⟩, determined_of_sendable hlist⟩

end

/-- The deletion of a caller told by as many strings as given. -/
def deletion (strings : List (Option CStr)) : CIDBMessage :=
  { CIDBMessage.ofCmd 0x09 0x80 with
    nstrings := UInt16.ofNat strings.length, stringlist := some strings }

theorem deletion_listHeld {strings : List (Option CStr)} (h : strings.length < 2 ^ 16) :
    ListHeld (deletion strings) := by
  rintro _ ⟨⟩
  exact (Nat.mod_eq_of_lt h).symm

theorem deletion_determined : SentDetermined (deletion [some [49], none]) :=
  (sentDetermined_iff (deletion_listHeld (by decide))).2
    ⟨⟨.deleteCaller, rfl, Or.inl rfl⟩, fun _ => ⟨rfl, rfl⟩, fun h => (nomatch h),
      Or.inl (by decide)⟩

/-- Told by one string: the size is counted for two, and the sixth byte of the data is whatever
`malloc` returned. -/
theorem deleteCaller_leaks : ¬ ∀ dbmsg, ListHeld dbmsg → SentDetermined dbmsg := by
  intro h
  have hlist : ListHeld (deletion [some []]) := deletion_listHeld (by decide)
  have hcounts := counts_of_determined (h _ hlist) hlist rfl
  exact absurd hcounts.2 (by decide)

end Fritz2ci
