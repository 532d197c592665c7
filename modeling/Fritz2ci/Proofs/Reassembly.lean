import Fritz2ci.Proofs.PayloadRead
import Fritz2ci.Spec.CIDBConnection
import Mathlib.Data.List.Perm.Basic

/-! The parts of a message and the receiver that collects them. A part is a header with a
span of the data behind it; the spans tile the data, and a receiver that is given whole
parts, one at a time and in any order, ends with the last one. -/

namespace Fritz2ci

open CString LittleEndian Stores Reading

def headerBytes (header : CIDBMsgHeader) : List UInt8 := content (cidbmsgPrepareHeader header)

/-- The packet for the span of `size` bytes at `off`. -/
def wirePart (msg : CIDBMsg) (span : UInt32 × UInt32) : List UInt8 :=
  headerBytes { msg.header with offset := span.1, partSize := span.2 } ++
    msg.slice span.1.toNat span.2.toNat

/-- The bytes of the data in a span, at their place. -/
def dataStore (msg : CIDBMsg) (span : UInt32 × UInt32) : Store UInt8 :=
  ⟨span.1.toNat, msg.slice span.1.toNat span.2.toNat⟩

@[simp] theorem headerBytes_length (header : CIDBMsgHeader) : (headerBytes header).length = 22 :=
  rfl

@[simp] theorem slice_length (msg : CIDBMsg) (off n : ℕ) : (msg.slice off n).length = n := by
  simp [CIDBMsg.slice]

theorem content_parts_cons (msg : CIDBMsg) (span : UInt32 × UInt32)
    (spans : List (UInt32 × UInt32)) : (content ((span :: spans).map (dataStore msg))).length =
      span.2.toNat + (content (spans.map (dataStore msg))).length := by
  simp [content, dataStore]

theorem wirePart_length (msg : CIDBMsg) (span : UInt32 × UInt32) :
    (wirePart msg span).length = 22 + span.2.toNat := by
  simp [wirePart]

theorem headerBytes_eq (header : CIDBMsgHeader) :
    headerBytes header =
      bytes16 header.clientId ++ ([header.msgCommand] ++ ([header.msgSubcommand] ++
        (bytes32 header.msgId ++ (bytes16 header.msgFlags ++ (bytes32 header.dataSize ++
          (bytes32 header.partSize ++ bytes32 header.offset)))))) := by
  have h : ∀ b : UInt8, b.toUInt16.toUInt8 = b := fun b => by
    apply UInt8.toNat_inj.1
    rw [UInt16.toNat_toUInt8, UInt8.toNat_toUInt16, Nat.mod_eq_of_lt b.toNat_lt]
  simp [headerBytes, content, cidbmsgPrepareHeader, cidbSetUchar, cidbSetUshort, cidbSetUlong, h]

theorem val_readHeader (mem : ℕ → UInt8) : val cidbmsgReadHeader mem =
    { clientId := val (cidbGetUshort 0) mem
      msgCommand := mem 2
      msgSubcommand := mem 3
      msgId := val (cidbGetUlong 4) mem
      msgFlags := val (cidbGetUshort 8) mem
      dataSize := val (cidbGetUlong 10) mem
      partSize := val (cidbGetUlong 14) mem
      offset := val (cidbGetUlong 18) mem } := rfl

theorem readHeader_headerBytes {header : CIDBMsgHeader} {mem : ℕ → UInt8}
    (h : StartsWith mem (headerBytes header)) : val cidbmsgReadHeader mem = header := by
  rw [headerBytes_eq] at h
  obtain ⟨hid, h⟩ := startsWith_append.1 h
  obtain ⟨hcmd, h⟩ := startsWith_append.1 h
  obtain ⟨hsub, h⟩ := startsWith_append.1 h
  obtain ⟨hmsg, h⟩ := startsWith_append.1 h
  obtain ⟨hflags, h⟩ := startsWith_append.1 h
  obtain ⟨hdata, h⟩ := startsWith_append.1 h
  obtain ⟨hpart, hoff⟩ := startsWith_append.1 h
  simp only [length_bytes16, length_bytes32, List.length_singleton, ← Nat.add_assoc, Nat.reduceAdd]
    at hcmd hsub hmsg hflags hdata hpart hoff
  have hcmd : mem 2 = header.msgCommand := hcmd 0 (by simp)
  have hsub : mem 3 = header.msgSubcommand := hsub 0 (by simp)
  have hid : StartsWith (fun i => mem (0 + i)) (bytes16 header.clientId) := by
    simpa only [Nat.zero_add] using hid
  rw [val_readHeader, val_getUshort 0 hid, hcmd, hsub, val_getUlong 4 hmsg, val_getUshort 8 hflags,
    val_getUlong 10 hdata, val_getUlong 14 hpart, val_getUlong 18 hoff]

/-- The header at the front of a packet. -/
def headerOf (packet : List UInt8) : CIDBMsgHeader :=
  val cidbmsgReadHeader fun i => packet.getD i 0

theorem headerOf_wirePart (msg : CIDBMsg) (span : UInt32 × UInt32) :
    headerOf (wirePart msg span) = { msg.header with offset := span.1, partSize := span.2 } := by
  refine readHeader_headerBytes fun i hi => ?_
  have hlt : i < (wirePart msg span).length := by
    rw [wirePart_length]
    rw [headerBytes_length] at hi
    omega
  rw [List.getD_eq_getElem _ _ hlt]
  exact List.getElem_append_left hi

theorem part_tiles (t : CIDBMsgTransmission) (size : UInt32) :
    Tiles 0 (t.part size).1 (t.part size).2.1 := by
  refine tiles_append (q := 22) ⟨rfl, rfl, rfl, rfl, rfl, rfl, rfl, rfl, rfl⟩ ⟨rfl, ?_⟩
  simp [Tiles, CIDBMsgTransmission.part, CIDBMSG_HEADER_SIZE, Nat.add_comm]

theorem part_content (t : CIDBMsgTransmission) (size : UInt32) :
    content (t.part size).1 = wirePart t.completeMsg (t.offset, size) := by
  unfold CIDBMsgTransmission.part wirePart
  rw [content_append]
  simp [content, headerBytes]

/-- Spans that lie behind one another from `p` to the end of the data, none of them empty. -/
structure SpansFrom (msg : CIDBMsg) (p : ℕ) (spans : List (UInt32 × UInt32)) : Prop where
  tiles : Tiles p (spans.map (dataStore msg)) msg.header.dataSize.toNat
  size : ∀ span ∈ spans, 0 < span.2.toNat ∧ span.2.toNat ≤ CIDBMSG_DATA_SIZE

theorem partsFrom_spans (t : CIDBMsgTransmission)
    (h : t.offset.toNat ≤ t.completeMsg.header.dataSize.toNat) :
    ∃ spans, SpansFrom t.completeMsg t.offset.toNat spans ∧
      (partsFrom t).map (fun part => content part.1) = spans.map (wirePart t.completeMsg) ∧
      ∀ part ∈ partsFrom t, Tiles 0 part.1 part.2 := by
  fun_induction partsFrom t with
  | case1 t hnone =>
    have hle := transmissionContinue_none hnone
    exact ⟨[], ⟨by simp [Tiles]; omega, by simp⟩, rfl, by simp⟩
  | case2 t stores bytes next hsome _ ih =>
    obtain ⟨hle, hpart⟩ := transmissionContinue_some hsome
    obtain rfl := congrArg (·.1) hpart
    obtain rfl := congrArg (·.2.1) hpart
    obtain rfl := congrArg (·.2.2) hpart
    have hoff := nextOffset_toNat hle
    have hsize := nextPartSize_toNat hle
    have hpos : 0 < CIDBMSG_DATA_SIZE := by decide
    rw [UInt32.le_iff_toNat_le, Nat.not_le] at hle
    set size := nextPartSize t.completeMsg.header.dataSize t.offset with hdef
    have hin : (t.offset + size).toNat ≤ t.completeMsg.header.dataSize.toNat := by omega
    obtain ⟨spans, hspans, hmap, htiles⟩ := ih hin
    refine ⟨(t.offset, size) :: spans, ⟨⟨rfl, ?_⟩, ?_⟩, ?_, ?_⟩
    · rw [dataStore, slice_length, hsize, ← hoff]
      exact hspans.tiles
    · refine List.forall_mem_cons.2 ⟨?_, hspans.size⟩
      change 0 < size.toNat ∧ size.toNat ≤ CIDBMSG_DATA_SIZE
      omega
    · rw [List.map_cons, List.map_cons, part_content]
      exact congrArg _ hmap
    · exact List.forall_mem_cons.2 ⟨part_tiles t size, htiles⟩

/-- The spans of the parts of a message. -/
structure PartSpans (msg : CIDBMsg) (spans : List (UInt32 × UInt32)) : Prop where
  tiles : Tiles 0 (spans.map (dataStore msg)) msg.header.dataSize.toNat
  size : ∀ span ∈ spans, span.2.toNat ≤ CIDBMSG_DATA_SIZE
  positive : msg.header.dataSize ≠ 0 → ∀ span ∈ spans, 0 < span.2.toNat
  single : msg.header.dataSize = 0 → spans = [(0, 0)]

theorem firstPartSize_toNat (dataSize : UInt32) :
    (if UInt32.ofNat CIDBMSG_DATA_SIZE < dataSize then UInt32.ofNat CIDBMSG_DATA_SIZE
      else dataSize).toNat = min CIDBMSG_DATA_SIZE dataSize.toNat := by
  have hsize : (UInt32.ofNat CIDBMSG_DATA_SIZE).toNat = CIDBMSG_DATA_SIZE := rfl
  split_ifs with h
  all_goals rw [UInt32.lt_iff_toNat_lt, hsize] at h
  · rw [hsize, Nat.min_eq_left h.le]
  · rw [Nat.min_eq_right (by omega)]

theorem transmissionParts_spans (msg : CIDBMsg) :
    ∃ spans, PartSpans msg spans ∧
      (transmissionParts msg).map (fun part => content part.1) = spans.map (wirePart msg) ∧
      ∀ part ∈ transmissionParts msg, Tiles 0 part.1 part.2 := by
  have hsize := firstPartSize_toNat msg.header.dataSize
  have hpos : 0 < CIDBMSG_DATA_SIZE := by decide
  unfold transmissionParts cidbmsgTransmissionStart
  set size := if UInt32.ofNat CIDBMSG_DATA_SIZE < msg.header.dataSize
    then UInt32.ofNat CIDBMSG_DATA_SIZE else msg.header.dataSize
  set t : CIDBMsgTransmission := { completeMsg := msg, offset := 0 }
  have hin : (0 + size).toNat ≤ msg.header.dataSize.toNat := by
    rw [UInt32.zero_add]
    omega
  obtain ⟨spans, hspans, hmap, htiles⟩ := partsFrom_spans (t.part size).2.2 hin
  refine ⟨(0, size) :: spans, ⟨⟨rfl, ?_⟩, ?_, fun hne => ?_, fun hzero => ?_⟩, ?_, ?_⟩
  · rw [dataStore, slice_length, Nat.zero_add]
    have htail := hspans.tiles
    change Tiles (0 + size).toNat _ _ at htail
    rwa [UInt32.zero_add] at htail
  · exact List.forall_mem_cons.2 ⟨by simp only; omega, fun span h => (hspans.size span h).2⟩
  · have : 0 < msg.header.dataSize.toNat :=
      Nat.pos_of_ne_zero fun h => hne (UInt32.toNat_inj.1 h)
    exact List.forall_mem_cons.2 ⟨by simp only; omega, fun span h => (hspans.size span h).1⟩
  · have hz : msg.header.dataSize.toNat = 0 := by rw [hzero]; rfl
    have hsz : size = 0 := UInt32.toNat_inj.1 (by rw [hsize, hz]; rfl)
    have hend := end_of_tiles hspans.tiles
    cases spans with
    | nil => rw [hsz]
    | cons span spans =>
      have := (hspans.size span (by simp)).1
      have hlen : (content ((span :: spans).map (dataStore msg))).length =
          msg.header.dataSize.toNat - (0 + size).toNat := by
        change msg.header.dataSize.toNat = (0 + size).toNat + _ at hend
        rw [hend]
        exact (Nat.add_sub_cancel_left ..).symm
      rw [content_parts_cons] at hlen
      omega
  · rw [List.map_cons, List.map_cons, part_content]
    exact congrArg _ hmap
  · exact List.forall_mem_cons.2 ⟨part_tiles t size, htiles⟩

theorem sent_of_tiles {stores : List (Store UInt8)} {bytes : ℕ} (h : Tiles 0 stores bytes)
    (buffer : ℕ → UInt8) : (List.range bytes).map (applyAll buffer stores) = content stores := by
  have hend := end_of_tiles h
  rw [Nat.zero_add] at hend
  subst hend
  refine range_of_startsWith fun i hi => ?_
  rw [applyAll_of_tiles h, if_pos (Nat.zero_le i), Nat.sub_zero, List.getD_eq_getElem _ _ hi]

theorem sendParts_all {parts : List (List (Store UInt8) × ℕ)}
    (h : ∀ part ∈ parts, Tiles 0 part.1 part.2) (k : ℕ) (buffer : ℕ → UInt8) :
    sendParts (fun _ => true) k buffer parts = (0, parts.map fun part => content part.1) := by
  induction parts generalizing k buffer with
  | nil => rfl
  | cons part parts ih =>
    obtain ⟨hpart, hparts⟩ := List.forall_mem_cons.1 h
    rw [sendParts, if_pos rfl, ih hparts, sent_of_tiles hpart]
    rfl

theorem sendParts_spans (msg : CIDBMsg) :
    ∃ spans, PartSpans msg spans ∧ ∀ buffer,
      sendParts (fun _ => true) 0 buffer (transmissionParts msg) =
        (0, spans.map (wirePart msg)) := by
  obtain ⟨spans, hspans, hmap, htiles⟩ := transmissionParts_spans msg
  exact ⟨spans, hspans, fun buffer => by rw [sendParts_all htiles, hmap]⟩

def packetOf (msg : CIDBMsg) (span : UInt32 × UInt32) : RecvAnswer := .bytes (wirePart msg span)

/-- The copy made for a whole part. -/
def copyAt (msg : CIDBMsg) (span : UInt32 × UInt32) : Copy :=
  { store := dataStore msg span, received := (wirePart msg span).length }

theorem fill_startsWith (buffer : ℕ → UInt8) (bytes : List UInt8) :
    StartsWith ((RecvAnswer.bytes bytes).fill buffer) bytes := fun i hi => by
  rw [RecvAnswer.fill, Store.apply, if_pos (Nat.zero_le i), Nat.sub_zero,
    List.getD_eq_getElem _ _ hi]

theorem readHeader_packet (buffer : ℕ → UInt8) (msg : CIDBMsg) (span : UInt32 × UInt32) :
    val cidbmsgReadHeader ((packetOf msg span).fill buffer) =
      { msg.header with offset := span.1, partSize := span.2 } :=
  readHeader_headerBytes (startsWith_append.1 (fill_startsWith buffer (wirePart msg span))).1

theorem copyOf_packet (buffer : ℕ → UInt8) (msg : CIDBMsg) (span : UInt32 × UInt32) :
    copyOf ((packetOf msg span).fill buffer) (packetOf msg span).count
        { msg.header with offset := span.1, partSize := span.2 } = copyAt msg span := by
  have hdata := (startsWith_append.1 (fill_startsWith buffer (wirePart msg span))).2
  have hbytes := range_of_startsWith hdata
  rw [slice_length, headerBytes_length] at hbytes
  unfold copyOf copyAt dataStore
  simp only [CIDBMSG_HEADER_SIZE, packetOf, RecvAnswer.count, hbytes]

theorem next_packet (s : Receiver) (msg : CIDBMsg) (span : UInt32 × UInt32) :
    s.next (packetOf msg span) =
      { s with buffer := (packetOf msg span).fill s.buffer
               bytesRead := (s.bytesRead + span.2.toNat) % 2 ^ 32
               copies := s.copies ++ [copyAt msg span] } := by
  unfold Receiver.next
  simp only [readHeader_packet, copyOf_packet]

theorem packetOf_count (msg : CIDBMsg) (span : UInt32 × UInt32) :
    ¬ (packetOf msg span).count < CIDBMSG_HEADER_SIZE := by
  simp [packetOf, RecvAnswer.count, wirePart_length, CIDBMSG_HEADER_SIZE]

theorem recvLoop_done {s : Receiver} (h : s.bytesRead = s.header.dataSize.toNat)
    (more : List RecvAnswer) : recvLoop s more = some (true, s, more) := by
  cases more <;> simp [recvLoop, h]

/-- Parts no larger than what is missing are all taken, and the loop is where it would be with
their data in. -/
theorem recvLoop_packets {msg : CIDBMsg} {spans : List (UInt32 × UInt32)}
    (hpos : ∀ span ∈ spans, 0 < span.2.toNat) (s : Receiver)
    (h : s.bytesRead + (content (spans.map (dataStore msg))).length ≤ s.header.dataSize.toNat)
    (more : List RecvAnswer) :
    ∃ buffer, recvLoop s (spans.map (packetOf msg) ++ more) = recvLoop
      { s with buffer
               bytesRead := s.bytesRead + (content (spans.map (dataStore msg))).length
               copies := s.copies ++ spans.map (copyAt msg) } more := by
  induction spans generalizing s with
  | nil => exact ⟨s.buffer, by simp [content]⟩
  | cons span spans ih =>
    obtain ⟨hspan, hspans⟩ := List.forall_mem_cons.1 hpos
    have hlt := s.header.dataSize.toNat_lt
    rw [content_parts_cons] at h ⊢
    rw [List.map_cons, List.cons_append, recvLoop, if_pos (by omega),
      if_neg (packetOf_count msg span), next_packet, Nat.mod_eq_of_lt (by omega)]
    obtain ⟨buffer, hloop⟩ := ih hspans
      { s with buffer := (packetOf msg span).fill s.buffer
               bytesRead := s.bytesRead + span.2.toNat
               copies := s.copies ++ [copyAt msg span] } (by simp only; omega)
    refine ⟨buffer, hloop.trans ?_⟩
    rw [List.append_assoc, Nat.add_assoc]
    rfl

theorem recvLoop_parts {msg : CIDBMsg} {spans : List (UInt32 × UInt32)}
    (hpos : ∀ span ∈ spans, 0 < span.2.toNat) (s : Receiver)
    (h : s.bytesRead + (content (spans.map (dataStore msg))).length = s.header.dataSize.toNat)
    (more : List RecvAnswer) :
    ∃ buffer, recvLoop s (spans.map (packetOf msg) ++ more) =
      some (true, { s with buffer, bytesRead := s.header.dataSize.toNat
                           copies := s.copies ++ spans.map (copyAt msg) }, more) := by
  obtain ⟨buffer, hloop⟩ := recvLoop_packets hpos s h.le more
  rw [h] at hloop
  exact ⟨buffer, hloop.trans (recvLoop_done rfl more)⟩

theorem start_packet {msg : CIDBMsg} (hne : msg.header.dataSize ≠ 0) (first : UInt32 × UInt32)
    (buffer : ℕ → UInt8) : Receiver.start buffer (packetOf msg first) =
      { buffer := (packetOf msg first).fill buffer
        header := { msg.header with offset := first.1, partSize := first.2 }
        bytesRead := first.2.toNat, copies := [copyAt msg first] } := by
  simp [Receiver.start, readHeader_packet, copyOf_packet, hne]

/-- What a receiver that was given all parts holds. -/
structure Reassembled (msg : CIDBMsg) (spans : List (UInt32 × UInt32)) (s : Receiver) : Prop where
  header : { s.header with partSize := UInt32.ofNat s.bytesRead, offset := 0 } =
    { msg.header with partSize := msg.header.dataSize, offset := 0 }
  copies : msg.header.dataSize ≠ 0 → s.copies = spans.map (copyAt msg)
  noCopies : msg.header.dataSize = 0 → s.copies = []

/-- Whole parts whose sizes add up to `dataSize` are all taken, whichever is first. -/
theorem recv_parts {msg : CIDBMsg} {first : UInt32 × UInt32} {spans : List (UInt32 × UInt32)}
    (hpos : msg.header.dataSize ≠ 0 → ∀ span ∈ first :: spans, 0 < span.2.toNat)
    (hzero : msg.header.dataSize = 0 → spans = [])
    (h : (content ((first :: spans).map (dataStore msg))).length = msg.header.dataSize.toNat)
    (buffer : ℕ → UInt8) (more : List RecvAnswer) :
    ∃ s, recvLoop (Receiver.start buffer (packetOf msg first))
        (spans.map (packetOf msg) ++ more) = some (true, s, more) ∧
      Reassembled msg (first :: spans) s := by
  by_cases hne : msg.header.dataSize = 0
  · rw [hzero hne]
    have hstart : Receiver.start buffer (packetOf msg first) =
        { buffer := (packetOf msg first).fill buffer
          header := { msg.header with offset := first.1, partSize := first.2 }
          bytesRead := 0, copies := [] } := by
      simp [Receiver.start, readHeader_packet, hne]
    refine ⟨_, recvLoop_done (s := Receiver.start buffer (packetOf msg first)) ?_ more, ?_⟩
    · rw [hstart, hne]
      rfl
    · rw [hstart]
      exact ⟨by rw [hne]; rfl, fun h => absurd hne h, fun _ => rfl⟩
  · rw [content_parts_cons] at h
    obtain ⟨buffer', hloop⟩ := recvLoop_parts (List.forall_mem_cons.1 (hpos hne)).2
      (Receiver.start buffer (packetOf msg first)) (by rw [start_packet hne]; exact h) more
    rw [start_packet hne] at hloop ⊢
    exact ⟨_, hloop, by simp, fun _ => rfl, fun h => absurd h hne⟩

/-- `got` is the complete message `msg`: its header and the bytes of its data. -/
structure Completes (got msg : CIDBMsg) : Prop where
  header : got.header = { msg.header with partSize := msg.header.dataSize, offset := 0 }
  data : ∀ i < msg.header.dataSize.toNat, got.memory i = msg.memory i
  null : got.data = none ↔ msg.header.dataSize = 0

theorem stores_of_copies (msg : CIDBMsg) (spans : List (UInt32 × UInt32)) :
    (spans.map (copyAt msg)).map (·.store) = spans.map (dataStore msg) :=
  List.map_map

theorem perm_content_length {msg : CIDBMsg} {spans spans' : List (UInt32 × UInt32)}
    (h : spans'.Perm spans) : (content (spans'.map (dataStore msg))).length =
      (content (spans.map (dataStore msg))).length :=
  ((h.map (dataStore msg)).flatMap_right _).length_eq

/-- The parts hold all bytes of the data, however they are ordered. -/
theorem PartSpans.total {msg : CIDBMsg} {spans spans' : List (UInt32 × UInt32)}
    (h : PartSpans msg spans) (hperm : spans'.Perm spans) :
    (content (spans'.map (dataStore msg))).length = msg.header.dataSize.toNat := by
  rw [perm_content_length hperm, end_of_tiles h.tiles, Nat.zero_add]

theorem exists_perm_spans {msg : CIDBMsg} {spans : List (UInt32 × UInt32)}
    {packets : List (List UInt8)} (h : packets.Perm (spans.map (wirePart msg))) :
    ∃ spans' : List (UInt32 × UInt32), packets = spans'.map (wirePart msg) ∧
      spans'.Perm spans := by
  have hcomp := congrFun (congrFun (List.eq_map_comp_perm (wirePart msg)) packets) spans
  exact hcomp.mpr h

theorem perm_offsets {msg : CIDBMsg} {spans spans' : List (UInt32 × UInt32)}
    (h : spans'.Perm spans) {o : ℕ} :
    o ∈ offsets (spans'.map (dataStore msg)) ↔ o ∈ offsets (spans.map (dataStore msg)) :=
  ((h.map (dataStore msg)).flatMap_right _).mem_iff

theorem PartSpans.covers {msg : CIDBMsg} {spans : List (UInt32 × UInt32)} (h : PartSpans msg spans)
    (o : ℕ) : o ∈ offsets (spans.map (dataStore msg)) ↔ o < msg.header.dataSize.toNat := by
  rw [mem_offsets_of_tiles h.tiles]
  omega

theorem reassembled_dataSize {msg : CIDBMsg} {spans : List (UInt32 × UInt32)} {s : Receiver}
    (h : Reassembled msg spans s) : s.header.dataSize = msg.header.dataSize :=
  congrArg (·.dataSize) h.header

/-- The data of a reassembled message: each copy put down the bytes that belong there. -/
theorem reassembled_data {msg : CIDBMsg} {spans spans' : List (UInt32 × UInt32)} {s : Receiver}
    (hparts : PartSpans msg spans) (hperm : spans'.Perm spans) (h : Reassembled msg spans' s)
    (fresh : ℕ → UInt8) {i : ℕ} (hi : i < msg.header.dataSize.toNat) :
    (s.msg fresh).memory i = msg.memory i := by
  have hne : msg.header.dataSize ≠ 0 := fun h0 => by
    rw [h0] at hi
    exact Nat.not_lt_zero i hi
  have hstored : i ∈ offsets (spans'.map (dataStore msg)) :=
    (perm_offsets hperm).2 ((hparts.covers i).2 hi)
  rw [CIDBMsg.memory, Receiver.msg, reassembled_dataSize h, if_pos hne, Option.getD_some,
    h.copies hne, stores_of_copies]
  refine applyAll_eq_of_agree fresh msg.memory (fun store hs k hk => ?_) hstored
  obtain ⟨span, -, rfl⟩ := List.mem_map.1 hs
  simp [dataStore, CIDBMsg.slice]

theorem reassembled_completes {msg : CIDBMsg} {spans spans' : List (UInt32 × UInt32)}
    {s : Receiver} (hparts : PartSpans msg spans) (hperm : spans'.Perm spans)
    (h : Reassembled msg spans' s) (fresh : ℕ → UInt8) : Completes (s.msg fresh) msg where
  header := h.header
  data _ hi := reassembled_data hparts hperm h fresh hi
  null := by simp [Receiver.msg, reassembled_dataSize h]

theorem reassembled_offsets {msg : CIDBMsg} {spans spans' : List (UInt32 × UInt32)}
    {s : Receiver} (hparts : PartSpans msg spans) (hperm : spans'.Perm spans)
    (h : Reassembled msg spans' s) (o : ℕ) :
    o ∈ offsets (s.copies.map (·.store)) ↔ o < msg.header.dataSize.toNat := by
  by_cases hne : msg.header.dataSize = 0
  · rw [h.noCopies hne, hne]
    simp
  · rw [h.copies hne, stores_of_copies, perm_offsets hperm, hparts.covers]

/-- The parts of a message, in any order, are put together to the message. -/
theorem recvMessage_of_perm (stray : ℕ → Option CStr) {msg : CIDBMsg}
    {spans spans' : List (UInt32 × UInt32)} (hparts : PartSpans msg spans)
    (hperm : spans'.Perm spans) (hspans : spans ≠ []) (buffer fresh : ℕ → UInt8)
    (dbmsg : CIDBMessage) (more : List RecvAnswer) :
    ∃ s, Reassembled msg spans' s ∧
      cidbconRecvMessage stray buffer fresh dbmsg (spans'.map (packetOf msg) ++ more) =
        some { rc := 0, dbmsg := (s.msg fresh).read stray, copies := s.copies
               msg := some (s.msg fresh), rest := more } := by
  cases spans' with
  | nil => exact absurd hperm.symm.eq_nil hspans
  | cons first spans' =>
    have hpos : msg.header.dataSize ≠ 0 → ∀ span ∈ first :: spans', 0 < span.2.toNat :=
      fun hne span hs => hparts.positive hne span (hperm.mem_iff.1 hs)
    have hzero : msg.header.dataSize = 0 → spans' = [] := fun h0 => by
      have hlen := hperm.length_eq
      rw [hparts.single h0] at hlen
      exact List.length_eq_zero_iff.1 (Nat.succ.inj hlen)
    obtain ⟨s, hloop, hs⟩ := recv_parts hpos hzero (hparts.total hperm) buffer more
    refine ⟨s, hs, ?_⟩
    rw [List.map_cons, List.cons_append, cidbconRecvMessage,
      if_neg (packetOf_count msg first), hloop]
    rfl

theorem spans_ne_nil {msg : CIDBMsg} {spans : List (UInt32 × UInt32)} {sent : ℕ → UInt8}
    (h : sendParts (fun _ => true) 0 sent (transmissionParts msg) = (0, spans.map (wirePart msg))) :
    spans ≠ [] := by
  rintro rfl
  exact absurd (congrArg (·.2) h) (List.cons_ne_nil _ _)

theorem recvMessage_of_permuted (stray : ℕ → Option CStr) (msg : CIDBMsg)
    (sent buffer fresh : ℕ → UInt8) (dbmsg : CIDBMessage) (packets : List (List UInt8))
    (more : List RecvAnswer)
    (h : packets.Perm (sendParts (fun _ => true) 0 sent (transmissionParts msg)).2) :
    ∃ spans spans' s, PartSpans msg spans ∧ spans'.Perm spans ∧ Reassembled msg spans' s ∧
      cidbconRecvMessage stray buffer fresh dbmsg (packets.map .bytes ++ more) =
        some { rc := 0, dbmsg := (s.msg fresh).read stray, copies := s.copies
               msg := some (s.msg fresh), rest := more } := by
  obtain ⟨spans, hparts, hsent⟩ := sendParts_spans msg
  rw [hsent sent] at h
  have hspans := spans_ne_nil (hsent sent)
  obtain ⟨spans', rfl, hperm⟩ := exists_perm_spans h
  obtain ⟨s, hs, hrecv⟩ := recvMessage_of_perm stray hparts hperm hspans buffer fresh dbmsg more
  refine ⟨spans, spans', s, hparts, hperm, hs, ?_⟩
  rw [List.map_map]
  exact hrecv

/-- However the parts of a message are ordered, the loop ends behind the last of them, every
byte of the data was stored to, and what is read is the message that was sent. -/
theorem parts_reassemble (stray : ℕ → Option CStr) (msg : CIDBMsg) (sent buffer fresh : ℕ → UInt8)
    (dbmsg : CIDBMessage) (packets : List (List UInt8)) (more : List RecvAnswer)
    (h : packets.Perm (sendParts (fun _ => true) 0 sent (transmissionParts msg)).2) :
    ∃ result got,
      cidbconRecvMessage stray buffer fresh dbmsg (packets.map .bytes ++ more) = some result ∧
      result.rc = 0 ∧ result.rest = more ∧
      (∀ o, o ∈ offsets (result.copies.map (·.store)) ↔ o < msg.header.dataSize.toNat) ∧
      result.msg = some got ∧ Completes got msg ∧ result.dbmsg = got.read stray := by
  obtain ⟨spans, spans', s, hparts, hperm, hs, hrecv⟩ :=
    recvMessage_of_permuted stray msg sent buffer fresh dbmsg packets more h
  exact ⟨_, s.msg fresh, hrecv, rfl, rfl, reassembled_offsets hparts hperm hs, rfl,
    reassembled_completes hparts hperm hs fresh, rfl⟩

/-- 4100 bytes of data, in three parts. -/
def longCallers : CIDBMsg where
  header := { clientId := 7, msgCommand := CIDBMsgCmd.callerList.code
              msgSubcommand := CIDBMSG_SUBCMD_RESP, msgId := 1, msgFlags := 0, dataSize := 4100
              partSize := 0, offset := 0 }
  data := some fun i => UInt8.ofNat i

theorem longCallers_reassembles : ∃ result got,
    cidbconRecvMessage (fun _ => none) (fun _ => 0) (fun _ => 0) (CIDBMessage.ofCmd 0 0)
      ((sendParts (fun _ => true) 0 (fun _ => 0) (transmissionParts longCallers)).2.reverse.map
        .bytes ++ []) = some result ∧
    result.rc = 0 ∧ result.rest = [] ∧
    (∀ o, o ∈ offsets (result.copies.map (·.store)) ↔ o < 4100) ∧
    result.msg = some got ∧ Completes got longCallers ∧
    result.dbmsg = got.read (fun _ => none) :=
  parts_reassemble (fun _ => none) longCallers (fun _ => 0) (fun _ => 0) (fun _ => 0)
    (CIDBMessage.ofCmd 0 0) _ [] (List.reverse_perm _)

end Fritz2ci
