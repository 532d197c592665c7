import Fritz2ci.Proofs.Reassembly

/-! Messages sent one after another over a byte stream. The receiver takes what a `recv`
gives for one whole part, which it is where every `recv` happens to give one. -/

namespace Fritz2ci

open CString Stores Reading

/-- The results of the calls are the messages that were sent. -/
def Transferred (stray : ℕ → Option CStr) (transfers : List (Sending × Receiving))
    (chunks : List (List UInt8)) : Prop :=
  ∃ results, recvMessages stray (transfers.map (·.2)) (chunks.map .bytes) = some results ∧
    List.Forall₂ (fun transfer result => result.rc = 0 ∧
      ∃ msg got, transfer.1.msg stray = some msg ∧ Completes got msg ∧
        result.dbmsg = got.read stray)
      transfers results

/-- The parts of all messages, each by itself. -/
def wholeParts (stray : ℕ → Option CStr) (transfers : List (Sending × Receiving)) :
    Option (List (List UInt8)) :=
  (transfers.mapM fun (transfer : Sending × Receiving) =>
    transfer.1.packets stray).map List.flatten

theorem packets_of_msg {stray : ℕ → Option CStr} {send : Sending} {packets : List (List UInt8)}
    (h : send.packets stray = some packets) : ∃ msg, send.msg stray = some msg ∧
      packets = (sendParts (fun _ => true) 0 send.buffer (transmissionParts msg)).2 := by
  obtain ⟨sent, hsent, rfl⟩ := Option.map_eq_some_iff.1 h
  obtain ⟨e, he, rfl⟩ := Option.map_eq_some_iff.1 hsent
  exact ⟨e.msg, by rw [Sending.msg, he, Option.map_some], rfl⟩

theorem recvMessage_of_packets {stray : ℕ → Option CStr} {send : Sending}
    {packets : List (List UInt8)} (h : send.packets stray = some packets) (call : Receiving)
    (more : List RecvAnswer) :
    ∃ result, cidbconRecvMessage stray call.buffer call.fresh call.dbmsg
        (packets.map .bytes ++ more) = some result ∧ result.rc = 0 ∧
      result.rest = more ∧
      ∃ msg got, send.msg stray = some msg ∧ Completes got msg ∧
        result.dbmsg = got.read stray := by
  obtain ⟨msg, hmsg, rfl⟩ := packets_of_msg h
  obtain ⟨spans, spans', s, hparts, hperm, hs, hrecv⟩ := recvMessage_of_permuted stray
    msg send.buffer call.buffer call.fresh call.dbmsg _ more (List.Perm.refl _)
  exact ⟨_, hrecv, rfl, rfl, msg, s.msg call.fresh, hmsg,
    reassembled_completes hparts hperm hs call.fresh, rfl⟩

theorem wholeParts_cons {stray : ℕ → Option CStr} {transfer : Sending × Receiving}
    {transfers : List (Sending × Receiving)} {chunks : List (List UInt8)}
    (h : wholeParts stray (transfer :: transfers) = some chunks) :
    ∃ packets rest, transfer.1.packets stray = some packets ∧
      wholeParts stray transfers = some rest ∧ chunks = packets ++ rest := by
  obtain ⟨parts, hparts, rfl⟩ := Option.map_eq_some_iff.1 h
  rw [List.mapM_cons] at hparts
  obtain ⟨packets, hpackets, hmore⟩ := Option.bind_eq_some_iff.1 hparts
  obtain ⟨rest, hrest, hcons⟩ := Option.bind_eq_some_iff.1 hmore
  cases hcons
  exact ⟨packets, rest.flatten, hpackets, by rw [wholeParts, hrest, Option.map_some], rfl⟩

theorem transferred_wholeParts {stray : ℕ → Option CStr} {transfers : List (Sending × Receiving)}
    {chunks : List (List UInt8)} (h : wholeParts stray transfers = some chunks) :
    Transferred stray transfers chunks := by
  induction transfers generalizing chunks with
  | nil =>
    cases h
    exact ⟨[], rfl, List.Forall₂.nil⟩
  | cons transfer transfers ih =>
    obtain ⟨packets, rest, hpackets, hrest, rfl⟩ := wholeParts_cons h
    obtain ⟨results, hresults, hsame⟩ := ih hrest
    obtain ⟨result, hrecv, hrc, hleft, hgot⟩ :=
      recvMessage_of_packets hpackets transfer.2 (rest.map .bytes)
    refine ⟨result :: results, ?_, List.Forall₂.cons ⟨hrc, hgot⟩ hsame⟩
    rw [List.map_append, List.map_cons, recvMessages, hrecv, Option.bind_some, hleft, hresults]
    rfl

theorem recvLoop_takes {s t : Receiver} {rs rest : List RecvAnswer}
    (h : recvLoop s rs = some (true, t, rest)) :
    ∃ used, rs = used ++ rest ∧ ∀ r ∈ used, CIDBMSG_HEADER_SIZE ≤ r.count := by
  induction rs generalizing s with
  | nil =>
    rw [recvLoop] at h
    split_ifs at h
    cases h
    exact ⟨[], rfl, by simp⟩
  | cons r rs ih =>
    rw [recvLoop] at h
    split_ifs at h with hmore hcount
    · exact absurd (congrArg (·.1) (Option.some.inj h)) Bool.false_ne_true
    · obtain ⟨used, rfl, hused⟩ := ih h
      exact ⟨r :: used, rfl, List.forall_mem_cons.2 ⟨Nat.not_lt.1 hcount, hused⟩⟩
    · cases h
      exact ⟨[], rfl, by simp⟩

theorem recvMessage_takes {stray : ℕ → Option CStr} {call : Receiving} {rs : List RecvAnswer}
    {result : RecvResult}
    (h : cidbconRecvMessage stray call.buffer call.fresh call.dbmsg rs = some result)
    (hrc : result.rc = 0) :
    ∃ used, rs = used ++ result.rest ∧ 0 < used.length ∧
      ∀ r ∈ used, CIDBMSG_HEADER_SIZE ≤ r.count := by
  cases rs with
  | nil => cases h
  | cons r rs =>
    rw [cidbconRecvMessage] at h
    split_ifs at h with hcount
    · cases h
      cases hrc
    · obtain ⟨⟨complete, s, rest⟩, hloop, rfl⟩ := Option.map_eq_some_iff.1 h
      cases complete with
      | false => cases hrc
      | true =>
        obtain ⟨used, rfl, hused⟩ := recvLoop_takes hloop
        exact ⟨r :: used, rfl, Nat.succ_pos _,
          List.forall_mem_cons.2 ⟨Nat.not_lt.1 hcount, hused⟩⟩

theorem recvMessages_take {stray : ℕ → Option CStr} {calls : List Receiving}
    {rs : List RecvAnswer} {results : List RecvResult}
    (h : recvMessages stray calls rs = some results) (hrc : ∀ result ∈ results, result.rc = 0) :
    ∃ used rest, rs = used ++ rest ∧ calls.length ≤ used.length ∧
      ∀ r ∈ used, CIDBMSG_HEADER_SIZE ≤ r.count := by
  induction calls generalizing rs results with
  | nil => exact ⟨[], rs, rfl, Nat.le_refl 0, by simp⟩
  | cons call calls ih =>
    obtain ⟨result, hrecv, hmap⟩ := Option.bind_eq_some_iff.1 h
    obtain ⟨results', hrest, rfl⟩ := Option.map_eq_some_iff.1 hmap
    obtain ⟨hrc₁, hrc₂⟩ := List.forall_mem_cons.1 hrc
    obtain ⟨used, hrs, hpos, hused⟩ := recvMessage_takes hrecv hrc₁
    obtain ⟨used', rest, hrs', hlen, hused'⟩ := ih hrest hrc₂
    refine ⟨used ++ used', rest, by rw [hrs, hrs', List.append_assoc], ?_, ?_⟩
    · rw [List.length_append, List.length_cons]
      omega
    · exact List.forall_mem_append.2 ⟨hused, hused'⟩

/-- A transfer takes at least one `recv` for each message, and no `recv` of less than a header. -/
theorem transferred_takes {stray : ℕ → Option CStr} {transfers : List (Sending × Receiving)}
    {chunks : List (List UInt8)} (h : Transferred stray transfers chunks) :
    ∃ n ≤ chunks.length, transfers.length ≤ n ∧
      ∀ c ∈ chunks.take n, CIDBMSG_HEADER_SIZE ≤ c.length := by
  obtain ⟨results, hresults, hsame⟩ := h
  have hrc : ∀ result ∈ results, result.rc = 0 := fun result hr => by
    obtain ⟨i, hi, rfl⟩ := List.mem_iff_getElem.1 hr
    exact ((List.forall₂_iff_get.1 hsame).2 i (hsame.length_eq ▸ hi) hi).1
  obtain ⟨used, rest, hused, hlen, hcount⟩ := recvMessages_take hresults hrc
  have htake : (chunks.take used.length).map RecvAnswer.bytes = used := by
    rw [List.map_take, hused, List.take_left]
  have hle := congrArg List.length hused
  rw [List.length_map, List.length_append] at hle
  rw [List.length_map] at hlen
  refine ⟨used.length, by omega, hlen, fun c hc => ?_⟩
  have hmem := List.mem_map_of_mem (f := RecvAnswer.bytes) hc
  rw [htake] at hmem
  exact hcount _ hmem

/-- The whole parts are chunks that a `recv` can give. -/
theorem wholeParts_chunks {stray : ℕ → Option CStr} {transfers : List (Sending × Receiving)}
    {chunks : List (List UInt8)} (h : wholeParts stray transfers = some chunks) :
    ∀ c ∈ chunks, 0 < c.length ∧ c.length ≤ CIDBMSG_MSG_TOTAL_SIZE := by
  induction transfers generalizing chunks with
  | nil =>
    cases h
    exact fun c hc => nomatch hc
  | cons transfer transfers ih =>
    obtain ⟨packets, rest, hpackets, hrest, rfl⟩ := wholeParts_cons h
    refine List.forall_mem_append.2 ⟨fun c hc => ?_, ih hrest⟩
    obtain ⟨msg, -, rfl⟩ := packets_of_msg hpackets
    obtain ⟨spans, hparts, hsent⟩ := sendParts_spans msg
    rw [hsent transfer.1.buffer] at hc
    obtain ⟨span, hspan, rfl⟩ := List.mem_map.1 hc
    have hsize := hparts.size span hspan
    have htotal : CIDBMSG_DATA_SIZE + 22 = CIDBMSG_MSG_TOTAL_SIZE := rfl
    rw [wirePart_length]
    omega

/-- Where every `recv` gives one whole part, all messages arrive. Messages never arrive with
fewer chunks than messages, nor through a chunk that is shorter than a header. -/
theorem transferred_of_whole_parts (stray : ℕ → Option CStr)
    (transfers : List (Sending × Receiving)) (chunks : List (List UInt8)) :
    (wholeParts stray transfers = some chunks → Transferred stray transfers chunks) ∧
    (Transferred stray transfers chunks → ∃ n ≤ chunks.length, transfers.length ≤ n ∧
      ∀ c ∈ chunks.take n, CIDBMSG_HEADER_SIZE ≤ c.length) :=
  ⟨transferred_wholeParts, transferred_takes⟩

/-- A `CIDBMSG_CMD_REGISTER` query, 22 bytes on the wire. -/
def registering : Sending × Receiving :=
  ({ dbmsg := CIDBMessage.ofCmd 0x01 0x80, fresh := fun _ => 0
     prior := ⟨⟨0, 0, 0, 0, 0, 0, 0, 0⟩, none⟩, buffer := fun _ => 0 },
   { buffer := fun _ => 0, fresh := fun _ => 0, dbmsg := CIDBMessage.ofCmd 0 0 })

theorem registering_packets : ∃ packet : List UInt8, packet.length = 22 ∧
    registering.1.packets (fun _ => none) = some [packet] := by
  have hmsg : registering.1.msg (fun _ => none) =
      some ⟨⟨0, 0x01, 0x80, 0, 0, 0, 0, 0⟩, none⟩ := rfl
  obtain ⟨spans, hparts, hsent⟩ := sendParts_spans ⟨⟨0, 0x01, 0x80, 0, 0, 0, 0, 0⟩, none⟩
  rw [hparts.single rfl] at hsent
  exact ⟨_, wirePart_length _ _, congrArg (some ∘ Prod.snd) (hsent registering.1.buffer)⟩

/-- Two registrations that one `recv` gives together: the second call finds nothing. -/
theorem coalesced_messages_lost :
    ¬ ∀ (stray : ℕ → Option CStr) (transfers : List (Sending × Receiving))
      (whole chunks : List (List UInt8)), wholeParts stray transfers = some whole →
      chunks.flatten = whole.flatten →
      (∀ c ∈ chunks, 0 < c.length ∧ c.length ≤ CIDBMSG_MSG_TOTAL_SIZE) →
      Transferred stray transfers chunks := by
  intro h
  obtain ⟨packet, hlen, hpacket⟩ := registering_packets
  have hwhole : wholeParts (fun _ => none) [registering, registering] =
      some [packet, packet] := by
    simp [wholeParts, hpacket]
  have hsent := h (fun _ => none) [registering, registering] [packet, packet] [packet ++ packet]
    hwhole (by simp) (by
      rw [List.forall_mem_singleton, List.length_append, hlen]
      decide)
  obtain ⟨n, hle, hn, -⟩ := transferred_takes hsent
  have htwo : 2 ≤ 1 := hn.trans hle
  exact absurd htwo (by decide)

end Fritz2ci
