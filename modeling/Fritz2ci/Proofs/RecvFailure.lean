import Fritz2ci.Proofs.PartTiling

/-! A connection that breaks while the parts of a message are received. The end of the stream
and a short packet end the call. A failed `recv` gives -1, which is the largest `unsigned int`,
and the loop takes what the buffer still holds for another packet. -/

namespace Fritz2ci

open CString LittleEndian Stores Reading

/-- The call returns non-zero and leaves `*dbmsg` alone. -/
def Reported (stray : ℕ → Option CStr) (buffer fresh : ℕ → UInt8) (dbmsg : CIDBMessage)
    (rs : List RecvAnswer) : Prop :=
  ∃ result, cidbconRecvMessage stray buffer fresh dbmsg rs = some result ∧ result.rc ≠ 0 ∧
    result.dbmsg = some dbmsg

/-- `recv` fails, or gives the end of the stream or less than a header. -/
def RecvAnswer.Broken : RecvAnswer → Prop
  | .error => True
  | .bytes b => b.length < CIDBMSG_HEADER_SIZE

theorem error_count : ¬ RecvAnswer.error.count < CIDBMSG_HEADER_SIZE := by decide

/-- The loop is only left early by a count below a header. -/
theorem recvLoop_short {s t : Receiver} {rs rest : List RecvAnswer}
    (h : recvLoop s rs = some (false, t, rest)) :
    ∃ r ∈ rs, r.count < CIDBMSG_HEADER_SIZE := by
  induction rs generalizing s with
  | nil =>
    rw [recvLoop] at h
    split_ifs at h
    cases h
  | cons r rs ih =>
    rw [recvLoop] at h
    split_ifs at h with hmore hcount
    · exact ⟨r, by simp, hcount⟩
    · obtain ⟨r', hr, hcount'⟩ := ih h
      exact ⟨r', by simp [hr], hcount'⟩
    · cases h

theorem not_reported {stray : ℕ → Option CStr} {buffer fresh : ℕ → UInt8} {dbmsg : CIDBMessage}
    {rs : List RecvAnswer} (hcount : ∀ r ∈ rs, ¬ r.count < CIDBMSG_HEADER_SIZE) :
    ¬ Reported stray buffer fresh dbmsg rs := by
  rintro ⟨result, hrecv, hrc, -⟩
  cases rs with
  | nil => cases hrecv
  | cons r rs =>
    obtain ⟨hr, hrs⟩ := List.forall_mem_cons.1 hcount
    rw [cidbconRecvMessage, if_neg hr] at hrecv
    obtain ⟨⟨complete, t, rest⟩, hloop, rfl⟩ := Option.map_eq_some_iff.1 hrecv
    cases complete with
    | true => exact hrc rfl
    | false =>
      obtain ⟨r', hr', hshort⟩ := recvLoop_short hloop
      exact hrs r' hr' hshort

theorem reported_short {stray : ℕ → Option CStr} {msg : CIDBMsg}
    {spans got missing : List (UInt32 × UInt32)} (hparts : PartSpans msg spans)
    (hperm : (got ++ missing).Perm spans) (hmissing : missing ≠ []) (buffer fresh : ℕ → UInt8)
    (dbmsg : CIDBMessage) {r : RecvAnswer} (hcount : r.count < CIDBMSG_HEADER_SIZE)
    (more : List RecvAnswer) :
    Reported stray buffer fresh dbmsg (got.map (packetOf msg) ++ r :: more) := by
  cases got with
  | nil =>
    exact ⟨{ rc := 1, dbmsg := some dbmsg, copies := [], msg := none, rest := more }, if_pos hcount,
      Nat.one_ne_zero, rfl⟩
  | cons first got =>
    have hlength := hperm.length_eq
    have hne : msg.header.dataSize ≠ 0 := fun hzero => by
      rw [hparts.single hzero, List.length_append] at hlength
      have := List.length_pos_of_ne_nil hmissing
      simp only [List.length_cons, List.length_nil] at hlength
      omega
    have htotal := hparts.total hperm
    have hmissingSize : 0 < (content (missing.map (dataStore msg))).length := by
      obtain ⟨span, missing, rfl⟩ := List.exists_cons_of_ne_nil hmissing
      have := hparts.positive hne span (hperm.mem_iff.1 (by simp))
      rw [content_parts_cons]
      omega
    have hgot : ∀ span ∈ got, 0 < span.2.toNat := fun span hs =>
      hparts.positive hne span (hperm.mem_iff.1 (by simp [hs]))
    rw [List.map_append, content_append, List.length_append, content_parts_cons] at htotal
    have hleft : first.2.toNat + (content (got.map (dataStore msg))).length <
        msg.header.dataSize.toNat := by omega
    obtain ⟨buffer', hloop⟩ := recvLoop_packets hgot (Receiver.start buffer (packetOf msg first))
      (by rw [start_packet hne]; exact hleft.le) (r :: more)
    rw [start_packet hne] at hloop
    refine ⟨{ rc := 1, dbmsg := some dbmsg, copies := [copyAt msg first] ++ got.map (copyAt msg)
              msg := none, rest := more }, ?_, Nat.one_ne_zero, rfl⟩
    rw [List.map_cons, List.cons_append, cidbconRecvMessage, if_neg (packetOf_count msg first),
      start_packet hne, hloop, recvLoop, if_pos hleft, if_pos hcount]
    rfl

theorem sent_count (msg : CIDBMsg) (sent : ℕ → UInt8) :
    ∀ p ∈ (sendParts (fun _ => true) 0 sent (transmissionParts msg)).2,
      ¬ (RecvAnswer.bytes p).count < CIDBMSG_HEADER_SIZE := by
  obtain ⟨spans, -, hsent⟩ := sendParts_spans msg
  rw [hsent sent]
  intro p hp
  obtain ⟨span, -, rfl⟩ := List.mem_map.1 hp
  exact packetOf_count msg span

/-- Behind any whole parts a failed `recv` is not reported. -/
theorem failed_not_reported (stray : ℕ → Option CStr) (msg : CIDBMsg)
    (sent buffer fresh : ℕ → UInt8) (dbmsg : CIDBMessage) {got : List (List UInt8)}
    (hgot : ∀ p ∈ got, p ∈ (sendParts (fun _ => true) 0 sent (transmissionParts msg)).2) :
    ¬ Reported stray buffer fresh dbmsg (got.map .bytes ++ [.error]) := by
  refine not_reported fun r hr => ?_
  rcases List.mem_append.1 hr with hr | hr
  · obtain ⟨p, hp, rfl⟩ := List.mem_map.1 hr
    exact sent_count msg sent p (hgot p hp)
  · rw [List.mem_singleton.1 hr]
    exact error_count

/-- Wherever the connection breaks, that is reported exactly when `recv` did not fail. -/
theorem broken_reported_iff (stray : ℕ → Option CStr) (msg : CIDBMsg)
    (sent buffer fresh : ℕ → UInt8) (dbmsg : CIDBMessage) {got missing : List (List UInt8)}
    (hparts : (got ++ missing).Perm (sendParts (fun _ => true) 0 sent (transmissionParts msg)).2)
    (hmissing : missing ≠ []) {r : RecvAnswer} (hbroken : r.Broken) :
    (∀ more, Reported stray buffer fresh dbmsg (got.map .bytes ++ r :: more)) ↔ r ≠ .error := by
  constructor
  · rintro h rfl
    exact failed_not_reported stray msg sent buffer fresh dbmsg
      (fun p hp => hparts.mem_iff.1 (List.mem_append_left missing hp)) (h [])
  · intro hne more
    cases r with
    | error => exact absurd rfl hne
    | bytes b =>
      obtain ⟨spans, hspans, hsent⟩ := sendParts_spans msg
      rw [hsent sent] at hparts
      obtain ⟨spans', hmap, hperm⟩ := exists_perm_spans hparts
      obtain ⟨gotSpans, missingSpans, rfl, rfl, rfl⟩ := List.map_eq_append_iff.1 hmap.symm
      have hmissing : missingSpans ≠ [] := fun h => hmissing (by rw [h]; rfl)
      rw [List.map_map]
      have hcount : (RecvAnswer.bytes b).count < CIDBMSG_HEADER_SIZE := hbroken
      exact reported_short hspans hperm hmissing buffer fresh dbmsg hcount more

def threeParts : List (List UInt8) :=
  (sendParts (fun _ => true) 0 (fun _ => 0) (transmissionParts longCallers)).2

theorem threeParts_length : threeParts.length = 3 := by
  obtain ⟨-, -, htiles⟩ := (transmissionParts_spans longCallers).choose_spec
  have hparts := sendParts_all htiles 0 fun _ => 0
  rw [threeParts, hparts, List.length_map, transmissionParts_length]
  decide

theorem third_missing : threeParts.drop 2 ≠ [] := by
  rw [← List.length_pos_iff, List.length_drop, threeParts_length]
  decide

/-- The peer goes away in front of the third part. -/
theorem threeParts_ended : Reported (fun _ => none) (fun _ => 0) (fun _ => 0)
    (CIDBMessage.ofCmd 0 0) ((threeParts.take 2).map .bytes ++ [.bytes []]) :=
  (broken_reported_iff (fun _ => none) longCallers (fun _ => 0) (fun _ => 0) (fun _ => 0)
    (CIDBMessage.ofCmd 0 0) (by rw [List.take_append_drop, threeParts]) third_missing
    (r := .bytes []) (Nat.zero_lt_succ 21)).2 (by decide) []

/-- `recv` fails in front of the third part, and the second is counted again. -/
theorem failed_recv_counted : ¬ ∀ (stray : ℕ → Option CStr) (msg : CIDBMsg)
    (sent buffer fresh : ℕ → UInt8) (dbmsg : CIDBMessage) (got missing : List (List UInt8)),
    (got ++ missing).Perm (sendParts (fun _ => true) 0 sent (transmissionParts msg)).2 →
    missing ≠ [] → ∀ r : RecvAnswer, r.Broken → ∀ more,
    Reported stray buffer fresh dbmsg (got.map .bytes ++ r :: more) := by
  intro h
  have hreported := h (fun _ => none) longCallers (fun _ => 0) (fun _ => 0) (fun _ => 0)
    (CIDBMessage.ofCmd 0 0) (threeParts.take 2) (threeParts.drop 2)
    (by rw [List.take_append_drop, threeParts]) third_missing .error trivial []
  exact failed_not_reported (fun _ => none) longCallers (fun _ => 0) (fun _ => 0) (fun _ => 0)
    (CIDBMessage.ofCmd 0 0) (fun _ hp => List.mem_of_mem_take hp) hreported

end Fritz2ci
