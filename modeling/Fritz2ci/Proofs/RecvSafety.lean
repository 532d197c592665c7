import Fritz2ci.Lib.Machine
import Fritz2ci.Proofs.Reassembly

/-! The copies that `cidbcon_recv_message` makes of packets from any peer. Their ranges are
those the headers announce, which nothing compares with the packet or with the data. -/

namespace Fritz2ci

open CString LittleEndian Stores Reading Machine

/-- A turn of the loop, refused where the loop has ended or ends on the answer. -/
def recvStep (s : Receiver) (r : RecvAnswer) : Option Receiver :=
  if s.bytesRead < s.header.dataSize.toNat ∧ CIDBMSG_HEADER_SIZE ≤ r.count then some (s.next r)
  else none

/-- The state of a call that took the answers, `none` if no call takes all of them. -/
def receiverOf (buffer : ℕ → UInt8) : List RecvAnswer → Option Receiver
  | [] => none
  | r :: rs =>
    if r.count < CIDBMSG_HEADER_SIZE then none else run recvStep (Receiver.start buffer r) rs

/-- The source of the copy was received with its packet, its destination is in the data. -/
def CopyInside (dataSize : ℕ) (c : Copy) : Prop :=
  CIDBMSG_HEADER_SIZE + c.store.cells.length ≤ c.received ∧
    c.store.off + c.store.cells.length ≤ dataSize

/-- The part the packet announces is in the packet, and its place is in the data. -/
def PacketFits (dataSize : ℕ) (packet : List UInt8) : Prop :=
  CIDBMSG_HEADER_SIZE + (headerOf packet).partSize.toNat ≤ packet.length ∧
    (headerOf packet).offset.toNat + (headerOf packet).partSize.toNat ≤ dataSize

instance (dataSize : ℕ) (packet : List UInt8) : Decidable (PacketFits dataSize packet) :=
  inferInstanceAs (Decidable (_ ∧ _))

theorem recvLoop_run {s t : Receiver} {rs rest : List RecvAnswer} {complete : Bool}
    (h : recvLoop s rs = some (complete, t, rest)) :
    ∃ used, used <+: rs ∧ run recvStep s used = some t := by
  induction rs generalizing s with
  | nil =>
    rw [recvLoop] at h
    split_ifs at h
    cases h
    exact ⟨[], List.nil_prefix, rfl⟩
  | cons r rs ih =>
    rw [recvLoop] at h
    split_ifs at h with hmore hcount
    · cases h
      exact ⟨[], List.nil_prefix, rfl⟩
    · obtain ⟨used, hused, hrun⟩ := ih h
      have hstep : recvStep s r = some (s.next r) := if_pos ⟨hmore, Nat.not_lt.1 hcount⟩
      exact ⟨r :: used, List.cons_prefix_cons.2 ⟨rfl, hused⟩,
        run_cons_eq_some.2 ⟨s.next r, hstep, hrun⟩⟩
    · cases h
      exact ⟨[], List.nil_prefix, rfl⟩

theorem recvMessage_copies {stray : ℕ → Option CStr} {buffer fresh : ℕ → UInt8}
    {dbmsg : CIDBMessage} {rs : List RecvAnswer} {result : RecvResult}
    (h : cidbconRecvMessage stray buffer fresh dbmsg rs = some result) :
    result.copies = [] ∨
      ∃ used s, used <+: rs ∧ receiverOf buffer used = some s ∧ result.copies = s.copies := by
  cases rs with
  | nil => cases h
  | cons r rs =>
    rw [cidbconRecvMessage] at h
    split_ifs at h with hcount
    · cases h
      exact Or.inl rfl
    · obtain ⟨⟨complete, t, rest⟩, hloop, rfl⟩ := Option.map_eq_some_iff.1 h
      obtain ⟨used, hused, hrun⟩ := recvLoop_run hloop
      refine Or.inr ⟨r :: used, t, List.cons_prefix_cons.2 ⟨rfl, hused⟩, ?_, ?_⟩
      · rw [receiverOf, if_neg hcount, hrun]
      · cases complete <;> rfl

theorem readHeader_congr {m m' : ℕ → UInt8} (h : ∀ i < 22, m i = m' i) :
    val cidbmsgReadHeader m = val cidbmsgReadHeader m' := by
  have hshort : ∀ off, off + 1 < 22 → val (cidbGetUshort off) m = val (cidbGetUshort off) m' :=
    fun off ho => congrArg₂ value16 (h off (by omega)) (h (off + 1) ho)
  have hlong : ∀ off, off + 3 < 22 → val (cidbGetUlong off) m = val (cidbGetUlong off) m' := by
    intro off ho
    rw [val_getUlong_eq, val_getUlong_eq, h off (by omega), h (off + 1) (by omega),
      h (off + 2) (by omega), h (off + 3) ho]
  rw [val_readHeader, val_readHeader, hshort 0 (by decide), h 2 (by decide), h 3 (by decide),
    hlong 4 (by decide), hshort 8 (by decide), hlong 10 (by decide), hlong 14 (by decide),
    hlong 18 (by decide)]

theorem readHeader_fill (buffer : ℕ → UInt8) {packet : List UInt8} (h : 22 ≤ packet.length) :
    val cidbmsgReadHeader ((RecvAnswer.bytes packet).fill buffer) = headerOf packet := by
  refine readHeader_congr fun i hi => ?_
  have hlt : i < packet.length := by omega
  rw [fill_startsWith buffer packet i hlt, List.getD_eq_getElem _ _ hlt]

theorem copyOf_inside_iff (buffer : ℕ → UInt8) (packet : List UInt8) (n : ℕ) :
    CopyInside n (copyOf buffer (RecvAnswer.bytes packet).count (headerOf packet)) ↔
      PacketFits n packet := by
  simp [CopyInside, PacketFits, copyOf, RecvAnswer.count]

theorem start_inside_iff (buffer : ℕ → UInt8) {packet : List UInt8} (h : 22 ≤ packet.length)
    (n : ℕ) : (∀ c ∈ (Receiver.start buffer (.bytes packet)).copies, CopyInside n c) ↔
      ((headerOf packet).dataSize ≠ 0 → PacketFits n packet) := by
  unfold Receiver.start
  dsimp only
  rw [readHeader_fill buffer h]
  split_ifs with hsize
  · rw [List.forall_mem_singleton, copyOf_inside_iff]
    exact (imp_iff_right hsize).symm
  · simp [hsize]

theorem start_header (buffer : ℕ → UInt8) {packet : List UInt8} (h : 22 ≤ packet.length) :
    (Receiver.start buffer (.bytes packet)).header = headerOf packet := by
  rw [← readHeader_fill buffer h]
  unfold Receiver.start
  dsimp only
  split_ifs <;> rfl

/-- A turn of the loop adds one copy, and keeps the header of the first packet. -/
theorem recvStep_inside_iff {s t : Receiver} {packet : List UInt8} (h : 22 ≤ packet.length)
    (hstep : recvStep s (.bytes packet) = some t) (n : ℕ) :
    t.header = s.header ∧ ((∀ c ∈ t.copies, CopyInside n c) ↔
      (∀ c ∈ s.copies, CopyInside n c) ∧ PacketFits n packet) := by
  unfold recvStep at hstep
  split_ifs at hstep
  obtain rfl := Option.some.inj hstep
  refine ⟨rfl, ?_⟩
  rw [Receiver.next, readHeader_fill s.buffer h]
  rw [List.forall_mem_append, List.forall_mem_singleton, copyOf_inside_iff]

theorem run_inside_iff {packets : List (List UInt8)} (hlen : ∀ p ∈ packets, 22 ≤ p.length)
    (n : ℕ) {s t : Receiver} (hrun : run recvStep s (packets.map .bytes) = some t) :
    t.header = s.header ∧ ((∀ c ∈ t.copies, CopyInside n c) ↔
      (∀ c ∈ s.copies, CopyInside n c) ∧ ∀ p ∈ packets, PacketFits n p) := by
  induction packets generalizing s with
  | nil =>
    cases hrun
    simp
  | cons p packets ih =>
    obtain ⟨hp, hlen⟩ := List.forall_mem_cons.1 hlen
    obtain ⟨s', hstep, hrest⟩ := run_cons_eq_some.1 hrun
    obtain ⟨hheader, hinside⟩ := recvStep_inside_iff hp hstep n
    obtain ⟨hheader', hinside'⟩ := ih hlen hrest
    rw [hheader', hheader, hinside', hinside, List.forall_mem_cons, and_assoc]
    exact ⟨rfl, Iff.rfl⟩

/-- A first packet without data is the only one. -/
theorem single_of_no_data {s t : Receiver} {rs : List RecvAnswer} (h : s.header.dataSize = 0)
    (hrun : run recvStep s rs = some t) : rs = [] := by
  cases rs with
  | nil => rfl
  | cons r rs =>
    obtain ⟨s', hstep, -⟩ := run_cons_eq_some.1 hrun
    unfold recvStep at hstep
    rw [h] at hstep
    split_ifs at hstep with hmore
    exact absurd hmore.1 (Nat.not_lt_zero _)

/-- The copies of a call are in range exactly when every packet holds the part it announces
at a place within the data that the first packet announces, or there is no data. -/
theorem copies_inside_iff (buffer : ℕ → UInt8) (first : List UInt8) (packets : List (List UInt8))
    {s : Receiver} (hcall : receiverOf buffer ((first :: packets).map .bytes) = some s)
    (hlen : ∀ p ∈ first :: packets, 22 ≤ p.length ∧ p.length ≤ CIDBMSG_MSG_TOTAL_SIZE) :
    (∀ c ∈ s.copies, CopyInside (headerOf first).dataSize.toNat c) ↔
      (headerOf first).dataSize = 0 ∨
        ∀ p ∈ first :: packets, PacketFits (headerOf first).dataSize.toNat p := by
  obtain ⟨⟨hfirst, -⟩, hpackets⟩ := List.forall_mem_cons.1 hlen
  rw [List.map_cons, receiverOf] at hcall
  split_ifs at hcall
  obtain ⟨-, hinside⟩ := run_inside_iff (fun p hp => (hpackets p hp).1)
    (headerOf first).dataSize.toNat hcall
  rw [hinside, start_inside_iff buffer hfirst, List.forall_mem_cons]
  by_cases hsize : (headerOf first).dataSize = 0
  · have hnone : packets = [] := by
      have hs := start_header buffer hfirst
      exact List.map_eq_nil_iff.1 (single_of_no_data (by rw [hs, hsize]) hcall)
    simp [hsize, hnone]
  · simp [hsize]

/-- A header that announces one byte of data and a part of 2026 bytes. -/
def bigPart : List UInt8 :=
  headerBytes ⟨0, CIDBMsgCmd.listen.code, CIDBMSG_SUBCMD_QUERY, 0, 0, 1, 2026, 0⟩

theorem headerOf_headerBytes (header : CIDBMsgHeader) : headerOf (headerBytes header) = header :=
  readHeader_headerBytes fun _ hi => List.getD_eq_getElem _ _ hi

/-- A `CIDBMSG_CMD_LISTEN` query with its mask. -/
def listening : List UInt8 :=
  headerBytes ⟨0, CIDBMsgCmd.listen.code, CIDBMSG_SUBCMD_QUERY, 0, 0, 4, 4, 0⟩ ++ [1, 0, 0, 0]

theorem listening_inside :
    (Receiver.start (fun _ => 0) (.bytes listening)).copies.length = 1 ∧
      ∀ c ∈ (Receiver.start (fun _ => 0) (.bytes listening)).copies,
        CopyInside (headerOf listening).dataSize.toNat c :=
  ⟨rfl, (copies_inside_iff (fun _ => 0) listening [] rfl (by decide)).2 (by decide)⟩

/-- One packet of 22 bytes makes the receiver copy 2026 from behind its end over the ends of
the buffer and of the data. -/
theorem bigPart_overruns : ¬ ∀ (buffer : ℕ → UInt8) (first : List UInt8)
    (packets : List (List UInt8)) (s : Receiver),
    receiverOf buffer ((first :: packets).map .bytes) = some s →
    (∀ p ∈ first :: packets, 22 ≤ p.length ∧ p.length ≤ CIDBMSG_MSG_TOTAL_SIZE) →
    ∀ c ∈ s.copies, CopyInside (headerOf first).dataSize.toNat c := by
  intro h
  have hinside := h (fun _ => 0) bigPart [] _ rfl (by decide)
  rw [start_inside_iff _ (by decide), bigPart, headerOf_headerBytes] at hinside
  have hfits := (hinside (by decide)).1
  rw [headerOf_headerBytes] at hfits
  exact absurd hfits (by decide)

end Fritz2ci
