import Fritz2ci.Spec.CIDBPayload

/-! `cidbcon_send_message` and `cidbcon_recv_message` over the results of `send` and `recv`. -/

namespace Fritz2ci

open CString Stores Reading

theorem nextPartSize_toNat {dataSize offset : UInt32} (h : ¬ dataSize ≤ offset) :
    (nextPartSize dataSize offset).toNat =
      min CIDBMSG_DATA_SIZE (dataSize.toNat - offset.toNat) := by
  rw [UInt32.le_iff_toNat_le, Nat.not_le] at h
  have hsub : (dataSize - offset).toNat = dataSize.toNat - offset.toNat :=
    UInt32.toNat_sub_of_le _ _ (UInt32.le_iff_toNat_le.2 h.le)
  have hsize : (UInt32.ofNat CIDBMSG_DATA_SIZE).toNat = CIDBMSG_DATA_SIZE := rfl
  unfold nextPartSize
  split_ifs with hle
  · rw [UInt32.le_iff_toNat_le, hsub, hsize] at hle
    rw [hsize, Nat.min_eq_left hle]
  · rw [UInt32.le_iff_toNat_le, hsub, hsize] at hle
    rw [hsub, Nat.min_eq_right (by omega)]

/-- The offset does not wrap: it stays within `dataSize`. -/
theorem nextOffset_toNat {dataSize offset : UInt32} (h : ¬ dataSize ≤ offset) :
    (offset + nextPartSize dataSize offset).toNat =
      offset.toNat + min CIDBMSG_DATA_SIZE (dataSize.toNat - offset.toNat) := by
  have hd := dataSize.toNat_lt
  rw [UInt32.toNat_add, nextPartSize_toNat h]
  rw [UInt32.le_iff_toNat_le, Nat.not_le] at h
  exact Nat.mod_eq_of_lt (by omega)

theorem transmissionContinue_none {msg : CIDBMsgTransmission}
    (h : cidbmsgTransmissionContinue msg = none) :
    msg.completeMsg.header.dataSize.toNat ≤ msg.offset.toNat := by
  unfold cidbmsgTransmissionContinue at h
  split_ifs at h with hle
  exact UInt32.le_iff_toNat_le.1 hle

theorem transmissionContinue_some {msg : CIDBMsgTransmission}
    {part : List (Store UInt8) × ℕ × CIDBMsgTransmission}
    (h : cidbmsgTransmissionContinue msg = some part) :
    ¬ msg.completeMsg.header.dataSize ≤ msg.offset ∧
      msg.part (nextPartSize msg.completeMsg.header.dataSize msg.offset) = part := by
  unfold cidbmsgTransmissionContinue at h
  split_ifs at h with hle
  exact ⟨hle, Option.some.inj h⟩

theorem transmissionContinue_lt {msg next : CIDBMsgTransmission} {stores : List (Store UInt8)}
    {bytes : ℕ} (h : cidbmsgTransmissionContinue msg = some (stores, bytes, next)) :
    next.completeMsg.header.dataSize.toNat - next.offset.toNat <
      msg.completeMsg.header.dataSize.toNat - msg.offset.toNat := by
  obtain ⟨hle, hpart⟩ := transmissionContinue_some h
  obtain rfl := congrArg (·.2.2) hpart
  have hoff := nextOffset_toNat hle
  have hpos : 0 < CIDBMSG_DATA_SIZE := by decide
  rw [UInt32.le_iff_toNat_le, Nat.not_le] at hle
  change msg.completeMsg.header.dataSize.toNat - (msg.offset + nextPartSize _ _).toNat < _
  omega

/-- The parts that `cidbmsg_transmission_continue` prepares until it returns 0. -/
def partsFrom (msg : CIDBMsgTransmission) : List (List (Store UInt8) × ℕ) :=
  match h : cidbmsgTransmissionContinue msg with
  | none => []
  | some (stores, bytes, next) =>
    have := transmissionContinue_lt h
    (stores, bytes) :: partsFrom next
termination_by msg.completeMsg.header.dataSize.toNat - msg.offset.toNat

def transmissionParts (msg : CIDBMsg) : List (List (Store UInt8) × ℕ) :=
  let (stores, bytes, next) := cidbmsgTransmissionStart { completeMsg := msg, offset := 0 }
  (stores, bytes) :: partsFrom next

/-- The loop of `cidbcon_send_message`: its return value and what it passes to `send`.
`took k` tells whether the `k`-th `send` took all bytes. -/
def sendParts (took : ℕ → Bool) :
    ℕ → (ℕ → UInt8) → List (List (Store UInt8) × ℕ) → ℕ × List (List UInt8)
  | _, _, [] => (0, [])
  | k, buffer, (stores, bytes) :: parts =>
    let buffer := applyAll buffer stores
    let sent := (List.range bytes).map buffer
    if took k then
      let (rc, packets) := sendParts took (k + 1) buffer parts
      (rc, sent :: packets)
    else (1, [sent])

/-- `none` where C defines nothing. -/
def cidbconSendMessage (stray : ℕ → Option CStr) (dbmsg : CIDBMessage) (fresh : ℕ → UInt8)
    (prior : CIDBMsg) (took : ℕ → Bool) (buffer : ℕ → UInt8) : Option (ℕ × List (List UInt8)) :=
  (cidbmsgWriteMessage stray dbmsg fresh prior).map fun e =>
    sendParts took 0 buffer (transmissionParts e.msg)

/-- What a `recv` meets: an error, or bytes, none of them at the end of the stream. -/
inductive RecvAnswer
  | error
  | bytes (b : List UInt8)
  deriving DecidableEq, Repr

/-- `(unsigned int) recv (..)` -/
def RecvAnswer.count : RecvAnswer → ℕ
  | .error => 2 ^ 32 - 1
  | .bytes b => b.length

def RecvAnswer.fill (buffer : ℕ → UInt8) : RecvAnswer → ℕ → UInt8
  | .error => buffer
  | .bytes b => Store.apply buffer ⟨0, b⟩

/-- A `memcpy` into the data, made when `received` bytes of the packet were there. -/
structure Copy where
  store : Store UInt8
  received : ℕ

structure Receiver where
  buffer : ℕ → UInt8
  /-- `msg.header`, from the first packet -/
  header : CIDBMsgHeader
  bytesRead : ℕ
  copies : List Copy

/-- The copy that a packet in the buffer asks for. -/
def copyOf (buffer : ℕ → UInt8) (received : ℕ) (header : CIDBMsgHeader) : Copy :=
  { store := ⟨header.offset.toNat,
      (List.range header.partSize.toNat).map fun i => buffer (CIDBMSG_HEADER_SIZE + i)⟩
    received }

/-- The first packet. -/
def Receiver.start (buffer : ℕ → UInt8) (r : RecvAnswer) : Receiver :=
  let buffer := r.fill buffer
  let header := val cidbmsgReadHeader buffer
  if header.dataSize ≠ 0 then
    { buffer, header, bytesRead := header.partSize.toNat, copies := [copyOf buffer r.count header] }
  else { buffer, header, bytesRead := 0, copies := [] }

/-- A packet in the loop. -/
def Receiver.next (s : Receiver) (r : RecvAnswer) : Receiver :=
  let buffer := r.fill s.buffer
  let header := val cidbmsgReadHeader buffer
  { s with
    buffer
    bytesRead := (s.bytesRead + header.partSize.toNat) % 2 ^ 32
    copies := s.copies ++ [copyOf buffer r.count header] }

/-- The loop: whether it ended with all bytes read, its state and the results of `recv` left.
`none` where `recv` blocks. -/
def recvLoop (s : Receiver) : List RecvAnswer → Option (Bool × Receiver × List RecvAnswer)
  | [] => if s.bytesRead < s.header.dataSize.toNat then none else some (true, s, [])
  | r :: rs =>
    if s.bytesRead < s.header.dataSize.toNat then
      if r.count < CIDBMSG_HEADER_SIZE then some (false, s, rs) else recvLoop (s.next r) rs
    else some (true, s, r :: rs)

/-- The message handed to `cidbmsg_read_message`; `fresh` is what the allocated data held. -/
def Receiver.msg (s : Receiver) (fresh : ℕ → UInt8) : CIDBMsg where
  header := { s.header with partSize := UInt32.ofNat s.bytesRead, offset := 0 }
  data := if s.header.dataSize ≠ 0 then some (applyAll fresh (s.copies.map (·.store))) else none

structure RecvResult where
  rc : ℕ
  /-- `none` where `cidbmsg_read_message` leaves what C defines -/
  dbmsg : Option CIDBMessage
  copies : List Copy
  /-- what `cidbmsg_read_message` was called with -/
  msg : Option CIDBMsg
  rest : List RecvAnswer

/-- `cidbcon_recv_message`, `none` where it blocks. `buffer` and `fresh` are what the
message buffer and the allocated data held before. -/
def cidbconRecvMessage (stray : ℕ → Option CStr) (buffer fresh : ℕ → UInt8) (dbmsg : CIDBMessage) :
    List RecvAnswer → Option RecvResult
  | [] => none
  | r :: rs =>
    if r.count < CIDBMSG_HEADER_SIZE then
      some { rc := 1, dbmsg := some dbmsg, copies := [], msg := none, rest := rs }
    else
      (recvLoop (Receiver.start buffer r) rs).map fun (complete, s, rest) =>
        if complete then
          { rc := 0, dbmsg := (s.msg fresh).read stray, copies := s.copies
            msg := some (s.msg fresh), rest }
        else { rc := 1, dbmsg := some dbmsg, copies := s.copies, msg := none, rest }

/-- A call of `cidbcon_send_message`: its message, what the allocated data and message and
the message buffer held before. -/
structure Sending where
  dbmsg : CIDBMessage
  fresh : ℕ → UInt8
  prior : CIDBMsg
  buffer : ℕ → UInt8

/-- The complete message that is sent, `none` where C defines nothing. -/
def Sending.msg (stray : ℕ → Option CStr) (s : Sending) : Option CIDBMsg :=
  (cidbmsgWriteMessage stray s.dbmsg s.fresh s.prior).map (·.msg)

/-- What goes out when every `send` takes all bytes. -/
def Sending.packets (stray : ℕ → Option CStr) (s : Sending) : Option (List (List UInt8)) :=
  (cidbconSendMessage stray s.dbmsg s.fresh s.prior (fun _ => true) s.buffer).map (·.2)

/-- A call of `cidbcon_recv_message`: what the message buffer, the allocated data and
`dbmsg` held before. -/
structure Receiving where
  buffer : ℕ → UInt8
  fresh : ℕ → UInt8
  dbmsg : CIDBMessage

/-- One call of `cidbcon_recv_message` after another, `none` where one blocks. -/
def recvMessages (stray : ℕ → Option CStr) :
    List Receiving → List RecvAnswer → Option (List RecvResult)
  | [], _ => some []
  | call :: calls, rs =>
    (cidbconRecvMessage stray call.buffer call.fresh call.dbmsg rs).bind fun result =>
      (recvMessages stray calls result.rest).map (result :: ·)

end Fritz2ci
