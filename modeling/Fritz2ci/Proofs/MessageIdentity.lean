import Fritz2ci.Proofs.PayloadRoundTrip
import Fritz2ci.Proofs.StreamTransfer

/-! The identifiers of a message on their way to the receiver. `cidbmsg_write_message` puts
them into the header, which every part carries; `cidbmsg_read_message` does not look there. -/

namespace Fritz2ci

open CString LittleEndian Stores Reading

/-- The received message is the answer to, or comes from, the one the sender meant. -/
def SameIdentity (sender received : CIDBMessage) : Prop :=
  received.msgid = sender.msgid ∧ received.clientid = sender.clientid

/-- The one kind of message with a client id in its payload. -/
def AssignsClient (dbmsg : CIDBMessage) : Prop :=
  dbmsg.cmd = CIDBMsgCmd.register.code ∧ dbmsg.subcmd = CIDBMSG_SUBCMD_RESP

theorem code_inj {c d : CIDBMsgCmd} : c.code = d.code ↔ c = d := by
  refine ⟨fun h => ?_, fun h => h ▸ rfl⟩
  have hsome := CIDBMsgCmd.ofCode_code c
  rw [h, CIDBMsgCmd.ofCode_code d] at hsome
  exact (Option.some.inj hsome).symm

section Branches

variable (stray : ℕ → Option CStr) (dbmsg : CIDBMessage) (mem : ℕ → UInt8)

theorem readStrings_identity {r : CIDBMessage} (h : val (readStrings dbmsg) mem = some r) :
    r.msgid = dbmsg.msgid ∧ r.clientid = dbmsg.clientid := by
  simp only [readStrings, val_bind] at h
  split_ifs at h <;> cases h <;> exact ⟨rfl, rfl⟩

theorem readTableAt_identity {off : ℕ} {r : CIDBMessage}
    (h : val (readTableAt stray off dbmsg) mem = some r) :
    r.msgid = dbmsg.msgid ∧ r.clientid = dbmsg.clientid := by
  obtain ⟨_, -, rfl⟩ := Option.map_eq_some_iff.1 h
  exact ⟨rfl, rfl⟩

theorem readQuery_identity {null : Bool} {c : CIDBMsgCmd} {r : CIDBMessage}
    (h : val (readQuery stray null dbmsg c) mem = some r) :
    r.msgid = dbmsg.msgid ∧ r.clientid = dbmsg.clientid := by
  cases c with
  | deleteCaller =>
    rw [readQuery, val_bind] at h
    exact (readStrings_identity _ mem h :)
  | writeCaller =>
    rw [readQuery, val_bind, val_bind] at h
    exact (readTableAt_identity stray _ mem h :)
  | writeCall =>
    cases null with
    | true => cases h; exact ⟨rfl, rfl⟩
    | false => exact readTableAt_identity stray _ mem h
  | describeTable => cases null <;> cases h <;> exact ⟨rfl, rfl⟩
  | _ => cases h; exact ⟨rfl, rfl⟩

theorem readResp_identity {c : CIDBMsgCmd} {r : CIDBMessage}
    (h : val (readResp stray dbmsg c) mem = some r) :
    r.msgid = dbmsg.msgid ∧
      r.clientid = if c = .register then val (cidbGetUshort 2) mem else dbmsg.clientid := by
  rw [readResp, val_bind] at h
  cases c with
  | showtables | describeTable => exact (readStrings_identity _ mem h :)
  | callerList | readCaller | callList => exact (readTableAt_identity stray _ mem h :)
  | _ => cases h; exact ⟨rfl, rfl⟩

end Branches

/-- Every branch of the decoder leaves the message id zero, and the client id too where the
payload has none. -/
theorem read_identity {stray : ℕ → Option CStr} {msg : CIDBMsg} {r : CIDBMessage}
    (h : msg.read stray = some r) {c : CIDBMsgCmd} (hcmd : msg.header.msgCommand = c.code)
    (hsub : msg.header.msgSubcommand = CIDBMSG_SUBCMD_QUERY ∨
      msg.header.msgSubcommand = CIDBMSG_SUBCMD_RESP) :
    r.msgid = 0 ∧
      (¬ (c = .register ∧ msg.header.msgSubcommand = CIDBMSG_SUBCMD_RESP) → r.clientid = 0) ∧
      (c = .register → msg.header.msgSubcommand = CIDBMSG_SUBCMD_RESP →
        r.clientid = val (cidbGetUshort 2) msg.memory) := by
  have hc : CIDBMsgCmd.ofCode msg.header.msgCommand = some c := hcmd ▸ CIDBMsgCmd.ofCode_code c
  unfold CIDBMsg.read cidbmsgReadMessage at h
  simp only [hc] at h
  by_cases hq : msg.header.msgSubcommand = CIDBMSG_SUBCMD_QUERY
  · rw [if_pos hq] at h
    obtain ⟨hid, hclient⟩ := readQuery_identity stray _ msg.memory h
    refine ⟨hid, fun _ => hclient, fun _ hr => ?_⟩
    rw [hq] at hr
    exact absurd hr (by decide)
  · have hr := hsub.resolve_left hq
    rw [if_neg hq, if_pos hr] at h
    obtain ⟨hid, hclient⟩ := readResp_identity stray _ msg.memory h
    refine ⟨hid, fun hnot => ?_, fun hreg _ => ?_⟩
    · rw [hclient, if_neg fun hreg => hnot ⟨hreg, hr⟩]
      rfl
    · rw [hclient, if_pos hreg]

/-- The payload of a response to a registration, with the client id behind the error code. -/
theorem register_clientid {stray : ℕ → Option CStr} {send : Sending} {msg : CIDBMsg}
    (h : AssignsClient send.dbmsg) (hmsg : send.msg stray = some msg) {got : CIDBMsg}
    (hgot : Completes got msg) :
    val (cidbGetUshort 2) got.memory = send.dbmsg.clientid := by
  have hc : CIDBMsgCmd.ofCode send.dbmsg.cmd = some .register := by rw [h.1]; rfl
  have hnq : send.dbmsg.subcmd ≠ CIDBMSG_SUBCMD_QUERY := by rw [h.2]; decide
  have hs : sizePass stray send.dbmsg = some (some 4) := by
    simp only [sizePass, hc, if_neg hnq, if_pos (Or.inl h.2), respSize]
  have hpay : payload stray send.dbmsg =
      bytes16 send.dbmsg.errcode ++ bytes16 send.dbmsg.clientid := by
    simp only [payload, hc, if_neg hnq, respPayload]
  obtain ⟨e, he, hheader, hmem, -⟩ := writeMessage_msg stray send.fresh send.prior hs
    (by rw [hpay, List.length_append, length_bytes16, length_bytes16]; decide) (by rw [hpay]; rfl)
  rw [Sending.msg, he, Option.map_some, Option.some.injEq] at hmsg
  subst hmsg
  have hsize : e.msg.header.dataSize = 4 := by
    rw [hheader]
    rfl
  have hdata : StartsWith got.memory (payload stray send.dbmsg) := fun i hi => by
    rw [hgot.data i (by rw [hsize]; rw [hpay] at hi; exact hi)]
    exact hmem i hi
  rw [hpay] at hdata
  exact val_getUshort 2 (startsWith_append.1 hdata).2

theorem sending_header {stray : ℕ → Option CStr} {send : Sending} {msg : CIDBMsg}
    (h : send.msg stray = some msg) :
    msg.header.msgCommand = send.dbmsg.cmd ∧ msg.header.msgSubcommand = send.dbmsg.subcmd := by
  obtain ⟨e, he, rfl⟩ := Option.map_eq_some_iff.1 h
  unfold cidbmsgWriteMessage at he
  split at he
  · cases he
    exact ⟨rfl, rfl⟩
  · cases he
  · dsimp only at he
    split_ifs at he
    · cases he
      exact ⟨rfl, rfl⟩
    · obtain ⟨pass, -, rfl⟩ := Option.map_eq_some_iff.1 he
      exact ⟨rfl, rfl⟩

theorem received_defined {stray : ℕ → Option CStr} (stray' : ℕ → Option CStr) {send : Sending}
    {msg got : CIDBMsg} (hmsg : send.msg stray = some msg) (hgot : Completes got msg)
    (hp : (payload stray send.dbmsg).length < 2 ^ 32) : (got.read stray').isSome := by
  obtain ⟨hsent, hsentSub⟩ := sending_header hmsg
  rw [readMessage_isSome, hgot.header]
  dsimp only
  rw [hsent, hsentSub]
  intro k hk
  obtain ⟨e, he, rfl⟩ := Option.map_eq_some_iff.1 hmsg
  have hcount : TableCountable stray send.dbmsg := by
    by_contra hnot
    rw [(writeMessage_undefined stray send.dbmsg send.fresh send.prior).2 hnot] at he
    cases he
  have hrows := (hcount (Option.isSome_iff_exists.2 ⟨k, hk⟩)).2
  obtain ⟨x, hx, hpay⟩ := payload_of_table stray send.dbmsg hk
  obtain ⟨size, hs, hsize⟩ := sizePass_of_table stray send.dbmsg hk hcount hp
  obtain ⟨e', he', hheader, hmem, -⟩ := writeMessage_msg stray send.fresh send.prior hs hp hsize
  obtain rfl := Option.some.inj (he.symm.trans he')
  have hdata : StartsWith got.memory (payload stray send.dbmsg) := fun i hi => by
    rw [hgot.data i (by rw [hheader]; change i < size % 2 ^ 32; rwa [hsize])]
    exact hmem i hi
  rw [hpay, tableBytes] at hdata
  have htable := (startsWith_append.1 (startsWith_append.1 hdata).2).1
  obtain ⟨hnrows, hncols⟩ := startsWith_append.1 htable
  rw [hx] at hnrows hncols
  simp only [length_bytes16, ← Nat.add_assoc] at hncols
  rw [RowsIndexedAt, val_getUshort k hnrows, val_getUshort (k + 2) hncols]
  exact hrows

theorem received_identity (stray stray' : ℕ → Option CStr) (send : Sending)
    (call : Receiving) {packets whole : List (List UInt8)} (more : List RecvAnswer)
    (hcmd : ∃ c : CIDBMsgCmd, send.dbmsg.cmd = c.code)
    (hsub : send.dbmsg.subcmd = CIDBMSG_SUBCMD_QUERY ∨ send.dbmsg.subcmd = CIDBMSG_SUBCMD_RESP)
    (hwhole : send.packets stray = some whole) (hpackets : packets.Perm whole) :
    ∃ result, cidbconRecvMessage stray' call.buffer call.fresh call.dbmsg
        (packets.map .bytes ++ more) = some result ∧ result.rc = 0 ∧
      ((payload stray send.dbmsg).length < 2 ^ 32 → result.dbmsg.isSome) ∧
      ∀ r, result.dbmsg = some r → r.msgid = 0 ∧
        (¬ AssignsClient send.dbmsg → r.clientid = 0) ∧
        (AssignsClient send.dbmsg → r.clientid = send.dbmsg.clientid) := by
  obtain ⟨c, hc⟩ := hcmd
  obtain ⟨msg, hmsg, rfl⟩ := packets_of_msg hwhole
  obtain ⟨spans, spans', s, hparts, hperm, hs, hrecv⟩ := recvMessage_of_permuted stray'
    msg send.buffer call.buffer call.fresh call.dbmsg packets more hpackets
  have hgot : Completes (s.msg call.fresh) msg := reassembled_completes hparts hperm hs call.fresh
  obtain ⟨hsent, hsentSub⟩ := sending_header hmsg
  have hcode : (s.msg call.fresh).header.msgCommand = c.code := by
    rw [hgot.header, ← hc, ← hsent]
  have hsubcmd : (s.msg call.fresh).header.msgSubcommand = send.dbmsg.subcmd := by
    rw [hgot.header, ← hsentSub]
  have hassigns : AssignsClient send.dbmsg ↔ c = .register ∧
      (s.msg call.fresh).header.msgSubcommand = CIDBMSG_SUBCMD_RESP := by
    rw [AssignsClient, hc, hsubcmd, code_inj]
  refine ⟨_, hrecv, rfl, received_defined stray' hmsg hgot, fun r hr => ?_⟩
  obtain ⟨hid, hclient, hassigned⟩ := read_identity hr hcode (by rwa [hsubcmd])
  refine ⟨hid, fun h => hclient (mt hassigns.2 h), fun h => ?_⟩
  rw [hassigned (hassigns.1 h).1 (hassigns.1 h).2]
  exact register_clientid h hmsg hgot

/-- What arrives carries the identifiers of the sender only where those are the zeros that
the decoder leaves, or where the payload has the client id. -/
theorem identity_kept_iff (stray stray' : ℕ → Option CStr) (send : Sending) (call : Receiving)
    (packets whole : List (List UInt8)) (more : List RecvAnswer)
    (hcmd : ∃ c : CIDBMsgCmd, send.dbmsg.cmd = c.code)
    (hsub : send.dbmsg.subcmd = CIDBMSG_SUBCMD_QUERY ∨ send.dbmsg.subcmd = CIDBMSG_SUBCMD_RESP)
    (hwhole : send.packets stray = some whole) (hpackets : packets.Perm whole) :
    ∃ result, cidbconRecvMessage stray' call.buffer call.fresh call.dbmsg
        (packets.map .bytes ++ more) = some result ∧ result.rc = 0 ∧
      ((payload stray send.dbmsg).length < 2 ^ 32 → result.dbmsg.isSome) ∧
      ∀ r, result.dbmsg = some r → (SameIdentity send.dbmsg r ↔
        send.dbmsg.msgid = 0 ∧ (send.dbmsg.clientid = 0 ∨ AssignsClient send.dbmsg)) := by
  obtain ⟨result, hrecv, hrc, hsome, hids⟩ :=
    received_identity stray stray' send call more hcmd hsub hwhole hpackets
  refine ⟨result, hrecv, hrc, hsome, fun r hr => ?_⟩
  obtain ⟨hid, hclient, hassigned⟩ := hids r hr
  rw [SameIdentity, hid, eq_comm]
  refine and_congr_right fun _ => ?_
  by_cases h : AssignsClient send.dbmsg
  · exact iff_of_true (hassigned h) (Or.inr h)
  · rw [hclient h, or_iff_left h, eq_comm]

/-- A request that numbers itself. -/
def numberedQuery (msgid : UInt32) (clientid : UInt16) : Sending where
  dbmsg := { CIDBMessage.ofCmd CIDBMsgCmd.listInfo.code CIDBMSG_SUBCMD_QUERY with msgid, clientid }
  fresh _ := 0
  prior := noMessage
  buffer _ := 0

def emptyReceiving : Receiving :=
  { buffer := fun _ => 0, fresh := fun _ => 0, dbmsg := CIDBMessage.ofCmd 0 0 }

theorem unnumbered_kept : ∃ whole result,
    (numberedQuery 0 0).packets (fun _ => none) = some whole ∧
    cidbconRecvMessage (fun _ => none) emptyReceiving.buffer emptyReceiving.fresh
      emptyReceiving.dbmsg (whole.map .bytes ++ []) = some result ∧ result.rc = 0 ∧
    ∃ r, result.dbmsg = some r ∧ SameIdentity (numberedQuery 0 0).dbmsg r := by
  obtain ⟨result, hrecv, hrc, hsome, hsame⟩ := identity_kept_iff (fun _ => none) (fun _ => none)
    (numberedQuery 0 0) emptyReceiving _ _ [] ⟨.listInfo, rfl⟩ (Or.inl rfl) rfl (List.Perm.refl _)
  obtain ⟨r, hr⟩ := Option.isSome_iff_exists.1 (hsome (by decide))
  exact ⟨_, result, rfl, hrecv, hrc, r, hr, (hsame r hr).2 ⟨rfl, Or.inl rfl⟩⟩

/-- The fifth request of client 7 arrives as message 0 of client 0. -/
theorem numbers_lost : ¬ ∀ (stray stray' : ℕ → Option CStr) (send : Sending) (call : Receiving)
    (packets whole : List (List UInt8)) (more : List RecvAnswer),
    (∃ c : CIDBMsgCmd, send.dbmsg.cmd = c.code) →
    (send.dbmsg.subcmd = CIDBMSG_SUBCMD_QUERY ∨ send.dbmsg.subcmd = CIDBMSG_SUBCMD_RESP) →
    send.packets stray = some whole → packets.Perm whole →
    ∃ result r, cidbconRecvMessage stray' call.buffer call.fresh call.dbmsg
        (packets.map .bytes ++ more) = some result ∧ result.dbmsg = some r ∧
      SameIdentity send.dbmsg r := by
  intro h
  obtain ⟨result, r, hrecv, hr, hsame, -⟩ := h (fun _ => none) (fun _ => none) (numberedQuery 5 7)
    emptyReceiving _ _ [] ⟨.listInfo, rfl⟩ (Or.inl rfl) rfl (List.Perm.refl _)
  obtain ⟨result', hrecv', -, -, hids⟩ := received_identity (fun _ => none)
    (fun _ => none) (numberedQuery 5 7) emptyReceiving [] ⟨.listInfo, rfl⟩ (Or.inl rfl) rfl
    (List.Perm.refl _)
  obtain rfl := Option.some.inj (hrecv.symm.trans hrecv')
  exact absurd (hsame.symm.trans (hids r hr).1) (by decide)

end Fritz2ci
