import Fritz2ci.Spec.CIServer

/-! Which clients a broadcast keeps. The loop of framed sends keeps exactly the clients that
took the whole message. The single send to an older client compares its result as an
unsigned number, so an error counts as more than the whole struct. -/

namespace Fritz2ci

open CString Socket

theorem sendFramed_snd (answer : ℕ → SendAnswer) (msgdata : List UInt8) (bytesWritten : ℕ) :
    (sendFramed answer msgdata bytesWritten).2 = false ↔
      ∃ calls, AcceptedIn answer (msgdata.length - bytesWritten) calls := by
  induction answer, bytesWritten using sendFramed.induct msgdata with
  | case1 answer bytesWritten hlt rc hrc =>
    rw [sendFramed, dif_pos hlt, dif_pos hrc]
    constructor
    · intro h
      cases h
    · intro h
      obtain ⟨calls, hacc⟩ := h
      -- no call at all would leave the rest unsent, and the first call accepts nothing
      cases calls with
      | zero => have := (acceptedIn_zero _ _).1 hacc; omega
      | succ calls =>
        have hrest : 0 < msgdata.length - bytesWritten := by omega
        exact absurd ((rc_pos_iff hrest _).2 ((acceptedIn_succ _ _ _).1 hacc).1) (by omega)
  | case2 answer bytesWritten hlt rc hrc sent marked heq ih =>
    have hpos : 0 < rc := by omega
    have hmin : rc = (min (answer 0).bytes (msgdata.length - bytesWritten) : ℕ) := rc_eq_min hpos
    have hlen : 0 < msgdata.length - bytesWritten := by omega
    have hbytes := (rc_pos_iff hlen _).1 hpos
    have hrest : msgdata.length - (bytesWritten + rc.toNat) =
        msgdata.length - bytesWritten - (answer 0).bytes := by omega
    rw [sendFramed, dif_pos hlt, dif_neg hrc]
    refine Iff.trans ih ?_
    rw [hrest]
    constructor
    · intro h
      obtain ⟨calls, hacc⟩ := h
      exact ⟨calls + 1, (acceptedIn_succ _ _ _).2 ⟨hbytes, hacc⟩⟩
    · intro h
      obtain ⟨calls, hacc⟩ := h
      cases calls with
      | zero => have := (acceptedIn_zero _ _).1 hacc; omega
      | succ calls => exact ⟨calls, ((acceptedIn_succ _ _ _).1 hacc).2⟩
  | case3 answer bytesWritten hlt =>
    rw [sendFramed, dif_neg hlt]
    exact iff_of_true rfl ⟨0, (acceptedIn_zero _ _).2 (by omega)⟩

theorem sendLegacy_snd (answer : ℕ → SendAnswer) (cmsg : List UInt8) :
    (sendLegacy answer cmsg).2 = false ↔
      AcceptedIn answer sizeofCINetMessage 1 ∨ answer 0 = .error := by
  have hsize : sizeofCINetMessage = 1409 := rfl
  rw [sendLegacy, decide_eq_false_iff_not, not_lt, acceptedIn_succ, acceptedIn_zero, hsize]
  cases answer 0 with
  | error => simp [SendAnswer.rc, toSize]
  | room n =>
    simp [SendAnswer.rc, SendAnswer.bytes, toSize]
    omega

/-- A client that is not yet marked and got the complete message, or was due none. -/
def Kept (msgtype : CIServerMsg) (len : ℕ) (answer : ℕ → SendAnswer) (client : CIClient) : Prop :=
  ¬ client.Marked ∧
    if 3 ≤ CI_VERSION_MAJ client.version then ∃ calls, AcceptedIn answer len calls
    else msgtype = .call ∨ AcceptedIn answer sizeofCINetMessage 1

open Classical in
/-- The list without the clients that are not kept, in order. -/
noncomputable def keptClients (msgtype : CIServerMsg) (len : ℕ) (answers : ℕ → ℕ → SendAnswer)
    (clientlist : List CIClient) : List CIClient :=
  (clientlist.zipIdx.filter fun p => Kept msgtype len (answers p.2) p.1).map Prod.fst

/-- The send of the struct to an unmarked older client fails. -/
def LegacyError (msgtype : CIServerMsg) (answer : ℕ → SendAnswer) (client : CIClient) : Prop :=
  ¬ client.Marked ∧ ¬ 3 ≤ CI_VERSION_MAJ client.version ∧ msgtype ≠ .call ∧ answer 0 = .error

instance (msgtype : CIServerMsg) (answer : ℕ → SendAnswer) (client : CIClient) :
    Decidable (LegacyError msgtype answer client) := inferInstanceAs (Decidable (_ ∧ _))

theorem sendToClient_marked_iff (msgtype : CIServerMsg) (msgdata cmsg : List UInt8)
    (answer : ℕ → SendAnswer) (client : CIClient) :
    ¬ (sendToClient msgtype msgdata cmsg answer client).2.Marked ↔
      Kept msgtype msgdata.length answer client ∨ LegacyError msgtype answer client := by
  have hmark : ∀ b : Bool, ¬ (if b then client.markRemove else client).Marked ↔
      ¬ client.Marked ∧ b = false := by
    intro b
    cases b <;> simp
  have hframed := sendFramed_snd answer msgdata 0
  have hlegacy := sendLegacy_snd answer cmsg
  unfold sendToClient Kept LegacyError
  by_cases hv : 3 ≤ CI_VERSION_MAJ client.version
  · simp only [(checkVersion_three_iff _).2 hv, if_true, hmark, hframed, hv, Nat.sub_zero,
      not_true_eq_false, false_and, and_false, or_false]
  · have hcheck := mt (checkVersion_three_iff _).1 hv
    by_cases hc : msgtype = .call
    · simp only [hcheck, hc, hv, if_false, ne_eq, not_true_eq_false, Bool.false_eq_true,
        true_or, false_and, and_false, or_false, and_true]
    · simp only [hcheck, hc, hmark, hv, if_false, if_true, ne_eq, not_false_eq_true,
        Bool.false_eq_true, hlegacy, false_or, true_and, and_or_left]

theorem sendToClient_of_not_marked {msgtype : CIServerMsg} {msgdata cmsg : List UInt8}
    {answer : ℕ → SendAnswer} {client : CIClient}
    (h : ¬ (sendToClient msgtype msgdata cmsg answer client).2.Marked) :
    (sendToClient msgtype msgdata cmsg answer client).2 = client := by
  unfold sendToClient at h ⊢
  dsimp only at h ⊢
  split_ifs at h ⊢ <;> simp_all

theorem broadcast_clientlist (encode : CINetMsg → List UInt8) (answers : ℕ → ℕ → SendAnswer)
    {msgtype : CIServerMsg} {data : Option CIDataSet} {msgid : Option CStr} {msg : CINetMsg}
    (h : netMessage msgtype data msgid = some msg) (clientlist : List CIClient) :
    (cisrvBroadcastMessage encode answers msgtype data msgid clientlist).clientlist =
      (clientlist.zipIdx.filter fun p => ¬ (sendToClient msgtype (encode msg)
        (legacyMessage msgtype data) (answers p.2) p.1).2.Marked).map Prod.fst := by
  simp only [cisrvBroadcastMessage, h, removeMarkedClients_eq, List.mapIdx_eq_zipIdx_map,
    List.map_map, List.filter_map]
  apply List.map_congr_left
  intro p hp
  have := (List.mem_filter.1 hp).2
  exact sendToClient_of_not_marked (by simpa using this)

theorem not_kept_of_legacyError {msgtype : CIServerMsg} {len : ℕ} {answer : ℕ → SendAnswer}
    {client : CIClient} (h : LegacyError msgtype answer client) :
    ¬ Kept msgtype len answer client := by
  obtain ⟨-, hv, hc, herr⟩ := h
  intro hk
  rw [Kept, if_neg hv] at hk
  rcases hk.2 with hcall | hacc
  · exact hc hcall
  · have := ((acceptedIn_succ _ _ _).1 hacc).1
    rw [herr] at this
    cases this

/-- Where a stronger test leaves as many, it holds of everything that the weaker one leaves. -/
theorem of_filter_length {α : Type} {l : List α} {p q : α → Bool} (hpq : ∀ a, p a → q a)
    (hlen : (l.filter q).length = (l.filter p).length) {a : α} (ha : a ∈ l) (hq : q a) : p a := by
  have heq := (List.monotone_filter_right l hpq).eq_of_length hlen.symm
  have hmem := List.mem_filter.2 ⟨ha, hq⟩
  rw [← heq] at hmem
  exact (List.mem_filter.1 hmem).2

/-- A broadcast accepts a message without data only to announce the end. -/
theorem netMessage_isSome_iff (msgtype : CIServerMsg) (data : Option CIDataSet)
    (msgid : Option CStr) :
    (netMessage msgtype data msgid).isSome ↔ data.isSome ∨ msgtype = .disconnect := by
  cases msgtype <;> cases data <;> simp [netMessage]

def netLength (encode : CINetMsg → List UInt8) (msgtype : CIServerMsg) (data : Option CIDataSet)
    (msgid : Option CStr) : ℕ :=
  ((netMessage msgtype data msgid).map fun msg => (encode msg).length).getD 0

theorem broadcast_keeps_reached_iff (encode : CINetMsg → List UInt8) {msgtype : CIServerMsg}
    {data : Option CIDataSet} (hacc : data.isSome ∨ msgtype = .disconnect) (msgid : Option CStr)
    (answers : ℕ → ℕ → SendAnswer) (clientlist : List CIClient) :
    let broadcast answers := cisrvBroadcastMessage encode answers msgtype data msgid clientlist
    ((broadcast answers).clientlist =
        keptClients msgtype (netLength encode msgtype data msgid) answers clientlist ∧
      ∀ others i, others i = answers i →
        (broadcast others).sent[i]? = (broadcast answers).sent[i]?) ↔
    ∀ p ∈ clientlist.zipIdx, ¬ LegacyError msgtype (answers p.2) p.1 := by
  obtain ⟨msg, hmsg⟩ := Option.isSome_iff_exists.1 ((netMessage_isSome_iff _ _ msgid).2 hacc)
  have hlen : netLength encode msgtype data msgid = (encode msg).length := by
    simp [netLength, hmsg]
  have hindep : ∀ others i, others i = answers i →
      (cisrvBroadcastMessage encode others msgtype data msgid clientlist).sent[i]? =
        (cisrvBroadcastMessage encode answers msgtype data msgid clientlist).sent[i]? := by
    intro others i h
    simp only [cisrvBroadcastMessage, hmsg, List.getElem?_map, List.getElem?_mapIdx, h]
  have hmarked := fun p : CIClient × ℕ => sendToClient_marked_iff msgtype (encode msg)
    (legacyMessage msgtype data) (answers p.2) p.1
  intro broadcast
  rw [and_iff_left hindep, broadcast_clientlist encode answers hmsg, keptClients, hlen]
  constructor
  · intro h p hp herr
    classical
    -- the expected clients are among those left, so of as many none can be different
    have hlength := congrArg List.length h
    rw [List.length_map, List.length_map] at hlength
    have hkept := of_filter_length (fun p hk =>
      decide_eq_true ((hmarked p).2 (Or.inl (of_decide_eq_true hk)))) hlength hp
      (decide_eq_true ((hmarked p).2 (Or.inr herr)))
    exact not_kept_of_legacyError herr (of_decide_eq_true hkept)
  · intro h
    congr 1
    refine List.filter_congr fun p hp => ?_
    simp only [decide_eq_decide, hmarked p]
    exact or_iff_left (h p hp)

def oldClient : CIClient := ⟨7, 0, CI_MAKE_VERSION 2 0 0, 0⟩

def newClient : CIClient := ⟨8, 0, CI_MAKE_VERSION 3 0 0, 1⟩

theorem shutdown_reaches_both :
    let broadcast answers := cisrvBroadcastMessage (fun _ => [1, 2, 3]) answers .disconnect none
      none [newClient, oldClient]
    let answers i _ := SendAnswer.room (if i = 0 then 1 else 1409)
    (broadcast answers).clientlist = keptClients .disconnect 3 answers [newClient, oldClient] ∧
      ∀ others i, others i = answers i →
        (broadcast others).sent[i]? = (broadcast answers).sent[i]? :=
  (broadcast_keeps_reached_iff (fun _ => [1, 2, 3]) (Or.inr rfl) none
    (fun i _ => .room (if i = 0 then 1 else 1409)) [newClient, oldClient]).2
    fun _ _ h => SendAnswer.noConfusion h.2.2.2

theorem failed_send_keeps_oldClient :
    ¬ ∀ (encode : CINetMsg → List UInt8) (msgtype : CIServerMsg) (data : Option CIDataSet)
      (msgid : Option CStr) (answers : ℕ → ℕ → SendAnswer) (clientlist : List CIClient),
      data.isSome ∨ msgtype = .disconnect →
      (cisrvBroadcastMessage encode answers msgtype data msgid clientlist).clientlist =
        keptClients msgtype (netLength encode msgtype data msgid) answers clientlist := by
  intro h
  have hlist := h (fun _ => []) .disconnect none none (fun _ _ => .error) [oldClient] (Or.inr rfl)
  have hstays : (cisrvBroadcastMessage (fun _ => []) (fun _ _ => .error) .disconnect none none
      [oldClient]).clientlist = [oldClient] := by decide
  have hlost : ¬ Kept .disconnect 0 (fun _ => .error) oldClient :=
    not_kept_of_legacyError (by decide)
  rw [hstays] at hlist
  simp [keptClients, netLength, netMessage, hlost] at hlist

end Fritz2ci
