import Fritz2ci.Proofs.Broadcast
import Fritz2ci.Proofs.Descriptors

/-! What a connection gets of all the broadcasts of a run: those from its joining to its
removal, without a gap and in order, each of them whole up to the last. -/

namespace Fritz2ci

open Machine Socket

/-- The bytes that successive calls of `send` take of the buffers handed to them. -/
def acceptedBytes (answer : ℕ → SendAnswer) : List (List UInt8) → List UInt8
  | [] => []
  | buf :: rest => buf.take (answer 0).bytes ++ acceptedBytes (fun k => answer (k + 1)) rest

/-- The framed loop puts the message on the wire, up to where it marks the client. -/
theorem sendFramed_bytes (answer : ℕ → SendAnswer) (msgdata : List UInt8) (bytesWritten : ℕ) :
    acceptedBytes answer (sendFramed answer msgdata bytesWritten).1 <+:
      msgdata.drop bytesWritten ∧
    ((sendFramed answer msgdata bytesWritten).2 = false →
      acceptedBytes answer (sendFramed answer msgdata bytesWritten).1 =
        msgdata.drop bytesWritten) := by
  induction answer, bytesWritten using sendFramed.induct msgdata with
  | case1 answer bytesWritten hlt rc hrc =>
    rw [sendFramed, dif_pos hlt, dif_pos hrc]
    refine ⟨?_, fun h => by cases h⟩
    rw [acceptedBytes, acceptedBytes, List.append_nil]
    exact List.take_prefix _ _
  | case2 answer bytesWritten hlt rc hrc sent marked heq ih =>
    have hpos : 0 < rc := by omega
    have hmin : rc = (min (answer 0).bytes (msgdata.length - bytesWritten) : ℕ) := rc_eq_min hpos
    have htake : (msgdata.drop bytesWritten).take (answer 0).bytes =
        (msgdata.drop bytesWritten).take rc.toNat := by
      rw [hmin, Int.toNat_natCast, ← List.length_drop, ← List.take_take, List.take_length]
    have hsplit : msgdata.drop bytesWritten = (msgdata.drop bytesWritten).take rc.toNat ++
        msgdata.drop (bytesWritten + rc.toNat) := by
      rw [← List.drop_drop, List.take_append_drop]
    rw [sendFramed, dif_pos hlt, dif_neg hrc]
    dsimp only
    rw [acceptedBytes, htake]
    refine ⟨?_, fun h => ?_⟩
    · conv_rhs => rw [hsplit]
      exact (List.prefix_append_right_inj _).2 ih.1
    · conv_rhs => rw [hsplit]
      rw [ih.2 h]
  | case3 answer bytesWritten hlt =>
    rw [sendFramed, dif_neg hlt, acceptedBytes, List.drop_of_length_le (by omega)]
    exact ⟨List.prefix_refl _, fun _ => rfl⟩

/-- A broadcast as the loop over the clients gets it. -/
structure CIBroadcast where
  msgtype : CIServerMsg
  msgdata : List UInt8
  cmsg : List UInt8
  deriving DecidableEq, Repr

/-- What a client of a version is to get of it. -/
def CIBroadcast.due (b : CIBroadcast) (version : UInt32) : List UInt8 :=
  if CI_CHECK_VERSION version (CI_MAKE_VERSION 3 0 0) then b.msgdata
  else if b.msgtype ≠ .call then b.cmsg
  else []

theorem sendLegacy_bytes {cmsg : List UInt8} (hcmsg : cmsg.length = sizeofCINetMessage)
    {answer : ℕ → SendAnswer} (herr : answer 0 ≠ .error)
    (h : (sendLegacy answer cmsg).2 = false) :
    acceptedBytes answer (sendLegacy answer cmsg).1 = cmsg := by
  rcases (sendLegacy_snd answer cmsg).1 h with hacc | hfailed
  · have hlen := ((acceptedIn_succ _ _ _).1 hacc).2
    rw [acceptedIn_zero] at hlen
    rw [sendLegacy, acceptedBytes, acceptedBytes, List.append_nil,
      List.take_of_length_le (by omega)]
  · exact absurd hfailed herr

/-- A client gets a part of what is due from the front, and all of it unless it is marked. -/
theorem sendToClient_bytes {b : CIBroadcast} (hcmsg : b.cmsg.length = sizeofCINetMessage)
    (answer : ℕ → SendAnswer) (client : CIClient)
    (herr : ¬ LegacyError b.msgtype answer client) :
    acceptedBytes answer (sendToClient b.msgtype b.msgdata b.cmsg answer client).1 <+:
      b.due client.version ∧
    (¬ (sendToClient b.msgtype b.msgdata b.cmsg answer client).2.Marked →
      acceptedBytes answer (sendToClient b.msgtype b.msgdata b.cmsg answer client).1 =
        b.due client.version) := by
  have hmark : ∀ m : Bool, ¬ (if m then client.markRemove else client).Marked →
      m = false ∧ ¬ client.Marked := by
    intro m
    cases m <;> simp
  unfold sendToClient CIBroadcast.due
  by_cases hv : CI_CHECK_VERSION client.version (CI_MAKE_VERSION 3 0 0)
  · simp only [hv, if_true]
    have hframed := sendFramed_bytes answer b.msgdata 0
    rw [List.drop_zero] at hframed
    exact ⟨hframed.1, fun h => hframed.2 (hmark _ h).1⟩
  · by_cases hc : b.msgtype = .call
    · simp only [hv, hc, ne_eq, not_true_eq_false, if_false, Bool.false_eq_true]
      exact ⟨List.prefix_refl _, fun _ => rfl⟩
    · simp only [hv, hc, ne_eq, not_false_eq_true, if_false, if_true, Bool.false_eq_true]
      refine ⟨?_, fun h => ?_⟩
      · rw [sendLegacy, acceptedBytes, acceptedBytes, List.append_nil]
        exact List.take_prefix _ _
      · obtain ⟨hunmarked, hclient⟩ := hmark _ h
        refine sendLegacy_bytes hcmsg (fun hfailed => herr ⟨hclient, ?_, hc, hfailed⟩) hunmarked
        exact mt (checkVersion_three_iff _).2 hv

/-- What a connection hears: the broadcast with its number, the version of the client at that
time, and the bytes that its socket took. -/
structure Heard where
  broadcast : CIBroadcast × ℕ
  version : UInt32
  bytes : List UInt8
  deriving DecidableEq, Repr

def heardAt (conn k : ℕ) (s : CIServer) : ServerEvent → List Heard
  | .broadcastSend msgtype msgdata cmsg answers =>
    (s.clientlist.zipIdx.filter fun p => p.1.conn = conn).map fun p =>
      ⟨(⟨msgtype, msgdata, cmsg⟩, k), p.1.version,
        acceptedBytes (answers p.2) (sendToClient msgtype msgdata cmsg (answers p.2) p.1).1⟩
  | _ => []

def broadcasts (es : List ServerEvent) : List CIBroadcast :=
  es.filterMap fun
    | .broadcastSend msgtype msgdata cmsg _ => some ⟨msgtype, msgdata, cmsg⟩
    | _ => none

/-- All that a connection hears in a run, when `k` broadcasts went before. -/
def heard (conn : ℕ) : ℕ → CIServer → List ServerEvent → List Heard
  | _, _, [] => []
  | k, s, e :: es =>
    match serverStep s e with
    | none => []
    | some s' => heardAt conn k s e ++ heard conn (k + (broadcasts [e]).length) s' es

/-- The struct has its size, and no send of it to the connection fails. -/
def NoLegacyError (conn : ℕ) (s : CIServer) : ServerEvent → Prop
  | .broadcastSend msgtype _ cmsg answers => cmsg.length = sizeofCINetMessage ∧
    ∀ p ∈ s.clientlist.zipIdx, p.1.conn = conn → ¬ LegacyError msgtype (answers p.2) p.1
  | _ => True

def conns (s : CIServer) : List ℕ := s.clientlist.map CIClient.conn

/-- Connections are never confused. -/
structure Distinct (s : CIServer) : Prop where
  nodup : (conns s).Nodup
  known : ∀ c ∈ conns s, c < s.accepted

theorem conns_eq_ids (s : CIServer) : conns s = (ids s.clientlist).map Prod.snd := by
  rw [conns, ids, List.map_map]
  rfl

theorem conns_mapIdx {f : ℕ → CIClient → CIClient} (hf : ∀ i client, (f i client).id = client.id)
    (s : CIServer) : (s.clientlist.mapIdx f).map CIClient.conn = conns s := by
  have hids := congrArg (List.map Prod.snd) (ids_mapIdx hf s.clientlist)
  rw [ids, ids, List.map_map, List.map_map] at hids
  exact hids

theorem conns_removeMarked (s : CIServer) : (conns s.removeMarked).Sublist (conns s) := by
  rw [removeMarked_eq]
  exact List.filter_sublist.map _

theorem step_conns {s s' : CIServer} {e : ServerEvent} (hs : serverStep s e = some s') :
    ((conns s').Sublist (conns s) ∧ s'.accepted = s.accepted) ∨
      (conns s' = conns s ++ [s.accepted] ∧ s'.accepted = s.accepted + 1) := by
  cases e with
  | build =>
    simp only [serverStep] at hs
    split at hs <;> cases hs
    exact Or.inl ⟨List.Sublist.refl _, rfl⟩
  | select readable =>
    simp only [serverStep] at hs
    split at hs
    · split at hs <;> cases hs <;> exact Or.inl ⟨List.Sublist.refl _, rfl⟩
    · cases hs
  | accept =>
    simp only [serverStep] at hs
    split at hs <;> cases hs
    next ready _ =>
    by_cases hset : fdIsSet s.sock ready
    · right
      simp [conns, CIServer.acceptClient, hset, cisrvAddClient]
    · left
      simp [conns, CIServer.acceptClient, hset]
  | dispatch outcome =>
    simp only [serverStep] at hs
    split at hs <;> cases hs
    refine Or.inl ⟨?_, rfl⟩
    rw [conns_eq_ids, conns_eq_ids]
    change ((ids (s.dispatchReady _ outcome).clientlist).map Prod.snd).Sublist _
    rw [dispatchReady_ids]
  | remove =>
    simp only [serverStep] at hs
    split at hs <;> cases hs
    exact Or.inl ⟨conns_removeMarked s, by rw [removeMarked_eq]⟩
  | broadcastSend msgtype msgdata cmsg answers =>
    simp only [serverStep] at hs
    split_ifs at hs
    cases hs
    have hsame := conns_mapIdx (fun i => sendToClient_id msgtype msgdata cmsg (answers i)) s
    exact Or.inl ⟨hsame ▸ List.Sublist.refl _, rfl⟩
  | broadcastRemove =>
    simp only [serverStep] at hs
    split_ifs at hs
    cases hs
    exact Or.inl ⟨conns_removeMarked s, by rw [removeMarked_eq]⟩

theorem distinct_step {s s' : CIServer} {e : ServerEvent} (h : Distinct s)
    (hs : serverStep s e = some s') : Distinct s' := by
  rcases step_conns hs with ⟨hsub, hacc⟩ | ⟨hconns, hacc⟩
  · exact ⟨h.nodup.sublist hsub, fun c hc => hacc ▸ h.known c (hsub.subset hc)⟩
  · refine ⟨?_, fun c hc => ?_⟩
    · rw [hconns]
      refine h.nodup.append (List.nodup_singleton _) (List.disjoint_singleton.2 fun hm => ?_)
      exact Nat.lt_irrefl _ (h.known _ hm)
    · rw [hconns] at hc
      rcases List.mem_append.1 hc with hc | hc
      · exact hacc ▸ Nat.lt_succ_of_lt (h.known c hc)
      · rw [List.mem_singleton.1 hc, hacc]
        exact Nat.lt_succ_self _

/-- A connection that hears nothing any more: it is gone, or waits for its removal behind the
broadcast that failed. -/
structure Silent (conn : ℕ) (s : CIServer) : Prop where
  known : conn < s.accepted
  out : conn ∉ conns s ∨
    s.broadcasting = true ∧ ∀ client ∈ s.clientlist, client.conn = conn → client.Marked

theorem markRemove_keeps {client : CIClient} (b : Bool) (h : client.Marked) :
    (if b then client.markRemove else client).Marked := by
  cases b
  · exact h
  · exact marked_markRemove client

theorem apply_keeps_mark (o : Handled) {client : CIClient} (h : client.Marked) :
    (o.apply client).Marked := by
  unfold Handled.apply
  exact markRemove_keeps o.remove h

theorem not_marked_of_removed {s : CIServer} {client : CIClient}
    (h : client ∈ s.removeMarked.clientlist) : client ∈ s.clientlist ∧ ¬ client.Marked := by
  rw [removeMarked_eq] at h
  obtain ⟨hm, hmarked⟩ := List.mem_filter.1 h
  exact ⟨hm, of_decide_eq_true hmarked⟩

theorem removed_of_marked {conn : ℕ} {s : CIServer}
    (h : ∀ client ∈ s.clientlist, client.conn = conn → client.Marked) :
    conn ∉ conns s.removeMarked := by
  intro hc
  obtain ⟨client, hm, hconn⟩ := List.mem_map.1 hc
  obtain ⟨hmem, hmarked⟩ := not_marked_of_removed hm
  exact hmarked (h client hmem hconn)

theorem silent_step {conn : ℕ} {s s' : CIServer} {e : ServerEvent} (h : Silent conn s)
    (hs : serverStep s e = some s') : Silent conn s' := by
  have hknown : conn < s'.accepted := by
    rcases step_conns hs with ⟨-, hacc⟩ | ⟨-, hacc⟩ <;> rw [hacc]
    · exact h.known
    · exact Nat.lt_succ_of_lt h.known
  refine ⟨hknown, ?_⟩
  rcases h.out with hgone | ⟨hbusy, hmarked⟩
  · left
    rcases step_conns hs with ⟨hsub, -⟩ | ⟨hconns, -⟩
    · exact fun hc => hgone (hsub.subset hc)
    · rw [hconns, List.mem_append, List.mem_singleton, not_or]
      exact ⟨hgone, Nat.ne_of_lt h.known⟩
  · cases e with
    | build =>
      simp only [serverStep] at hs
      split at hs <;> cases hs
      exact Or.inr ⟨hbusy, hmarked⟩
    | select readable =>
      simp only [serverStep] at hs
      split at hs
      · split at hs <;> cases hs <;> exact Or.inr ⟨hbusy, hmarked⟩
      · cases hs
    | accept =>
      simp only [serverStep] at hs
      split at hs <;> cases hs
      right
      unfold CIServer.acceptClient
      split_ifs
      · refine ⟨hbusy, fun client hm hconn => ?_⟩
        rcases List.mem_append.1 hm with hm | hm
        · exact hmarked client hm hconn
        · rw [List.mem_singleton.1 hm] at hconn
          exact absurd h.known (hconn ▸ Nat.lt_irrefl _)
      · exact ⟨hbusy, hmarked⟩
    | dispatch outcome =>
      simp only [serverStep] at hs
      split at hs <;> cases hs
      refine Or.inr ⟨hbusy, fun client hm hconn => ?_⟩
      obtain ⟨i, hi, rfl⟩ := List.mem_mapIdx.1 hm
      split_ifs at hconn ⊢
      · have hid := congrArg Prod.snd (handled_id (outcome i) s.clientlist[i])
        exact apply_keeps_mark _ (hmarked _ (List.getElem_mem hi) (hid.symm.trans hconn))
      · exact hmarked _ (List.getElem_mem hi) hconn
    | remove =>
      simp only [serverStep] at hs
      split at hs <;> cases hs
      exact Or.inl (removed_of_marked hmarked)
    | broadcastSend msgtype msgdata cmsg answers =>
      simp only [serverStep, hbusy, if_true] at hs
      cases hs
    | broadcastRemove =>
      simp only [serverStep] at hs
      split_ifs at hs
      cases hs
      exact Or.inl (removed_of_marked hmarked)

theorem heardAt_of_not_mem {conn : ℕ} {s : CIServer} (h : conn ∉ conns s) (k : ℕ)
    (e : ServerEvent) : heardAt conn k s e = [] := by
  cases e with
  | broadcastSend msgtype msgdata cmsg answers =>
    rw [heardAt, List.map_eq_nil_iff, List.filter_eq_nil_iff]
    intro p hp hconn
    have hmem : p.1 ∈ s.clientlist := List.fst_mem_of_mem_zipIdx hp
    exact h (List.mem_map.2 ⟨p.1, hmem, of_decide_eq_true hconn⟩)
  | _ => rfl

theorem heard_silent {conn : ℕ} (es : List ServerEvent) {s : CIServer} (h : Silent conn s)
    (k : ℕ) : heard conn k s es = [] := by
  induction es generalizing s k with
  | nil => rfl
  | cons e es ih =>
    rw [heard]
    cases hs : serverStep s e with
    | none => rfl
    | some s' =>
      dsimp only
      rw [ih (silent_step h hs), List.append_nil]
      rcases h.out with hgone | ⟨hbusy, -⟩
      · exact heardAt_of_not_mem hgone k e
      · cases e with
        | broadcastSend => simp [serverStep, hbusy] at hs
        | _ => rfl

theorem filter_key {α κ : Type} [DecidableEq κ] {f : α → κ} {xs : List α}
    (h : (xs.map f).Nodup) {p : α} (hp : p ∈ xs) : xs.filter (fun q => f q = f p) = [p] := by
  induction xs with
  | nil => cases hp
  | cons x xs ih =>
    obtain ⟨hx, hxs⟩ := List.nodup_cons.1 h
    rcases List.mem_cons.1 hp with rfl | hmem
    · rw [List.filter_cons_of_pos (by simp), List.filter_eq_nil_iff.2]
      intro q hq heq
      exact hx (of_decide_eq_true heq ▸ List.mem_map_of_mem hq)
    · rw [List.filter_cons_of_neg, ih hxs hmem]
      intro heq
      exact hx (of_decide_eq_true heq ▸ List.mem_map_of_mem hmem)

theorem heardAt_of_mem {conn : ℕ} {s : CIServer} (h : Distinct s) (hmem : conn ∈ conns s) (k : ℕ)
    (b : CIBroadcast) (answers : ℕ → ℕ → SendAnswer) :
    ∃ i, ∃ client, (client, i) ∈ s.clientlist.zipIdx ∧ client.conn = conn ∧
      heardAt conn k s (.broadcastSend b.msgtype b.msgdata b.cmsg answers) =
        [⟨(b, k), client.version, acceptedBytes (answers i)
          (sendToClient b.msgtype b.msgdata b.cmsg (answers i) client).1⟩] := by
  have hconns : s.clientlist.zipIdx.map (fun p => p.1.conn) = conns s := by
    rw [conns, ← List.zipIdx_map_fst 0 s.clientlist, List.map_map, List.zipIdx_map_fst]
    rfl
  rw [← hconns] at hmem
  obtain ⟨⟨client, i⟩, hp, hconn⟩ := List.mem_map.1 hmem
  have hnodup : (s.clientlist.zipIdx.map fun p => p.1.conn).Nodup := hconns ▸ h.nodup
  have hone := filter_key hnodup hp
  dsimp only at hconn hone
  rw [hconn] at hone
  exact ⟨i, client, hp, hconn, by rw [heardAt, hone, List.map_singleton]⟩

/-- A client that did not get all of a broadcast is silent from then on. -/
theorem silent_of_cut {conn : ℕ} {s s' : CIServer} (h : Distinct s) {b : CIBroadcast}
    {answers : ℕ → ℕ → SendAnswer} (hs : serverStep s (.broadcastSend b.msgtype b.msgdata b.cmsg
      answers) = some s') {client : CIClient} {i : ℕ} (hp : (client, i) ∈ s.clientlist.zipIdx)
    (hconn : client.conn = conn)
    (hmarked : (sendToClient b.msgtype b.msgdata b.cmsg (answers i) client).2.Marked) :
    Silent conn s' := by
  obtain ⟨hi, hclient⟩ := List.getElem?_eq_some_iff.1 (List.mk_mem_zipIdx_iff_getElem?.1 hp)
  simp only [serverStep] at hs
  split_ifs at hs
  cases hs
  have hmem : client ∈ s.clientlist := hclient ▸ List.getElem_mem hi
  refine ⟨hconn ▸ h.known _ (List.mem_map_of_mem hmem), Or.inr ⟨rfl, fun other ho heq => ?_⟩⟩
  obtain ⟨j, hj, rfl⟩ := List.mem_mapIdx.1 ho
  have hid := congrArg Prod.snd (sendToClient_id b.msgtype b.msgdata b.cmsg (answers j)
    s.clientlist[j])
  have hsame : s.clientlist[j].conn = s.clientlist[i].conn := by
    rw [hclient, hconn]
    exact hid.symm.trans heq
  have hclients : s.clientlist[j] = s.clientlist[i] :=
    List.inj_on_of_nodup_map h.nodup (List.getElem_mem hj) (List.getElem_mem hi) hsame
  have hji : j = i := (List.Nodup.of_map _ h.nodup).getElem_inj_iff.1 hclients
  subst hji
  rw [hclient]
  exact hmarked

theorem heard_from {conn : ℕ} (es : List ServerEvent) {s : CIServer} (h : Distinct s)
    (hknown : conn < s.accepted) (k : ℕ) :
    (heard conn k s es).map Heard.broadcast <+: (broadcasts es).zipIdx k := by
  induction es generalizing s k with
  | nil => exact List.prefix_refl _
  | cons e es ih =>
    by_cases hmem : conn ∈ conns s
    · rw [heard]
      cases hs : serverStep s e with
      | none => exact List.nil_prefix
      | some s' =>
        have hknown' : conn < s'.accepted := by
          rcases step_conns hs with ⟨-, hacc⟩ | ⟨-, hacc⟩ <;> omega
        have hrest := ih (distinct_step h hs) hknown'
        cases e with
        | broadcastSend msgtype msgdata cmsg answers =>
          obtain ⟨i, client, -, -, hone⟩ :=
            heardAt_of_mem h hmem k ⟨msgtype, msgdata, cmsg⟩ answers
          dsimp only at hone ⊢
          rw [hone]
          exact List.cons_prefix_cons.2 ⟨rfl, hrest (k + 1)⟩
        | _ => exact hrest k
    · rw [heard_silent _ ⟨hknown, Or.inl hmem⟩]
      exact List.nil_prefix

theorem heard_consecutive (conn : ℕ) (es : List ServerEvent) {s : CIServer} (h : Distinct s)
    (k : ℕ) : (heard conn k s es).map Heard.broadcast <:+: (broadcasts es).zipIdx k := by
  induction es generalizing s k with
  | nil => exact List.infix_refl _
  | cons e es ih =>
    by_cases hknown : conn < s.accepted
    · exact (heard_from _ h hknown k).isInfix
    · have hmem : conn ∉ conns s := fun hc => hknown (h.known conn hc)
      rw [heard]
      cases hs : serverStep s e with
      | none => exact List.nil_infix
      | some s' =>
        dsimp only
        rw [heardAt_of_not_mem hmem, List.nil_append]
        have hrest := ih (distinct_step h hs)
        cases e with
        | broadcastSend msgtype msgdata cmsg answers => exact List.infix_cons (hrest (k + 1))
        | _ => exact hrest k

theorem heard_whole {conn : ℕ} (es : List ServerEvent) {s : CIServer} (h : Distinct s)
    (hok : Each serverStep (NoLegacyError conn) s es) (k : ℕ) :
    (∀ x ∈ heard conn k s es, x.bytes <+: x.broadcast.1.due x.version) ∧
      ∀ x ∈ (heard conn k s es).dropLast, x.bytes = x.broadcast.1.due x.version := by
  induction es generalizing s k with
  | nil => exact ⟨List.forall_mem_nil _, List.forall_mem_nil _⟩
  | cons e es ih =>
    rw [heard]
    cases hs : serverStep s e with
    | none => exact ⟨List.forall_mem_nil _, List.forall_mem_nil _⟩
    | some s' =>
      obtain ⟨hstep, hokrest⟩ := (each_cons_of_step hs).1 hok
      have hrest := ih (distinct_step h hs) hokrest (k + (broadcasts [e]).length)
      dsimp only
      by_cases hmem : conn ∈ conns s
      · cases e with
        | broadcastSend msgtype msgdata cmsg answers =>
          obtain ⟨i, client, hp, hconn, hone⟩ :=
            heardAt_of_mem h hmem k ⟨msgtype, msgdata, cmsg⟩ answers
          have hbytes := sendToClient_bytes (b := ⟨msgtype, msgdata, cmsg⟩) hstep.1 (answers i)
            client (hstep.2 _ hp hconn)
          dsimp only at hone
          rw [hone, List.singleton_append]
          refine ⟨List.forall_mem_cons.2 ⟨hbytes.1, hrest.1⟩, ?_⟩
          by_cases hmarked : (sendToClient msgtype msgdata cmsg (answers i) client).2.Marked
          · have hcut := silent_of_cut (b := ⟨msgtype, msgdata, cmsg⟩) h hs hp hconn hmarked
            rw [heard_silent es hcut]
            exact List.forall_mem_nil _
          · intro x hx
            cases hl : heard conn (k + (broadcasts [.broadcastSend msgtype msgdata cmsg
                answers]).length) s' es with
            | nil => rw [hl] at hx; cases hx
            | cons y ys =>
              rw [hl, List.dropLast_cons_cons] at hx
              rcases List.mem_cons.1 hx with rfl | hx
              · exact hbytes.2 hmarked
              · exact hrest.2 x (hl ▸ hx)
        | _ => exact hrest
      · rw [heardAt_of_not_mem hmem]
        exact hrest

/-- Whoever joins and leaves in between, the broadcasts that a connection hears are numbered
one after the other, and it gets each of them whole, the last one up to where it is cut. -/
theorem broadcasts_in_order {s : CIServer} (h : Listening s) (conn : ℕ) (es : List ServerEvent)
    (hok : Each serverStep (NoLegacyError conn) s es) :
    (heard conn 0 s es).map Heard.broadcast <:+: (broadcasts es).zipIdx ∧
      (∀ x ∈ heard conn 0 s es, x.bytes <+: x.broadcast.1.due x.version) ∧
      ∀ x ∈ (heard conn 0 s es).dropLast, x.bytes = x.broadcast.1.due x.version := by
  have hdistinct : Distinct s := by
    constructor <;> simp [conns, h.clientlist]
  exact ⟨heard_consecutive conn es hdistinct 0, heard_whole es hdistinct hok 0⟩

/-- A client joins and hears of the shutdown. -/
def shutdownRun : List ServerEvent :=
  [.build, .select [3], .accept,
    .broadcastSend .disconnect [1, 2, 3] (List.replicate 1409 0) fun _ _ => .room 1409]

theorem shutdownRun_heard :
    (heard 0 0 firstServer shutdownRun).map Heard.broadcast <:+: (broadcasts shutdownRun).zipIdx ∧
      (∀ x ∈ heard 0 0 firstServer shutdownRun, x.bytes <+: x.broadcast.1.due x.version) ∧
      ∀ x ∈ (heard 0 0 firstServer shutdownRun).dropLast,
        x.bytes = x.broadcast.1.due x.version := by
  refine broadcasts_in_order firstServer_listening 0 shutdownRun ?_
  refine each_cons.2 fun s1 _ => ⟨trivial, each_cons.2 fun s2 _ => ⟨trivial, ?_⟩⟩
  refine each_cons.2 fun s3 _ => ⟨trivial, each_cons.2 fun s4 _ => ⟨⟨?_, ?_⟩, each_nil⟩⟩
  · exact List.length_replicate
  · exact fun p _ _ herr => SendAnswer.noConfusion herr.2.2.2

end Fritz2ci
