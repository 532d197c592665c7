import Fritz2ci.Lib.Machine
import Fritz2ci.Spec.Listener

/-! The descriptors of the CI server. The lock is free between the building of the set, the
wait and the dispatch. A client removed before the wait leaves a closed descriptor in the
set, and one removed before `accept` leaves its number to the new client. -/

namespace Fritz2ci

open FdTable Machine Socket

/-- Every client whose descriptor is reported had its own connection reported. -/
def OwnReady (ready : List (ℕ × Opened)) (clientlist : List CIClient) : Prop :=
  ∀ client ∈ clientlist, fdIsSet client.sock ready → (client.sock, .client client.conn) ∈ ready

/-- What is about to be handed to `select` is open, and what is about to be dispatched was
reported for the connection it belongs to. -/
def NoStale (s : CIServer) : Prop :=
  match s.listener with
  | .select fdSet => ∀ fd ∈ fdSet, (lookup s.fds fd).isSome
  | .dispatch ready => OwnReady ready s.clientlist
  | _ => True

/-- No client is removed between the building of the set and `select`, and `accept` is not
given a descriptor that `select` reported. -/
def NoReuse (s : CIServer) (e : ServerEvent) : Prop :=
  match e, s.listener with
  | .broadcastRemove, .select _ => ∀ client ∈ s.clientlist, ¬ client.Marked
  | .accept, .accept ready => fdIsSet s.sock ready → ¬ fdIsSet (lowestFree s.fds) ready
  | _, _ => True

/-- Descriptor and connection of a client. -/
def CIClient.id (client : CIClient) : ℕ × ℕ := (client.sock, client.conn)

def ids (clientlist : List CIClient) : List (ℕ × ℕ) := clientlist.map CIClient.id

/-- Every client is connected through its own descriptor. -/
structure Connected (fds : Table Opened) (accepted : ℕ) (l : List (ℕ × ℕ)) : Prop where
  own : ∀ p ∈ l, lookup fds p.1 = some (.client p.2)
  nodup : (l.map Prod.fst).Nodup
  known : ∀ p ∈ l, p.2 < accepted

structure ServerInv (s : CIServer) : Prop where
  sock : lookup s.fds s.sock = some .server
  fdpipe : lookup s.fds s.fdpipe = some .fdpipe
  connected : Connected s.fds s.accepted (ids s.clientlist)
  phase : match s.listener with
    | .select fdSet => fdSet = s.fdSet
    | .accept ready => OwnReady ready s.clientlist ∧
        ∀ fd conn, (fd, Opened.client conn) ∈ ready → conn < s.accepted
    | .dispatch ready => OwnReady ready s.clientlist
    | _ => True

theorem fdIsSet_iff {fd : ℕ} {ready : List (ℕ × Opened)} :
    fdIsSet fd ready ↔ ∃ o, (fd, o) ∈ ready := by
  simp [fdIsSet]

theorem map_mapIdx {α β : Type} {g : α → β} {f : ℕ → α → α} (hf : ∀ i a, g (f i a) = g a)
    (l : List α) : (l.mapIdx f).map g = l.map g := by
  rw [List.mapIdx_eq_zipIdx_map, List.map_map]
  conv_rhs => rw [← List.zipIdx_map_fst 0 l, List.map_map]
  apply List.map_congr_left
  intro p _
  exact hf p.2 p.1

theorem ids_mapIdx {f : ℕ → CIClient → CIClient} (hf : ∀ i client, (f i client).id = client.id)
    (clientlist : List CIClient) : ids (clientlist.mapIdx f) = ids clientlist :=
  map_mapIdx hf clientlist

theorem ownReady_iff (ready : List (ℕ × Opened)) (clientlist : List CIClient) :
    OwnReady ready clientlist ↔
      ∀ p ∈ ids clientlist, fdIsSet p.1 ready → (p.1, Opened.client p.2) ∈ ready := by
  simp [OwnReady, ids, CIClient.id]

theorem fdSet_eq (s : CIServer) :
    s.fdSet = s.sock :: s.fdpipe :: (ids s.clientlist).map Prod.fst := by
  simp [CIServer.fdSet, ids, CIClient.id, Function.comp_def]

theorem handled_id (o : Handled) (client : CIClient) : (o.apply client).id = client.id := by
  unfold Handled.apply
  dsimp only
  split_ifs <;> rfl

theorem sendToClient_id (msgtype : CIServerMsg) (msgdata cmsg : List UInt8)
    (answer : ℕ → SendAnswer) (client : CIClient) :
    (sendToClient msgtype msgdata cmsg answer client).2.id = client.id := by
  unfold sendToClient
  dsimp only
  split_ifs <;> rfl

theorem connected_add {fds : Table Opened} {accepted : ℕ} {l : List (ℕ × ℕ)}
    (h : Connected fds accepted l) :
    Connected (openLowest (.client accepted) fds) (accepted + 1)
      (l ++ [(lowestFree fds, accepted)]) := by
  have hfree : lowestFree fds ∉ l.map Prod.fst := by
    intro hm
    obtain ⟨p, hp, he⟩ := List.mem_map.1 hm
    have hopen := h.own p hp
    rw [he, lookup_lowestFree] at hopen
    cases hopen
  refine ⟨fun p hp => ?_, ?_, fun p hp => ?_⟩
  · rcases List.mem_append.1 hp with hp | hp
    · exact lookup_openLowest_of_some _ (h.own p hp)
    · rw [List.mem_singleton.1 hp]
      exact lookup_openLowest_self _ _
  · rw [List.map_append, List.map_singleton]
    exact h.nodup.append (List.nodup_singleton _) (List.disjoint_singleton.2 hfree)
  · rcases List.mem_append.1 hp with hp | hp
    · exact Nat.lt_succ_of_lt (h.known p hp)
    · rw [List.mem_singleton.1 hp]
      exact Nat.lt_succ_self _

/-- The descriptors that the removal closes. -/
def closedBy (clientlist : List CIClient) : List ℕ :=
  (clientlist.filter fun c => c.Marked).map CIClient.sock

theorem removeMarked_eq (s : CIServer) :
    s.removeMarked = { s with
      clientlist := s.clientlist.filter fun c => ¬ c.Marked
      fds := closeAll (closedBy s.clientlist) s.fds } := by
  simp [CIServer.removeMarked, removeMarkedClients_eq, closedBy]

theorem lookup_removeMarked {s : CIServer} (h : ServerInv s) {fd : ℕ} {o : Opened}
    (hfd : lookup s.fds fd = some o) (ho : ∀ conn, o ≠ .client conn) :
    lookup s.removeMarked.fds fd = some o := by
  rw [removeMarked_eq]
  refine (lookup_closeAll_of_notMem ?_ _).trans hfd
  intro hm
  obtain ⟨client, hc, rfl⟩ := List.mem_map.1 hm
  have hown := h.connected.own client.id (List.mem_map_of_mem (List.mem_filter.1 hc).1)
  rw [show client.id.1 = client.sock from rfl, hfd] at hown
  exact ho _ (Option.some.inj hown)

theorem connected_removeMarked {s : CIServer} (h : ServerInv s) :
    Connected s.removeMarked.fds s.removeMarked.accepted (ids s.removeMarked.clientlist) := by
  rw [removeMarked_eq]
  have hsub : (ids (s.clientlist.filter fun c => ¬ c.Marked)).Sublist (ids s.clientlist) :=
    List.filter_sublist.map _
  refine ⟨fun p hp => ?_, h.connected.nodup.sublist (hsub.map _), fun p hp => ?_⟩
  · obtain ⟨client, hc, rfl⟩ := List.mem_map.1 hp
    obtain ⟨hmem, hkept⟩ := List.mem_filter.1 hc
    refine (lookup_closeAll_of_notMem ?_ _).trans (h.connected.own _ (hsub.subset hp))
    -- a removed client with the same descriptor would be the same client
    intro hm
    obtain ⟨other, ho, he⟩ := List.mem_map.1 hm
    obtain ⟨hother, hmarked⟩ := List.mem_filter.1 ho
    have hnodup : (s.clientlist.map CIClient.sock).Nodup := by
      have := h.connected.nodup
      rwa [ids, List.map_map] at this
    obtain rfl := List.inj_on_of_nodup_map hnodup hother hmem he
    simp_all
  · exact h.connected.known p (hsub.subset hp)

/-- What `select` reports was open, on what is reported. -/
theorem mem_selectReady {fds : Table Opened} {fdSet readable : List ℕ}
    {ready : List (ℕ × Opened)} (h : selectReady fds fdSet readable = some ready) {fd : ℕ}
    {o : Opened} (hm : (fd, o) ∈ ready) : fd ∈ fdSet ∧ lookup fds fd = some o := by
  unfold selectReady at h
  split_ifs at h
  obtain rfl := Option.some.inj h
  obtain ⟨fd', hfd, ho⟩ := List.mem_filterMap.1 hm
  obtain ⟨o', ho', he⟩ := Option.map_eq_some_iff.1 ho
  obtain ⟨rfl, rfl⟩ := Prod.mk.inj he
  exact ⟨(List.mem_filter.1 hfd).1, ho'⟩

theorem serverInv_noStale {s : CIServer} (h : ServerInv s) : NoStale s := by
  have hphase := h.phase
  unfold NoStale
  split <;> simp_all only
  · intro fd hfd
    rw [fdSet_eq] at hfd
    rcases List.mem_cons.1 hfd with rfl | hfd
    · simp [h.sock]
    rcases List.mem_cons.1 hfd with rfl | hfd
    · simp [h.fdpipe]
    obtain ⟨p, hp, rfl⟩ := List.mem_map.1 hfd
    simp [h.connected.own p hp]

theorem serverInv_of_ids {s : CIServer} (h : ServerInv s) {clientlist : List CIClient}
    (hids : ids clientlist = ids s.clientlist) (broadcasting : Bool) :
    ServerInv { s with clientlist := clientlist, broadcasting := broadcasting } := by
  refine ⟨h.sock, h.fdpipe, hids ▸ h.connected, ?_⟩
  have hphase := h.phase
  simp only [ownReady_iff, fdSet_eq, hids] at hphase ⊢
  exact hphase

/-- A removal leaves the list a part of what it was, so reports stay own. -/
theorem ownReady_removeMarked {s : CIServer} {ready : List (ℕ × Opened)}
    (h : OwnReady ready s.clientlist) : OwnReady ready s.removeMarked.clientlist := by
  rw [removeMarked_eq]
  exact fun client hc => h client (List.mem_filter.1 hc).1

theorem serverInv_removeMarked {s : CIServer} (h : ServerInv s)
    (hselect : ∀ fdSet, s.listener = .select fdSet → ∀ client ∈ s.clientlist, ¬ client.Marked)
    (broadcasting : Bool) :
    ServerInv { s.removeMarked with broadcasting := broadcasting } := by
  refine ⟨lookup_removeMarked h h.sock (by simp), lookup_removeMarked h h.fdpipe (by simp),
    connected_removeMarked h, ?_⟩
  have hphase := h.phase
  have hlistener : s.removeMarked.listener = s.listener := by rw [removeMarked_eq]
  cases hl : s.listener with
  | select fdSet =>
    simp only [hlistener, hl] at hphase ⊢
    have hall : s.clientlist.filter (fun c => ¬ c.Marked) = s.clientlist := by
      rw [List.filter_eq_self]
      intro client hc
      simpa using hselect fdSet hl client hc
    rw [hphase, removeMarked_eq]
    simp only [CIServer.fdSet, hall]
  | accept ready =>
    simp only [hlistener, hl] at hphase ⊢
    exact ⟨ownReady_removeMarked hphase.1, hphase.2⟩
  | dispatch ready =>
    simp only [hlistener, hl] at hphase ⊢
    exact ownReady_removeMarked hphase
  | build => simp only [hlistener, hl]
  | remove ready => simp only [hlistener, hl]
  | ended => simp only [hlistener, hl]

theorem serverInv_accept {s : CIServer} {ready : List (ℕ × Opened)} (h : ServerInv s)
    (hl : s.listener = .accept ready)
    (hc : fdIsSet s.sock ready → ¬ fdIsSet (lowestFree s.fds) ready) :
    ServerInv { s.acceptClient ready with listener := .dispatch ready } := by
  have hphase := h.phase
  simp only [hl] at hphase
  unfold CIServer.acceptClient
  split_ifs with hset
  · have hadd := connected_add h.connected
    refine ⟨lookup_openLowest_of_some _ h.sock, lookup_openLowest_of_some _ h.fdpipe, ?_, ?_⟩
    · simpa [ids, cisrvAddClient, CIClient.id] using hadd
    · intro client hm hrep
      rcases List.mem_append.1 hm with hm | hm
      · exact hphase.1 client hm hrep
      · obtain rfl := List.mem_singleton.1 hm
        exact absurd hrep (hc hset)
  · exact ⟨h.sock, h.fdpipe, h.connected, hphase.1⟩

theorem known_of_fdSet {s : CIServer} (h : ServerInv s) {fd conn : ℕ} (hfd : fd ∈ s.fdSet)
    (ho : lookup s.fds fd = some (.client conn)) : conn < s.accepted := by
  rw [fdSet_eq] at hfd
  rcases List.mem_cons.1 hfd with rfl | hfd
  · rw [h.sock] at ho
    cases ho
  rcases List.mem_cons.1 hfd with rfl | hfd
  · rw [h.fdpipe] at ho
    cases ho
  obtain ⟨p, hp, rfl⟩ := List.mem_map.1 hfd
  rw [h.connected.own p hp] at ho
  cases ho
  exact h.connected.known p hp

theorem serverInv_select {s : CIServer} {fdSet readable : List ℕ} {ready : List (ℕ × Opened)}
    (h : ServerInv s) (hl : s.listener = .select fdSet)
    (hready : selectReady s.fds fdSet readable = some ready) :
    ServerInv { s with listener := .accept ready } := by
  have hphase := h.phase
  simp only [hl] at hphase
  refine ⟨h.sock, h.fdpipe, h.connected, fun client hm hrep => ?_, fun fd conn hm => ?_⟩
  · obtain ⟨o, ho⟩ := fdIsSet_iff.1 hrep
    have hown : lookup s.fds client.sock = some (.client client.conn) :=
      h.connected.own client.id (List.mem_map_of_mem hm)
    rw [(mem_selectReady hready ho).2] at hown
    rwa [Option.some.inj hown] at ho
  · obtain ⟨hfd, ho⟩ := mem_selectReady hready hm
    exact known_of_fdSet h (hphase ▸ hfd) ho

theorem dispatchReady_ids (s : CIServer) (ready : List (ℕ × Opened)) (outcome : ℕ → Handled) :
    ids (s.dispatchReady ready outcome).clientlist = ids s.clientlist := by
  apply ids_mapIdx
  intro i client
  split_ifs
  · exact handled_id _ _
  · rfl

theorem serverInv_step {s s' : CIServer} {e : ServerEvent} (h : ServerInv s)
    (hs : serverStep s e = some s') (hc : NoReuse s e) : ServerInv s' := by
  cases e with
  | build =>
    simp only [serverStep] at hs
    split at hs <;> cases hs
    exact ⟨h.sock, h.fdpipe, h.connected, rfl⟩
  | select readable =>
    simp only [serverStep] at hs
    split at hs
    · next fdSet hl =>
      split at hs <;> cases hs
      · next ready hready => exact serverInv_select h hl hready
      · exact ⟨h.sock, h.fdpipe, h.connected, trivial⟩
    · cases hs
  | accept =>
    simp only [serverStep] at hs
    split at hs
    · next ready hl =>
      cases hs
      exact serverInv_accept h hl (by simpa [NoReuse, hl] using hc)
    · cases hs
  | dispatch outcome =>
    simp only [serverStep] at hs
    split at hs
    · next ready hl =>
      cases hs
      have hsame := serverInv_of_ids h (dispatchReady_ids s ready outcome) s.broadcasting
      exact ⟨hsame.sock, hsame.fdpipe, hsame.connected, trivial⟩
    · cases hs
  | remove =>
    simp only [serverStep] at hs
    split at hs
    · next ready hl =>
      cases hs
      have hleft := serverInv_removeMarked h (by simp [hl]) s.broadcasting
      refine ⟨hleft.sock, hleft.fdpipe, hleft.connected, ?_⟩
      dsimp only
      split_ifs <;> trivial
    · cases hs
  | broadcastSend msgtype msgdata cmsg answers =>
    simp only [serverStep] at hs
    split_ifs at hs
    cases hs
    exact serverInv_of_ids h (ids_mapIdx (fun i client => sendToClient_id _ _ _ _ _) _) true
  | broadcastRemove =>
    simp only [serverStep] at hs
    split_ifs at hs
    cases hs
    refine serverInv_removeMarked h (fun fdSet hl => ?_) false
    simpa [NoReuse, hl] using hc

/-- A client removed between the building of the set and the wait leaves its descriptor in
the set. -/
theorem stale_of_removed {s : CIServer} {fdSet : List ℕ} (h : ServerInv s)
    (hl : s.listener = .select fdSet) {client : CIClient} (hm : client ∈ s.clientlist)
    (hmarked : client.Marked) (broadcasting : Bool) :
    ¬ NoStale { s.removeMarked with broadcasting := broadcasting } := by
  intro hopen
  have hphase := h.phase
  simp only [hl] at hphase
  have hclosed : client.sock ∈ closedBy s.clientlist :=
    List.mem_map_of_mem (List.mem_filter.2 ⟨hm, decide_eq_true hmarked⟩)
  have hset : client.sock ∈ fdSet := by
    rw [hphase, CIServer.fdSet]
    exact List.mem_cons_of_mem _ (List.mem_cons_of_mem _ (List.mem_map_of_mem hm))
  rw [removeMarked_eq] at hopen
  simp only [NoStale, hl] at hopen
  have hsome := hopen client.sock hset
  rw [lookup_closeAll_of_mem hclosed] at hsome
  cases hsome

/-- A client accepted on a reported descriptor would be dispatched without a report. -/
theorem stale_of_reused {s : CIServer} {ready : List (ℕ × Opened)} (h : ServerInv s)
    (hl : s.listener = .accept ready) (hset : fdIsSet s.sock ready)
    (hreused : fdIsSet (lowestFree s.fds) ready) :
    ¬ NoStale { s.acceptClient ready with listener := .dispatch ready } := by
  intro hown
  have hphase := h.phase
  simp only [hl] at hphase
  simp only [NoStale, CIServer.acceptClient, hset, if_true] at hown
  have hnew := hown _ (List.mem_append_right _ (List.mem_singleton_self _)) hreused
  exact absurd (hphase.2 _ _ hnew) (Nat.lt_irrefl _)

theorem stale_step {s s' : CIServer} {e : ServerEvent} (h : ServerInv s)
    (hs : serverStep s e = some s') (hc : ¬ NoReuse s e) : ¬ NoStale s' := by
  unfold NoReuse at hc
  split at hc
  · next fdSet hl =>
    simp only [serverStep] at hs
    split_ifs at hs
    cases hs
    push Not at hc
    obtain ⟨client, hm, hmarked⟩ := hc
    exact stale_of_removed h hl hm hmarked false
  · next ready hl =>
    simp only [serverStep, hl] at hs
    cases hs
    push Not at hc
    exact stale_of_reused h hl hc.1 hc.2
  · exact absurd trivial hc

theorem serverInv_listening {s : CIServer} (h : Listening s) : ServerInv s := by
  refine ⟨h.sock, h.fdpipe, ?_, ?_⟩
  · rw [h.clientlist]
    exact ⟨by simp [ids], List.nodup_nil, by simp [ids]⟩
  · rw [h.listener]
    trivial

/-- Iterations and broadcasts in any order meet no stale descriptor exactly when none of
their steps leaves one behind. -/
theorem noStale_iff_noReuse {s : CIServer} (h : Listening s) (es : List ServerEvent) :
    Always serverStep NoStale s es ↔ Each serverStep NoReuse s es :=
  always_iff_each ServerInv NoStale NoReuse (fun _ => serverInv_noStale)
    (fun _ _ _ => serverInv_step) (fun _ _ _ => stale_step) es s (serverInv_listening h)

/-- In front of the loop with the listening socket on 3 and the pipe on 4 and 5. -/
def firstServer : CIServer where
  sock := 3
  fdpipe := 4
  clientlist := []
  fds := [some .other, some .other, some .other, some .server, some .fdpipe, some .other]
  accepted := 0
  listener := .build
  broadcasting := false

theorem firstServer_listening : Listening firstServer := ⟨rfl, rfl, rfl, rfl, rfl⟩

theorem firstServer_accepts_fresh :
    Always serverStep NoStale firstServer [.build, .select [3], .accept] := by
  refine (noStale_iff_noReuse firstServer_listening _).2 ?_
  refine each_cons.2 fun s1 h1 => ⟨trivial, each_cons.2 fun s2 h2 => ⟨trivial, ?_⟩⟩
  obtain rfl := Option.some.inj h1
  obtain rfl := Option.some.inj h2
  refine each_cons.2 fun s3 h3 => ⟨?_, each_nil⟩
  intro _
  decide

/-- A client whose broadcast failed is removed between the set and the wait. -/
theorem removed_before_select : ¬ ∀ (s : CIServer) (es : List ServerEvent), Listening s →
    Always serverStep NoStale s es := by
  intro h
  have hstale := h firstServer [.build, .select [3], .accept, .dispatch fun _ => ⟨false, none⟩,
    .remove, .build, .broadcastSend .disconnect [] [] fun _ _ => .room 0, .broadcastRemove]
    firstServer_listening _ (List.prefix_refl _) _ rfl
  exact absurd (hstale 6 (by decide)) (by decide)

end Fritz2ci
