import Fritz2ci.Proofs.Descriptors
import Fritz2ci.Spec.ClientList

/-! The client list and the descriptor table. What was accepted is on its way to the list, in
it or closed, each connection in one place only. The list takes any result of `accept`, so a
failed one, or one behind the end of an `fd_set`, gets in. -/

namespace Fritz2ci

open FdTable Machine Socket

def pairOf (e : ListedClient) : ℕ × ℕ := (e.sock.toNat, e.conn.getD 0)

/-- A connection that was accepted and is not in the list yet. -/
def ServerRun.pending (s : ServerRun) : List (ℕ × ℕ) :=
  match s.listener with
  | .add _ newsock (some conn) => [(newsock.toNat, conn)]
  | _ => []

/-- The connection has an entry, or is about to get one. -/
def ServerRun.Held (s : ServerRun) (conn : ℕ) : Prop :=
  (∃ e ∈ s.clientlist, e.conn = some conn) ∨ conn ∈ s.pending.map Prod.snd

/-- Every entry stands for an open connection of its own, and what is held no longer was
closed once. -/
structure ClientsOk (s : ServerRun) : Prop where
  connected : ∀ e ∈ s.clientlist, ∃ fd conn : ℕ, e.sock = fd ∧ fd < FD_SETSIZE ∧
    e.conn = some conn ∧ lookup s.fds fd = some (.client conn)
  distinct : (s.clientlist.map ListedClient.sock).Nodup
  unclosed : ∀ conn, s.Held conn → s.closes.count (some (.client conn)) = 0
  once : ∀ conn < s.accepted, ¬ s.Held conn → s.closes.count (some (.client conn)) = 1

/-- What is about to be added is a descriptor that fits an `fd_set`. -/
def FitsSet (s : ServerRun) (e : RunEvent) : Prop :=
  match e, s.listener with
  | .add, .add _ newsock _ => 0 ≤ newsock ∧ newsock < FD_SETSIZE
  | _, _ => True

/-- `live` are the connections held, with their descriptors. -/
structure Balanced (fds : Table Opened) (accepted : ℕ) (closes : List (Option Opened))
    (live : List (ℕ × ℕ)) : Prop where
  connected : Connected fds accepted live
  balance : ∀ conn, closes.count (some (.client conn)) + (live.map Prod.snd).count conn =
    if conn < accepted then 1 else 0

def ServerRun.live (s : ServerRun) : List (ℕ × ℕ) := s.clientlist.map pairOf ++ s.pending

structure RunInv (s : ServerRun) : Prop where
  entries : ∀ e ∈ s.clientlist, ∃ fd conn : ℕ, e.sock = fd ∧ fd < FD_SETSIZE ∧ e.conn = some conn
  added : ∀ ready newsock conn, s.listener = .add ready newsock conn →
    (newsock = -1 ∧ conn = none) ∨ ∃ fd c : ℕ, newsock = fd ∧ conn = some c
  balanced : Balanced s.fds s.accepted s.closes s.live
  sock : s.disconnect ≠ .done → ∃ fd : ℕ, s.sock = fd ∧ lookup s.fds fd = some .server
  fdpipe : s.disconnect = .before ∨ s.disconnect = .join →
    lookup s.fds s.fdpipe.1 = some .fdpipe ∧ lookup s.fds s.fdpipe.2 = some .fdpipe

theorem pairOf_of_entry {e : ListedClient} {fd conn : ℕ} (hfd : e.sock = fd)
    (hconn : e.conn = some conn) : pairOf e = (fd, conn) := by
  simp [pairOf, hfd, hconn]

theorem held_iff {s : ServerRun} (h : RunInv s) (conn : ℕ) :
    s.Held conn ↔ conn ∈ s.live.map Prod.snd := by
  rw [ServerRun.Held, ServerRun.live, List.map_append, List.mem_append]
  refine or_congr_left ⟨?_, fun hm => ?_⟩
  · rintro ⟨e, he, hconn⟩
    obtain ⟨fd, c, hfd, -, hc⟩ := h.entries e he
    obtain rfl := Option.some.inj (hc.symm.trans hconn)
    exact List.mem_map.2 ⟨_, List.mem_map_of_mem he, by rw [pairOf_of_entry hfd hc]⟩
  · obtain ⟨p, hp, rfl⟩ := List.mem_map.1 hm
    obtain ⟨e, he, rfl⟩ := List.mem_map.1 hp
    obtain ⟨fd, c, hfd, -, hc⟩ := h.entries e he
    exact ⟨e, he, by rw [pairOf_of_entry hfd hc, hc]⟩

theorem runInv_clientsOk {s : ServerRun} (h : RunInv s) : ClientsOk s := by
  refine ⟨fun e he => ?_, ?_, fun conn hheld => ?_, fun conn hlt hheld => ?_⟩
  · obtain ⟨fd, conn, hfd, hlt, hconn⟩ := h.entries e he
    have hown := h.balanced.connected.own (pairOf e)
      (List.mem_append_left _ (List.mem_map_of_mem he))
    rw [pairOf_of_entry hfd hconn] at hown
    exact ⟨fd, conn, hfd, hlt, hconn, hown⟩
  · have hnodup := h.balanced.connected.nodup
    rw [ServerRun.live, List.map_append, List.map_map] at hnodup
    refine List.Nodup.of_map Int.toNat ?_
    rw [List.map_map]
    exact hnodup.of_append_left
  · have hbalance := h.balanced.balance conn
    rw [held_iff h, ← List.count_pos_iff] at hheld
    split_ifs at hbalance <;> omega
  · have hbalance := h.balanced.balance conn
    rw [held_iff h, ← List.count_pos_iff] at hheld
    rw [if_pos hlt] at hbalance
    omega

theorem count_client (l : List (ℕ × ℕ)) (conn : ℕ) :
    (l.map fun p => some (Opened.client p.2)).count (some (.client conn)) =
      (l.map Prod.snd).count conn := by
  have hinj : Function.Injective fun c : ℕ => some (Opened.client c) := fun a b h => by
    cases h
    rfl
  rw [← List.count_map_of_injective (l.map Prod.snd) _ hinj conn, List.map_map]
  rfl

theorem balanced_close {fds : Table Opened} {accepted : ℕ} {closes : List (Option Opened)}
    {live gone kept : List (ℕ × ℕ)} (h : Balanced fds accepted closes live)
    (hperm : live.Perm (gone ++ kept)) :
    Balanced (closeAll (gone.map Prod.fst) fds) accepted
      (closes ++ gone.map fun p => some (.client p.2)) kept := by
  have hnodup := (hperm.map Prod.fst).nodup h.connected.nodup
  rw [List.map_append, List.nodup_append] at hnodup
  obtain ⟨-, hkept, hdisjoint⟩ := hnodup
  refine ⟨⟨fun p hp => ?_, hkept, fun p hp => ?_⟩, fun conn => ?_⟩
  · have hmem : p ∈ live := hperm.mem_iff.2 (List.mem_append_right _ hp)
    refine (lookup_closeAll_of_notMem (fun hgone => ?_) _).trans (h.connected.own p hmem)
    exact hdisjoint _ hgone _ (List.mem_map_of_mem hp) rfl
  · exact h.connected.known p (hperm.mem_iff.2 (List.mem_append_right _ hp))
  · have hbalance := h.balance conn
    rw [(hperm.map Prod.snd).count_eq, List.map_append, List.count_append] at hbalance
    rw [List.count_append, count_client]
    omega

theorem closeClients_eq {gone : List ListedClient} {fds : Table Opened}
    (closes : List (Option Opened))
    (hown : ∀ e ∈ gone, 0 ≤ e.sock ∧ lookup fds (pairOf e).1 = some (.client (pairOf e).2))
    (hnodup : ((gone.map pairOf).map Prod.fst).Nodup) :
    gone.foldl (fun t e => closeClient e.sock t) (fds, closes) =
      (closeAll ((gone.map pairOf).map Prod.fst) fds,
        closes ++ (gone.map pairOf).map fun p => some (.client p.2)) := by
  induction gone generalizing fds closes with
  | nil => rw [List.map_nil, List.map_nil, List.map_nil, List.append_nil]; rfl
  | cons e gone ih =>
    obtain ⟨⟨hsock, hopen⟩, hgone⟩ := List.forall_mem_cons.1 hown
    rw [List.map_cons, List.map_cons, List.nodup_cons] at hnodup
    have hclose : closeClient e.sock (fds, closes) =
        (close (pairOf e).1 fds, closes ++ [some (.client (pairOf e).2)]) := by
      rw [closeClient, if_pos hsock]
      exact congrArg (fun o => (close (pairOf e).1 fds, closes ++ [o])) hopen
    have hrest : ∀ e' ∈ gone, 0 ≤ e'.sock ∧
        lookup (close (pairOf e).1 fds) (pairOf e').1 = some (.client (pairOf e').2) :=
      fun e' he' => by
        refine ⟨(hgone e' he').1, (lookup_close_of_ne (fun heq => ?_) fds).trans (hgone e' he').2⟩
        exact hnodup.1 (heq ▸ List.mem_map_of_mem (List.mem_map_of_mem he'))
    rw [List.foldl_cons, hclose, ih _ hrest hnodup.2]
    simp [closeAll]

theorem live_removeClients_perm (s : ServerRun) (gone : ListedClient → Bool) :
    s.live.Perm ((s.clientlist.filter gone).map pairOf ++
      ((s.clientlist.filter fun e => !gone e).map pairOf ++ s.pending)) := by
  rw [ServerRun.live, ← List.append_assoc, ← List.map_append]
  exact ((List.filter_append_perm gone s.clientlist).symm.map pairOf).append_right _

theorem entry_nonneg {s : ServerRun} (h : RunInv s) {e : ListedClient} (he : e ∈ s.clientlist) :
    0 ≤ e.sock := by
  obtain ⟨fd, -, hfd, -, -⟩ := h.entries e he
  omega

theorem removeClients_eq {s : ServerRun} (h : RunInv s) (gone : ListedClient → Bool) :
    s.removeClients gone =
      { s with
        clientlist := s.clientlist.filter fun e => !gone e
        fds := closeAll (((s.clientlist.filter gone).map pairOf).map Prod.fst) s.fds
        closes := s.closes ++ ((s.clientlist.filter gone).map pairOf).map fun p =>
          some (.client p.2) } := by
  have hsub : ((s.clientlist.filter gone).map pairOf).Sublist s.live :=
    (List.filter_sublist.map pairOf).trans (List.sublist_append_left _ _)
  have hown : ∀ e ∈ s.clientlist.filter gone,
      0 ≤ e.sock ∧ lookup s.fds (pairOf e).1 = some (.client (pairOf e).2) := fun e he =>
    ⟨entry_nonneg h (List.mem_filter.1 he).1,
      h.balanced.connected.own _ (hsub.subset (List.mem_map_of_mem he))⟩
  rw [ServerRun.removeClients, closeClients_eq s.closes hown
    (h.balanced.connected.nodup.sublist (hsub.map _))]

theorem lookup_closeClients {s : ServerRun} (h : RunInv s) (gone : ListedClient → Bool) {fd : ℕ}
    {o : Opened} (hfd : lookup s.fds fd = some o) (ho : ∀ conn, o ≠ .client conn) :
    lookup (s.removeClients gone).fds fd = some o := by
  rw [removeClients_eq h]
  refine (lookup_closeAll_of_notMem (fun hm => ?_) _).trans hfd
  obtain ⟨p, hp, rfl⟩ := List.mem_map.1 hm
  obtain ⟨e, he, rfl⟩ := List.mem_map.1 hp
  have hown := h.balanced.connected.own _
    (List.mem_append_left _ (List.mem_map_of_mem (List.mem_filter.1 he).1))
  rw [hfd] at hown
  exact ho _ (Option.some.inj hown)

/-- The server's own descriptors stay open under a table that keeps what is open there. -/
theorem ownFds_kept {s : ServerRun} (h : RunInv s) {fds : Table Opened}
    (hkeep : ∀ {fd : ℕ} {o : Opened}, o = .server ∨ o = .fdpipe → lookup s.fds fd = some o →
      lookup fds fd = some o) :
    (s.disconnect ≠ .done → ∃ fd : ℕ, s.sock = fd ∧ lookup fds fd = some .server) ∧
      (s.disconnect = .before ∨ s.disconnect = .join →
        lookup fds s.fdpipe.1 = some .fdpipe ∧ lookup fds s.fdpipe.2 = some .fdpipe) := by
  constructor
  · intro hd
    obtain ⟨fd, hfd, hsock⟩ := h.sock hd
    exact ⟨fd, hfd, hkeep (Or.inl rfl) hsock⟩
  · intro hd
    obtain ⟨h₁, h₂⟩ := h.fdpipe hd
    exact ⟨hkeep (Or.inr rfl) h₁, hkeep (Or.inr rfl) h₂⟩

theorem runInv_removeClients {s : ServerRun} (h : RunInv s) (gone : ListedClient → Bool) :
    RunInv (s.removeClients gone) := by
  have hbalanced := balanced_close h.balanced (live_removeClients_perm s gone)
  obtain ⟨hsock, hpipe⟩ := ownFds_kept h fun ho hfd =>
    lookup_closeClients h gone hfd (by rcases ho with rfl | rfl <;> simp)
  rw [removeClients_eq h] at hsock hpipe ⊢
  exact ⟨fun e he => h.entries e (List.mem_filter.1 he).1, h.added, hbalanced, hsock, hpipe⟩

/-- What the invariant reads of an entry. -/
def keyOf (e : ListedClient) : ℤ × Option ℕ := (e.sock, e.conn)

theorem keys_mapIdx {f : ℕ → ListedClient → ListedClient} (hf : ∀ i e, keyOf (f i e) = keyOf e)
    (clientlist : List ListedClient) :
    (clientlist.mapIdx f).map keyOf = clientlist.map keyOf :=
  map_mapIdx hf clientlist

theorem pairs_of_keys {l l' : List ListedClient} (h : l'.map keyOf = l.map keyOf) :
    l'.map pairOf = l.map pairOf := by
  have hpair : ∀ l : List ListedClient,
      l.map pairOf = (l.map keyOf).map fun k => (k.1.toNat, k.2.getD 0) := fun l => by
    rw [List.map_map]
    rfl
  rw [hpair, h, hpair]

theorem runInv_of_keys {s : ServerRun} (h : RunInv s) {clientlist : List ListedClient}
    (hkeys : clientlist.map keyOf = s.clientlist.map keyOf) :
    RunInv { s with clientlist } := by
  refine ⟨fun e he => ?_, h.added, ?_, h.sock, h.fdpipe⟩
  · have hkey : keyOf e ∈ s.clientlist.map keyOf := hkeys ▸ List.mem_map_of_mem he
    obtain ⟨e', he', hsame⟩ := List.mem_map.1 hkey
    obtain ⟨hsock, hconn⟩ := Prod.mk.inj hsame
    rw [← hsock, ← hconn]
    exact h.entries e' he'
  · have hbalanced := h.balanced
    rw [ServerRun.live, ← pairs_of_keys hkeys] at hbalanced
    exact hbalanced

theorem runInv_listener {s : ServerRun} (h : RunInv s) (hs : s.pending = []) {l : ListenerAt}
    (hl : ∀ ready newsock conn, l ≠ .add ready newsock conn) : RunInv { s with listener := l } := by
  refine ⟨h.entries, fun ready newsock conn hadd => absurd hadd (hl ready newsock conn), ?_,
    h.sock, h.fdpipe⟩
  have hnone : ({ s with listener := l } : ServerRun).pending = [] := by
    cases l with
    | add ready newsock conn => exact absurd rfl (hl ready newsock conn)
    | _ => rfl
  have hbalanced := h.balanced
  rw [ServerRun.live, hs] at hbalanced
  rw [ServerRun.live, hnone]
  exact hbalanced

theorem balanced_accept {fds : Table Opened} {accepted : ℕ} {closes : List (Option Opened)}
    {live : List (ℕ × ℕ)} (h : Balanced fds accepted closes live) :
    Balanced (openLowest (.client accepted) fds) (accepted + 1) closes
      (live ++ [(lowestFree fds, accepted)]) := by
  refine ⟨connected_add h.connected, fun conn => ?_⟩
  have hbalance := h.balance conn
  rw [List.map_append, List.map_singleton, List.count_append, List.count_singleton]
  by_cases hconn : conn = accepted
  · subst hconn
    rw [if_neg (Nat.lt_irrefl conn)] at hbalance
    rw [if_pos (Nat.lt_succ_self conn), beq_self_eq_true, if_pos rfl]
    omega
  · have hlt : conn < accepted + 1 ↔ conn < accepted := by omega
    have hne : (accepted == conn) = false := by
      rw [beq_eq_false_iff_ne]
      exact Ne.symm hconn
    rw [if_congr hlt rfl rfl, hne, ← hbalance]
    simp

theorem runInv_accept {s : ServerRun} (h : RunInv s) {ready : List ℤ}
    (hl : s.listener = .accept ready) (ok : Bool) : RunInv (s.acceptCall ready ok) := by
  have hnone : s.pending = [] := by simp [ServerRun.pending, hl]
  have hbalanced := h.balanced
  rw [ServerRun.live, hnone, List.append_nil] at hbalanced
  cases ok with
  | false =>
    refine ⟨h.entries, fun _ _ _ hadd => ?_, ?_, h.sock, h.fdpipe⟩
    · cases hadd
      exact Or.inl ⟨rfl, rfl⟩
    · change Balanced s.fds s.accepted s.closes (s.clientlist.map pairOf ++ [])
      rwa [List.append_nil]
  | true =>
    obtain ⟨hsock, hpipe⟩ := ownFds_kept h fun _ hfd =>
      lookup_openLowest_of_some (.client s.accepted) hfd
    refine ⟨h.entries, fun _ _ _ hadd => ?_, balanced_accept hbalanced, hsock, hpipe⟩
    cases hadd
    exact Or.inr ⟨_, _, rfl, rfl⟩

theorem runInv_add {s : ServerRun} (h : RunInv s) {ready : List ℤ} {newsock : ℤ}
    {conn : Option ℕ} (hl : s.listener = .add ready newsock conn)
    (hfits : 0 ≤ newsock ∧ newsock < FD_SETSIZE) :
    RunInv { s.cisrvAddClient newsock conn with listener := .dispatch ready } := by
  obtain ⟨rfl, -⟩ | ⟨fd, c, rfl, rfl⟩ := h.added ready newsock conn hl
  · exact absurd hfits.1 (by decide)
  · refine ⟨?_, nofun, ?_, h.sock, h.fdpipe⟩
    · exact List.forall_mem_append.2 ⟨h.entries, List.forall_mem_singleton.2
        ⟨fd, c, rfl, Int.ofNat_lt.1 hfits.2, rfl⟩⟩
    · have hbalanced := h.balanced
      have hpending : s.pending = [(fd, c)] := by simp [ServerRun.pending, hl]
      rw [ServerRun.live, hpending] at hbalanced
      change Balanced s.fds s.accepted s.closes
        ((s.cisrvAddClient fd (some c)).clientlist.map pairOf ++ [])
      rw [List.append_nil, ServerRun.cisrvAddClient, List.map_append]
      exact hbalanced

theorem balanced_closeOther {fds : Table Opened} {accepted : ℕ} {closes : List (Option Opened)}
    {live : List (ℕ × ℕ)} (h : Balanced fds accepted closes live) {fd : ℕ}
    (hfd : ∀ conn, lookup fds fd ≠ some (.client conn)) :
    Balanced (close fd fds) accepted closes live := by
  refine ⟨⟨fun p hp => ?_, h.connected.nodup, h.connected.known⟩, h.balance⟩
  have hown := h.connected.own p hp
  rw [lookup_close_of_ne (fun he => hfd p.2 (by rw [← he, hown])), hown]

theorem keyOf_update (f : CIClient → CIClient) (e : ListedClient) : keyOf (e.update f) = keyOf e :=
  rfl

theorem keys_dispatchReady (s : ServerRun) (ready : List ℤ) (outcome : ℕ → Handled) :
    (s.dispatchReady ready outcome).clientlist.map keyOf = s.clientlist.map keyOf := by
  apply keys_mapIdx
  intro i e
  split_ifs
  · exact keyOf_update _ e
  · rfl

theorem keys_sendAll (s : ServerRun) (msgtype : CIServerMsg) (msgdata cmsg : List UInt8)
    (answers : ℕ → ℕ → SendAnswer) :
    (s.sendAll msgtype msgdata cmsg answers).clientlist.map keyOf = s.clientlist.map keyOf :=
  keys_mapIdx (fun _ e => keyOf_update _ e) s.clientlist

theorem runInv_listenerStep {s s' : ServerRun} {e : RunEvent} (h : RunInv s)
    (hs : listenerStep s e = some s') (hc : FitsSet s e) : RunInv s' := by
  cases e with
  | bind ok =>
    simp only [listenerStep] at hs
    split at hs <;> cases hs
    next hl =>
      exact runInv_listener h (by simp [ServerRun.pending, hl]) (by cases ok <;> simp)
  | build =>
    simp only [listenerStep] at hs
    split at hs <;> cases hs
    next hl => exact runInv_listener h (by simp [ServerRun.pending, hl]) (by simp)
  | select answer =>
    simp only [listenerStep] at hs
    split at hs
    · next fdSet ready hl =>
      split_ifs at hs
      cases hs
      exact runInv_listener h (by simp [ServerRun.pending, hl]) (by simp)
    · next fdSet hl =>
      cases hs
      exact runInv_listener h (by simp [ServerRun.pending, hl]) (by simp)
    · cases hs
  | accept ok =>
    simp only [listenerStep] at hs
    split at hs
    · next ready hl =>
      split_ifs at hs <;> cases hs
      · exact runInv_accept h hl ok
      · exact runInv_listener h (by simp [ServerRun.pending, hl]) (by simp)
    · cases hs
  | add =>
    simp only [listenerStep] at hs
    split at hs <;> cases hs
    next ready newsock conn hl => exact runInv_add h hl (by simpa [FitsSet, hl] using hc)
  | dispatch outcome =>
    simp only [listenerStep] at hs
    split at hs <;> cases hs
    next ready hl =>
      have hsame := runInv_of_keys h (keys_dispatchReady s ready outcome)
      exact runInv_listener hsame (by simp [ServerRun.pending, hl]) (by simp)
  | remove =>
    simp only [listenerStep] at hs
    split at hs <;> cases hs
    next ready hl =>
      have hleft : RunInv s.cisrvRemoveMarkedClients := runInv_removeClients h _
      have hlistener : s.cisrvRemoveMarkedClients.listener = .remove ready := by
        rw [← hl, ServerRun.cisrvRemoveMarkedClients, removeClients_eq h]
      exact runInv_listener hleft (by simp [ServerRun.pending, hlistener]) (by split_ifs <;> simp)
  | _ => cases hs

theorem runInv_disconnect {s : ServerRun} (h : RunInv s) {d : DisconnectAt}
    (hd : d ≠ .done → s.disconnect ≠ .done)
    (hpipe : d = .before ∨ d = .join → s.disconnect = .before ∨ s.disconnect = .join) :
    RunInv { s with disconnect := d } :=
  ⟨h.entries, h.added, h.balanced, fun hne => h.sock (hd hne), fun hor => h.fdpipe (hpipe hor)⟩

theorem runInv_join {s : ServerRun} (h : RunInv s) (hd : s.disconnect = .join) :
    RunInv { s with
      fds := close s.fdpipe.2 (close s.fdpipe.1 s.fds), disconnect := .broadcast } := by
  obtain ⟨h₁, h₂⟩ := h.fdpipe (Or.inr hd)
  obtain ⟨fd, hfd, hsock⟩ := h.sock (by simp [hd])
  have hpipe : ∀ conn, lookup (close s.fdpipe.1 s.fds) s.fdpipe.2 ≠ some (.client conn) := by
    intro conn
    by_cases heq : s.fdpipe.2 = s.fdpipe.1
    · simp [heq]
    · simp [lookup_close_of_ne heq, h₂]
  refine ⟨h.entries, h.added, ?_, fun _ => ⟨fd, hfd, ?_⟩, nofun⟩
  · exact balanced_closeOther (balanced_closeOther h.balanced (by simp [h₁])) hpipe
  · have hne₁ : fd ≠ s.fdpipe.1 := fun heq => by
      rw [heq, h₁] at hsock
      cases hsock
    have hne₂ : fd ≠ s.fdpipe.2 := fun heq => by
      rw [heq, h₂] at hsock
      cases hsock
    exact (lookup_close_of_ne hne₂ _).trans ((lookup_close_of_ne hne₁ _).trans hsock)

theorem runInv_disconnectStep {s s' : ServerRun} {e : RunEvent} (h : RunInv s)
    (hs : disconnectStep s e = some s') : RunInv s' := by
  cases e with
  | disconnect =>
    simp only [disconnectStep] at hs
    split_ifs at hs with hd
    cases hs
    exact runInv_disconnect h (by simp [hd]) (by simp [hd])
  | join =>
    simp only [disconnectStep] at hs
    split_ifs at hs with hd
    cases hs
    exact runInv_join h hd.1
  | disconnectSend msgdata cmsg answers =>
    simp only [disconnectStep] at hs
    split_ifs at hs with hd
    cases hs
    have hsame := runInv_of_keys h (keys_sendAll s .disconnect msgdata cmsg answers)
    exact runInv_disconnect hsame (by simp [hd]) (by simp)
  | disconnectRemove =>
    simp only [disconnectStep] at hs
    split_ifs at hs with hd
    cases hs
    have hleft : RunInv s.cisrvRemoveMarkedClients := runInv_removeClients h _
    have hsame : s.cisrvRemoveMarkedClients.disconnect = .remove := hd
    exact runInv_disconnect hleft (by simp [hsame]) (by simp)
  | closeAllClients =>
    simp only [disconnectStep] at hs
    split_ifs at hs with hd
    cases hs
    have hleft : RunInv s.cisrvCloseAllClients := runInv_removeClients h _
    have hsame : s.cisrvCloseAllClients.disconnect = .closeAll := hd
    exact runInv_disconnect hleft (by simp [hsame]) (by simp)
  | closeSock =>
    simp only [disconnectStep] at hs
    split_ifs at hs with hd
    cases hs
    obtain ⟨fd, hfd, hsock⟩ := h.sock (by simp [hd])
    refine ⟨h.entries, h.added, balanced_closeOther h.balanced ?_, nofun, nofun⟩
    simp [hfd, hsock]
  | _ => cases hs

theorem runInv_step {s s' : ServerRun} {e : RunEvent} (h : RunInv s)
    (hs : runStep s e = some s') (hc : FitsSet s e) : RunInv s' := by
  cases e with
  | broadcastSend msgtype msgdata cmsg answers =>
    simp only [runStep] at hs
    split_ifs at hs
    cases hs
    have hsame := runInv_of_keys h (keys_sendAll s msgtype msgdata cmsg answers)
    exact ⟨hsame.entries, hsame.added, hsame.balanced, hsame.sock, hsame.fdpipe⟩
  | broadcastRemove =>
    simp only [runStep] at hs
    split_ifs at hs
    cases hs
    have hleft : RunInv s.cisrvRemoveMarkedClients := runInv_removeClients h _
    exact ⟨hleft.entries, hleft.added, hleft.balanced, hleft.sock, hleft.fdpipe⟩
  | otherOpen =>
    cases hs
    obtain ⟨⟨hown, hnodup, hknown⟩, hbalance⟩ := h.balanced
    obtain ⟨hsock, hpipe⟩ := ownFds_kept h fun _ hfd => lookup_openLowest_of_some .other hfd
    exact ⟨h.entries, h.added,
      ⟨⟨fun p hp => lookup_openLowest_of_some _ (hown p hp), hnodup, hknown⟩, hbalance⟩,
      hsock, hpipe⟩
  | otherClose fd =>
    simp only [runStep] at hs
    split_ifs at hs with hother
    cases hs
    obtain ⟨hsock, hpipe⟩ := ownFds_kept h fun {fd' o} ho hfd => by
      have hne : fd' ≠ fd := by
        rintro rfl
        rw [hother] at hfd
        rcases ho with rfl | rfl <;> cases hfd
      exact (lookup_close_of_ne hne s.fds).trans hfd
    exact ⟨h.entries, h.added, balanced_closeOther h.balanced (by simp [hother]), hsock, hpipe⟩
  | disconnect | join | disconnectSend | disconnectRemove | closeAllClients | closeSock =>
    simp only [runStep] at hs
    exact runInv_disconnectStep h hs
  | bind | build | select | accept | add | dispatch | remove =>
    simp only [runStep] at hs
    exact runInv_listenerStep h hs hc

/-- What does not fit gets into the list all the same. -/
theorem not_clientsOk_of_add {s s' : ServerRun} {e : RunEvent} (hs : runStep s e = some s')
    (hc : ¬ FitsSet s e) : ¬ ClientsOk s' := by
  intro hok
  unfold FitsSet at hc
  split at hc
  · next ready newsock conn hl =>
    simp only [runStep, listenerStep, hl] at hs
    cases hs
    obtain ⟨fd, c, hfd, hlt, -⟩ := hok.connected
      { sock := newsock, flags := 0, version := CI_MAKE_VERSION 2 0 0, conn := conn }
      (List.mem_append_right _ (List.mem_singleton_self _))
    dsimp only at hfd
    omega
  · exact absurd trivial hc

theorem runInv_running {s : ServerRun} (h : Running s) : RunInv s := by
  have hlive : s.live = [] := by simp [ServerRun.live, ServerRun.pending, h.clientlist, h.listener]
  refine ⟨by simp [h.clientlist], by simp [h.listener], ?_, fun _ => h.sock, fun _ => h.fdpipe⟩
  rw [hlive, h.accepted, h.closes]
  exact ⟨⟨by simp, List.nodup_nil, by simp⟩, by simp⟩

/-- Whatever the threads do in whatever order, the list is in order as long as nothing is added
but descriptors that fit an `fd_set`, and no longer. -/
theorem clientsOk_iff_fitsSet {s : ServerRun} (h : Running s) (es : List RunEvent) :
    Always runStep ClientsOk s es ↔ Each runStep FitsSet s es :=
  always_iff_each RunInv ClientsOk FitsSet (fun _ => runInv_clientsOk)
    (fun _ _ _ => runInv_step) (fun _ _ _ _ => not_clientsOk_of_add) es s (runInv_running h)

def startedServer : ServerRun where
  sock := 3
  fdpipe := (4, 5)
  clientlist := []
  fds := [some .other, some .other, some .other, some .server, some .fdpipe, some .fdpipe]
  accepted := 0
  closes := []
  listener := .bind
  broadcasting := false
  disconnect := .before

theorem startedServer_running : Running startedServer := by
  refine ⟨⟨3, rfl, rfl⟩, ⟨rfl, rfl⟩, fun fd conn => ?_, rfl, rfl, rfl, rfl, rfl, rfl⟩
  match fd with
  | 0 | 1 | 2 | 3 | 4 | 5 => simp [startedServer, lookup]
  | fd + 6 => simp [startedServer, lookup]

theorem startedServer_accepts_one : Always runStep ClientsOk startedServer
    [.bind true, .build, .select (some [3]), .accept true, .add] := by
  refine (clientsOk_iff_fitsSet startedServer_running _).2 ?_
  refine each_cons.2 fun s₁ h₁ => ⟨trivial, each_cons.2 fun s₂ h₂ => ⟨trivial, ?_⟩⟩
  obtain rfl := Option.some.inj h₁
  obtain rfl := Option.some.inj h₂
  refine each_cons.2 fun s₃ h₃ => ⟨trivial, each_cons.2 fun s₄ h₄ => ⟨trivial, ?_⟩⟩
  obtain rfl := Option.some.inj h₃
  obtain rfl := Option.some.inj h₄
  refine each_cons.2 fun s₅ h₅ => ⟨?_, each_nil⟩
  change (0 : ℤ) ≤ 6 ∧ (6 : ℤ) < 1024
  decide

/-- `accept` fails, for want of descriptors or because the peer is gone again. -/
theorem failed_accept_listed : ¬ ∀ (s : ServerRun) (es : List RunEvent), Running s →
    Always runStep ClientsOk s es := by
  intro h
  have hok := h startedServer [.bind true, .build, .select (some [3]), .accept false, .add]
    startedServer_running _ (List.prefix_refl _) _ rfl
  obtain ⟨fd, conn, hfd, -⟩ := hok.connected
    { sock := -1, flags := 0, version := CI_MAKE_VERSION 2 0 0, conn := none } (by decide)
  dsimp only at hfd
  omega

end Fritz2ci
