import Fritz2ci.Lib.Machine
import Fritz2ci.Proofs.PhoneBook
import Fritz2ci.Spec.Requests

/-! Users share one table of callers and see nothing of each other: what one user is answered
stays the same when all that the others add and delete is left out. -/

namespace Fritz2ci

open CString KeyedTable Machine

/-- The entries of a user. -/
def rowsOf (u : ℤ) (db : Database) : List CallerRow := db.cicaller.filter fun r => r.clientid = u

/-- The rows behind an update that inserts where it finds nothing. -/
def putRow (user : ℤ) (number name : CStr) (rows : List CallerRow) : List CallerRow :=
  if ∀ r ∈ rows, r.key ≠ (user, number) then rows ++ [⟨user, number, name⟩]
  else rows.map fun r => if r.key = (user, number) then { r with name } else r

/-- The rows behind a delete. -/
def dropRow (user : ℤ) (number : CStr) (name : Option CStr) (rows : List CallerRow) :
    List CallerRow :=
  rows.filter fun r => !(r.key = (user, number) && some r.name = name)

theorem addCaller_cicaller (user : ℤ) (n v : CStr) (db : Database) :
    (dbhandlerAddCaller user (some n) (some v) db).2.cicaller =
      if isValidNumber (some n) then putRow user n v db.cicaller else db.cicaller := by
  unfold dbhandlerAddCaller
  by_cases hn : isValidNumber (some n)
  · simp only [hn, Bool.not_true, Bool.false_eq_true, if_false, if_true]
    by_cases hc : (sqlUpdateCaller user n v db).changes = 0
    · have habs := sqlUpdateCaller_changes.1 hc
      have hmap : (sqlUpdateCaller user n v db).cicaller = db.cicaller :=
        update_absent (fun r : CallerRow => { r with name := v }) habs
      simp only [hc, if_true, sqlInsertCaller, Nat.zero_lt_one, hmap, putRow, if_pos habs]
    · simp only [hc, if_false, putRow, if_neg (mt sqlUpdateCaller_changes.2 hc)]
      rfl
  · simp [hn]

theorem removeCaller_cicaller (user : ℤ) (n : CStr) (name : Option CStr) (db : Database) :
    (dbhandlerRemoveCaller user (some n) name db).2.cicaller =
      if isValidNumber (some n) then dropRow user n name db.cicaller else db.cicaller := by
  unfold dbhandlerRemoveCaller
  by_cases hn : isValidNumber (some n)
  · cases name with
    | none => simp [hn, sqlDeleteCaller, dropRow]
    | some v => simp [hn, sqlDeleteCaller, dropRow]
  · simp [hn]

theorem key_ne_of_user {u v : ℤ} (h : v ≠ u) {r : CallerRow} (hr : r.clientid = u) (n : CStr) :
    r.key ≠ (v, n) := fun heq => h (by rw [← hr, ← (Prod.mk.inj heq).1])

/-- What a user stores changes the entries of that user alone. -/
theorem filter_putRow (u v : ℤ) (n name : CStr) (rows : List CallerRow) :
    (putRow v n name rows).filter (fun r => r.clientid = u) =
      if v = u then putRow v n name (rows.filter fun r => r.clientid = u)
      else rows.filter fun r => r.clientid = u := by
  have hkeep : ∀ r : CallerRow,
      (if r.key = (v, n) then { r with name } else r : CallerRow).clientid = r.clientid := by
    intro r
    split_ifs <;> rfl
  have hmap : (rows.map fun r => if r.key = (v, n) then { r with name } else r).filter
      (fun r => r.clientid = u) = (rows.filter fun r => r.clientid = u).map fun r =>
        if r.key = (v, n) then { r with name } else r := by
    rw [List.filter_map]
    congr 1
    refine List.filter_congr fun r _ => ?_
    rw [Function.comp, hkeep]
  by_cases hv : v = u
  · subst hv
    rw [if_pos rfl]
    have hiff : (∀ r ∈ rows.filter (fun r => r.clientid = v), r.key ≠ (v, n)) ↔
        ∀ r ∈ rows, r.key ≠ (v, n) := by
      constructor
      · intro h r hr heq
        have huser : r.clientid = v := (Prod.mk.inj heq).1
        exact h r (List.mem_filter.2 ⟨hr, decide_eq_true huser⟩) heq
      · exact fun h r hr => h r (List.mem_of_mem_filter hr)
    unfold putRow
    by_cases habs : ∀ r ∈ rows, r.key ≠ (v, n)
    · rw [if_pos habs, if_pos (hiff.2 habs), List.filter_append]
      simp
    · rw [if_neg habs, if_neg (mt hiff.1 habs), hmap]
  · rw [if_neg hv]
    unfold putRow
    split_ifs
    · rw [List.filter_append]
      simp [hv]
    · rw [hmap, List.map_congr_left (g := id), List.map_id]
      intro r hr
      have huser : r.clientid = u := of_decide_eq_true (List.mem_filter.1 hr).2
      rw [if_neg (key_ne_of_user hv huser n)]
      rfl

theorem filter_dropRow (u v : ℤ) (n : CStr) (name : Option CStr) (rows : List CallerRow) :
    (dropRow v n name rows).filter (fun r => r.clientid = u) =
      if v = u then dropRow v n name (rows.filter fun r => r.clientid = u)
      else rows.filter fun r => r.clientid = u := by
  unfold dropRow
  rw [List.filter_filter, List.filter_filter]
  split_ifs with hv
  · exact List.filter_congr fun r _ => Bool.and_comm _ _
  · refine List.filter_congr fun r _ => ?_
    by_cases huser : r.clientid = u
    · have hkey := key_ne_of_user hv huser n
      simp [huser, hkey]
    · simp [huser]

/-- Two databases that a user cannot tell apart. -/
structure SameFor (u : ℤ) (db db' : Database) : Prop where
  rows : rowsOf u db = rowsOf u db'
  cidata : db.cidata = db'.cidata

/-- A message that writes into the entries of another user. -/
def ClientMsg.foreign (u : ℤ) : ClientMsg → Bool
  | .dbAddCaller user _ | .dbDelCaller user _ => user ≠ u
  | _ => false

/-- Whether a reply is about a user, or about none. -/
def ServerMsg.about (u : ℤ) : ServerMsg → Bool
  | .version .. | .leave | .dbNumCalls _ => true
  | .dbCallList user _ _ _ | .dbGetCaller user _ _ | .dbAddCaller user _ | .dbDelCaller user _
  | .dbGetCallerList user _ _ => user = u

theorem addCaller_same {u user : ℤ} (caller : CINetCaller) {db db' : Database}
    (h : SameFor u db db') :
    (user = u → SameFor u (dbhandlerAddCaller user caller.number caller.name db).2
      (dbhandlerAddCaller user caller.number caller.name db').2) ∧
    (user ≠ u → SameFor u (dbhandlerAddCaller user caller.number caller.name db).2 db') := by
  obtain ⟨number, name⟩ := caller
  cases number with
  | none => exact ⟨fun _ => h, fun _ => h⟩
  | some n =>
    cases name with
    | none => exact ⟨fun _ => h, fun _ => h⟩
    | some v =>
      have hdata := addCaller_cidata user (some n) (some v)
      have hrows : ∀ d : Database, rowsOf u (dbhandlerAddCaller user (some n) (some v) d).2 =
          if isValidNumber (some n) then
            if user = u then putRow user n v (rowsOf u d) else rowsOf u d
          else rowsOf u d := by
        intro d
        rw [rowsOf, addCaller_cicaller]
        split_ifs with hn huser <;> simp [filter_putRow, rowsOf, *]
      refine ⟨fun huser => ⟨?_, by rw [hdata, hdata, h.cidata]⟩,
        fun huser => ⟨?_, by rw [hdata, h.cidata]⟩⟩
      · rw [hrows, hrows, h.rows]
      · rw [hrows, if_neg huser, ite_self, h.rows]

theorem removeCaller_same {u user : ℤ} (caller : CINetCaller) {db db' : Database}
    (h : SameFor u db db') :
    (user = u → SameFor u (dbhandlerRemoveCaller user caller.number caller.name db).2
      (dbhandlerRemoveCaller user caller.number caller.name db').2) ∧
    (user ≠ u → SameFor u (dbhandlerRemoveCaller user caller.number caller.name db).2 db') := by
  obtain ⟨number, name⟩ := caller
  cases number with
  | none => exact ⟨fun _ => h, fun _ => h⟩
  | some n =>
    have hdata := removeCaller_cidata user (some n) name
    have hrows : ∀ d : Database, rowsOf u (dbhandlerRemoveCaller user (some n) name d).2 =
        if isValidNumber (some n) then
          if user = u then dropRow user n name (rowsOf u d) else rowsOf u d
        else rowsOf u d := by
      intro d
      rw [rowsOf, removeCaller_cicaller]
      split_ifs with hn huser <;> simp [filter_dropRow, rowsOf, *]
    refine ⟨fun huser => ⟨?_, by rw [hdata, hdata, h.cidata]⟩,
      fun huser => ⟨?_, by rw [hdata, h.cidata]⟩⟩
    · rw [hrows, hrows, h.rows]
    · rw [hrows, if_neg huser, ite_self, h.rows]

theorem getCaller_same {u : ℤ} {db db' : Database} (h : SameFor u db db') (number : Option CStr) :
    dbhandlerGetCaller u number db = dbhandlerGetCaller u number db' := by
  have hfind : ∀ (d : Database) (n : CStr),
      toMap CallerRow.key CallerRow.name d.cicaller (u, n) =
        toMap CallerRow.key CallerRow.name (rowsOf u d) (u, n) := by
    intro d n
    rw [toMap, toMap, rowsOf, List.find?_filter]
    congr 2
    funext r
    by_cases hkey : r.key = (u, n)
    · simp [hkey, (Prod.mk.inj hkey).1]
    · simp [hkey]
  unfold dbhandlerGetCaller
  cases number with
  | none => rfl
  | some n =>
    dsimp only
    rw [hfind, hfind, h.rows]

theorem getCallers_same {u : ℤ} {db db' : Database} (h : SameFor u db db')
    (like : CStr → CStr → Bool) (filter : Option CStr) :
    dbhandlerGetCallers like u filter db = dbhandlerGetCallers like u filter db' := by
  have hfilter : ∀ (d : Database) (p : CallerRow → Bool),
      d.cicaller.filter (fun r => r.clientid = u && p r) = (rowsOf u d).filter p := by
    intro d p
    rw [rowsOf, List.filter_filter]
    exact List.filter_congr fun r _ => Bool.and_comm _ _
  have hrows := h.rows
  unfold dbhandlerGetCallers
  cases filter with
  | none =>
    dsimp only
    rw [← rowsOf, ← rowsOf, hrows]
  | some q =>
    cases q with
    | nil =>
      dsimp only
      rw [← rowsOf, ← rowsOf, hrows]
    | cons b q =>
      dsimp only
      rw [hfilter, hfilter, hrows]

theorem getCalls_same {u : ℤ} {db db' : Database} (h : SameFor u db db') (env : RequestEnv)
    (offset count : ℤ) :
    dbhandlerGetCalls env u offset count db = dbhandlerGetCalls env u offset count db' := by
  unfold dbhandlerGetCalls readDbCall
  simp only [getCaller_same h, h.cidata]

theorem getCalls_some {u : ℤ} {db db' : Database} (h : SameFor u db db') {env : RequestEnv}
    {user offset count : ℤ} {calls : List CIDbCall}
    (hcalls : dbhandlerGetCalls env user offset count db = some calls) :
    ∃ calls', dbhandlerGetCalls env user offset count db' = some calls' := by
  obtain ⟨rows, hrows, -⟩ := Option.map_eq_some_iff.1 hcalls
  rw [h.cidata] at hrows
  exact ⟨_, Option.map_eq_some_iff.2 ⟨rows, hrows, rfl⟩⟩

/-- A message that is not foreign leads to the same for the user on both databases. -/
theorem handleClientMsg_same {u : ℤ} {db db' d : Database} (h : SameFor u db db')
    (env : RequestEnv) {msg : ClientMsg} (hown : msg.foreign u = false) {m : Option ServerMsg}
    (hm : handleClientMsg env db msg = some (d, m)) :
    ∃ d' m', handleClientMsg env db' msg = some (d', m') ∧ SameFor u d d' ∧
      m.filter (ServerMsg.about u) = m'.filter (ServerMsg.about u) := by
  cases msg with
  | version major minor patch => cases hm; exact ⟨db', _, rfl, h, rfl⟩
  | leave => cases hm; exact ⟨db', _, rfl, h, rfl⟩
  | unhandled => cases hm; exact ⟨db', _, rfl, h, rfl⟩
  | dbNumCalls =>
    cases hm
    refine ⟨db', _, rfl, h, ?_⟩
    rw [dbhandlerGetNumCalls, dbhandlerGetNumCalls, h.cidata]
  | dbCallList user offset count =>
    obtain ⟨calls, hcalls, heq⟩ := Option.map_eq_some_iff.1 hm
    cases heq
    obtain ⟨calls', hcalls'⟩ := getCalls_some h hcalls
    refine ⟨db', _, Option.map_eq_some_iff.2 ⟨calls', hcalls', rfl⟩, h, ?_⟩
    by_cases huser : user = u
    · subst huser
      rw [getCalls_same h, hcalls'] at hcalls
      rw [Option.some.inj hcalls]
    · simp [Option.filter, ServerMsg.about, huser]
  | dbGetCaller user caller =>
    cases hm
    refine ⟨db', _, rfl, h, ?_⟩
    by_cases huser : user = u
    · subst huser
      rw [getCaller_same h]
    · simp [Option.filter, ServerMsg.about, huser]
  | dbAddCaller user caller =>
    cases hm
    have huser : user = u := by simpa [ClientMsg.foreign] using hown
    exact ⟨_, _, rfl, (addCaller_same caller h).1 huser, rfl⟩
  | dbDelCaller user caller =>
    cases hm
    have huser : user = u := by simpa [ClientMsg.foreign] using hown
    exact ⟨_, _, rfl, (removeCaller_same caller h).1 huser, rfl⟩
  | dbGetCallerList user filter =>
    cases hm
    refine ⟨db', _, rfl, h, ?_⟩
    by_cases huser : user = u
    · subst huser
      rw [getCallers_same h]
    · simp [Option.filter, ServerMsg.about, huser]

/-- A foreign message leaves nothing behind that the user could see. -/
theorem handleClientMsg_foreign {u : ℤ} {db db' d : Database} (h : SameFor u db db')
    {env : RequestEnv} {msg : ClientMsg} (hforeign : msg.foreign u = true) {m : Option ServerMsg}
    (hm : handleClientMsg env db msg = some (d, m)) :
    SameFor u d db' ∧ m.filter (ServerMsg.about u) = none ∧
      ∀ client, handleRequest client msg.kind = client := by
  cases msg with
  | dbAddCaller user caller =>
    cases hm
    have huser : user ≠ u := by simpa [ClientMsg.foreign] using hforeign
    exact ⟨(addCaller_same caller h).2 huser, by simp [ServerMsg.about, huser], fun _ => rfl⟩
  | dbDelCaller user caller =>
    cases hm
    have huser : user ≠ u := by simpa [ClientMsg.foreign] using hforeign
    exact ⟨(removeCaller_same caller h).2 huser, by simp [ServerMsg.about, huser], fun _ => rfl⟩
  | _ => cases hforeign

def ServiceEvent.foreign (u : ℤ) : ServiceEvent → Bool
  | .request _ _ r => r.msg.foreign u
  | _ => false

/-- What a user has been answered, together with the answers that are about nobody. -/
def seen (u : ℤ) (s : Service) : List (ℕ × ServerReply) :=
  s.sent.filter fun r => r.2.msg.about u

/-- Two services that a user cannot tell apart. -/
structure Alike (u : ℤ) (s t : Service) : Prop where
  db : SameFor u s.db t.db
  clientlist : s.clientlist = t.clientlist
  accepted : s.accepted = t.accepted
  seen : seen u s = seen u t

theorem filter_reply (u : ℤ) (conn : ℕ) (guid : UInt32) (m : Option ServerMsg) :
    ((m.map fun m => (conn, (⟨guid, m⟩ : ServerReply))).toList.filter
      fun r => r.2.msg.about u) =
        ((m.filter (ServerMsg.about u)).map fun m => (conn, ⟨guid, m⟩)).toList := by
  cases m with
  | none => rfl
  | some m => cases hm : m.about u <;> simp [Option.filter, hm]

theorem serviceStep_alike {u : ℤ} {s s' t : Service} {e : ServiceEvent} (h : Alike u s t)
    (hown : e.foreign u = false) (hs : serviceStep s e = some s') :
    ∃ t', serviceStep t e = some t' ∧ Alike u s' t' := by
  cases e with
  | connect sock =>
    cases hs
    refine ⟨_, rfl, h.db, ?_, ?_, h.seen⟩
    · change cisrvAddClient _ _ _ = cisrvAddClient _ _ _
      rw [h.clientlist, h.accepted]
    · change s.accepted + 1 = t.accepted + 1
      rw [h.accepted]
  | removeMarked =>
    cases hs
    refine ⟨_, rfl, h.db, ?_, h.accepted, h.seen⟩
    change (cisrvRemoveMarkedClients _).1 = (cisrvRemoveMarkedClients _).1
    rw [h.clientlist]
  | ring data =>
    cases hs
    refine ⟨_, rfl, ⟨h.db.rows, ?_⟩, h.clientlist, h.accepted, h.seen⟩
    change s.db.cidata ++ [data] = t.db.cidata ++ [data]
    rw [h.db.cidata]
  | request conn env r =>
    rw [serviceStep] at hs
    split_ifs at hs with hclient
    obtain ⟨⟨d, m⟩, hm, rfl⟩ := Option.map_eq_some_iff.1 hs
    obtain ⟨d', m', hm', hdb, hreply⟩ := handleClientMsg_same h.db env hown hm
    have ht : serviceStep t (.request conn env r) = some { t with
        db := d'
        clientlist := t.clientlist.map fun client =>
          if client.conn = conn then handleRequest client r.msg.kind else client
        sent := t.sent ++ (m'.map fun m => (conn, ⟨r.guid, m⟩)).toList } := by
      rw [serviceStep, if_pos (h.clientlist ▸ hclient), hm']
      rfl
    refine ⟨_, ht, hdb, ?_, h.accepted, ?_⟩
    · change List.map _ _ = List.map _ _
      rw [h.clientlist]
    · have hseen := h.seen
      simp only [seen] at hseen ⊢
      rw [List.filter_append, List.filter_append, filter_reply, filter_reply, hseen, hreply]

theorem serviceStep_foreign {u : ℤ} {s s' t : Service} {e : ServiceEvent} (h : Alike u s t)
    (hforeign : e.foreign u = true) (hs : serviceStep s e = some s') : Alike u s' t := by
  cases e with
  | request conn env r =>
    rw [serviceStep] at hs
    split_ifs at hs with hclient
    obtain ⟨⟨d, m⟩, hm, rfl⟩ := Option.map_eq_some_iff.1 hs
    obtain ⟨hdb, hreply, hkeep⟩ := handleClientMsg_foreign h.db hforeign hm
    refine ⟨hdb, ?_, h.accepted, ?_⟩
    · change List.map _ _ = _
      rw [← h.clientlist]
      simp only [hkeep, ite_self, List.map_id']
    · have hseen := h.seen
      simp only [seen] at hseen ⊢
      rw [List.filter_append, filter_reply, hreply, hseen]
      exact List.append_nil _
  | _ => cases hforeign

theorem run_alike {u : ℤ} (es : List ServiceEvent) {s s' t : Service} (h : Alike u s t)
    (hrun : run serviceStep s es = some s') :
    ∃ t', run serviceStep t (es.filter fun e => !e.foreign u) = some t' ∧ Alike u s' t' := by
  induction es generalizing s t with
  | nil =>
    cases hrun
    exact ⟨t, rfl, h⟩
  | cons e es ih =>
    obtain ⟨s₁, hs, hrest⟩ := run_cons_eq_some.1 hrun
    cases hforeign : e.foreign u with
    | true =>
      rw [List.filter_cons_of_neg (by simp [hforeign])]
      exact ih (serviceStep_foreign h hforeign hs) hrest
    | false =>
      obtain ⟨t₁, ht, h₁⟩ := serviceStep_alike h hforeign hs
      obtain ⟨t', hrun', h'⟩ := ih h₁ hrest
      rw [List.filter_cons_of_pos (by simp [hforeign])]
      exact ⟨t', run_cons_eq_some.2 ⟨t₁, ht, hrun'⟩, h'⟩

/-- Without what the others add and delete, the same run is still possible, the entries of a
user end up the same and so does everything that the user has been answered. -/
theorem user_isolated (u : ℤ) {s s' : Service} {es : List ServiceEvent}
    (hrun : run serviceStep s es = some s') :
    ∃ t, run serviceStep s (es.filter fun e => !e.foreign u) = some t ∧
      rowsOf u s'.db = rowsOf u t.db ∧ s'.db.cidata = t.db.cidata ∧ seen u s' = seen u t := by
  obtain ⟨t, ht, halike⟩ := run_alike es (⟨⟨rfl, rfl⟩, rfl, rfl, rfl⟩ : Alike u s s) hrun
  exact ⟨t, ht, halike.db.rows, halike.db.cidata, halike.seen⟩

/-- Two users who give a name to the same number. -/
def sharedNumber : List ServiceEvent :=
  [.connect 5,
    .request 0 plainEnv ⟨7, .dbAddCaller 1 ⟨some (ascii "030"), some (ascii "Bob")⟩⟩,
    .request 0 plainEnv ⟨8, .dbAddCaller 2 ⟨some (ascii "030"), some (ascii "Eve")⟩⟩,
    .request 0 plainEnv ⟨9, .dbGetCaller 1 ⟨some (ascii "030"), none⟩⟩]

theorem sharedNumber_isolated : ∃ s', run serviceStep ⟨⟨[], [], 0⟩, [], 0, []⟩ sharedNumber =
      some s' ∧
    ∃ t, run serviceStep ⟨⟨[], [], 0⟩, [], 0, []⟩ (sharedNumber.filter fun e => !e.foreign 1) =
      some t ∧
      rowsOf 1 s'.db = rowsOf 1 t.db ∧ s'.db.cidata = t.db.cidata ∧ seen 1 s' = seen 1 t :=
  ⟨_, rfl, user_isolated 1 rfl⟩

end Fritz2ci
