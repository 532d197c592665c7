import Fritz2ci.Lib.Machine
import Fritz2ci.Proofs.CallerMap
import Fritz2ci.Spec.Requests

/-! What the clients see of the two tables: a phone book with one name for each user and
number, and a log of calls. Every request is answered from them, at the moment it is handled
and to the client that made it. -/

namespace Fritz2ci

open CString Machine

/-- What the service is for. -/
structure Directory where
  book : CallerMap
  log : List CIDataSet

open Classical in
/-- What an event changes, as the operations are meant. -/
noncomputable def Directory.after (d : Directory) : ServiceEvent → Directory
  | .request _ _ ⟨_, .dbAddCaller user caller⟩ =>
    { d with book := (d.book.apply (.add user caller.number caller.name)).2 }
  | .request _ _ ⟨_, .dbDelCaller user caller⟩ =>
    { d with book := (d.book.apply (.remove user caller.number caller.name)).2 }
  | .ring data => { d with log := d.log ++ [data] }
  | _ => d

/-- The name that a user has given to a number, as far as a reply holds it. -/
def Directory.name (d : Directory) (user : ℤ) (number : CStr) : Option CStr :=
  (d.book (user, number)).map fun name => name.take 255

/-- A call as a user sees it. -/
def Directory.call (d : Directory) (env : RequestEnv) (user : ℤ) (r : ℤ × CallRow) : CICallInfo :=
  CIDbCall.info ⟨toInt r.1, readCall env.zone env.surroundings
    (d.name user (strlcpy r.2.number 32)) r.2⟩

def wanted (like : CStr → CStr → Bool) (filter : Option CStr) (number name : CStr) : Bool :=
  match filter with
  | none | some [] => true
  | some q => like (ascii "%" ++ q ++ ascii "%") name || like (ascii "%" ++ q ++ ascii "%") number

/-- A right answer. -/
inductive Directory.Answers (d : Directory) (env : RequestEnv) : ClientMsg → ServerMsg → Prop
  | version (major minor patch : UInt32) : Answers d env (.version major minor patch) (.version 3 0 0)
  | leave : Answers d env .leave .leave
  | dbNumCalls : Answers d env .dbNumCalls (.dbNumCalls (toGulong (toInt d.log.length)))
  /-- the window of the log by descending time, oldest call first -/
  | dbCallList (user offset count : ℤ) (rows ordered : List (ℤ × CallRow))
      (hrows : cidataRows env.zone d.log = some rows) (hdesc : TimestampDesc rows ordered) :
      Answers d env (.dbCallList user offset count) (.dbCallList user offset count
        ((sqlLimit offset count ordered).reverse.map (d.call env user)))
  | dbGetCaller (user : ℤ) (caller : CINetCaller) :
      Answers d env (.dbGetCaller user caller)
        (.dbGetCaller user caller.number (caller.number.bind (d.name user)))
  | dbAddCaller (user : ℤ) (caller : CINetCaller) :
      Answers d env (.dbAddCaller user caller) (.dbAddCaller user caller)
  | dbDelCaller (user : ℤ) (caller : CINetCaller) :
      Answers d env (.dbDelCaller user caller) (.dbDelCaller user caller)
  /-- every entry of the user that is asked for, once -/
  | dbGetCallerList (user : ℤ) (filter : Option CStr) (callers : List (CStr × CStr))
      (hnodup : (callers.map Prod.fst).Nodup)
      (hmem : ∀ number name, (number, name) ∈ callers ↔
        d.book (user, number) = some name ∧ wanted env.like filter number name) :
      Answers d env (.dbGetCallerList user filter) (.dbGetCallerList user filter callers)

/-- The events of a run with the replies they lead to: one to each message that is known,
none to anything else. -/
inductive Directory.Serves : Directory → List ServiceEvent → List (ℕ × ServerReply) →
    Directory → Prop
  | nil (d : Directory) : Serves d [] [] d
  | quiet {d d' : Directory} {e : ServiceEvent} {es : List ServiceEvent}
      {replies : List (ℕ × ServerReply)} (hquiet : ∀ conn env r, e = .request conn env r →
        r.msg = .unhandled) (h : Serves (d.after e) es replies d') : Serves d (e :: es) replies d'
  | answer {d d' : Directory} {conn : ℕ} {env : RequestEnv} {r : ClientRequest}
      {es : List ServiceEvent} {replies : List (ℕ × ServerReply)} {m : ServerMsg}
      (hm : d.Answers env r.msg m) (h : Serves (d.after (.request conn env r)) es replies d') :
      Serves d (.request conn env r :: es) ((conn, ⟨r.guid, m⟩) :: replies) d'

def Service.directory (s : Service) : Directory := ⟨callerMap s.db, s.db.cidata⟩

theorem removeCaller_cidata (user : ℤ) (number name : Option CStr) (db : Database) :
    (dbhandlerRemoveCaller user number name db).2.cidata = db.cidata := by
  unfold dbhandlerRemoveCaller
  cases number with
  | none => rfl
  | some n =>
    dsimp only
    split_ifs
    · rfl
    · cases name <;> rfl

theorem addCaller_cidata (user : ℤ) (number name : Option CStr) (db : Database) :
    (dbhandlerAddCaller user number name db).2.cidata = db.cidata := by
  unfold dbhandlerAddCaller
  cases number with
  | none => rfl
  | some n =>
    cases name with
    | none => rfl
    | some v =>
      dsimp only
      split_ifs <;> rfl

theorem getCaller_name {db : Database} (h : Keyed db) (user : ℤ) (number : Option CStr) :
    dbhandlerGetCaller user number db =
      number.bind (Directory.name ⟨callerMap db, db.cidata⟩ user) := by
  rw [getCaller_eq h]
  rfl

theorem getCallers_eq (like : CStr → CStr → Bool) (user : ℤ) (filter : Option CStr)
    (db : Database) : dbhandlerGetCallers like user filter db =
      ((db.cicaller.filter fun r => r.clientid = user && wanted like filter r.number r.name).map
        fun r => (r.number, r.name)).reverse := by
  cases filter with
  | none => simp [dbhandlerGetCallers, wanted]
  | some q => cases q <;> simp [dbhandlerGetCallers, wanted]

theorem mem_getCallers_filter {db : Database} (h : Keyed db) (like : CStr → CStr → Bool)
    (user : ℤ) (filter : Option CStr) (number name : CStr) :
    (number, name) ∈ dbhandlerGetCallers like user filter db ↔
      callerMap db (user, number) = some name ∧ wanted like filter number name := by
  rw [← mem_getCallers h like, getCallers_eq, getCallers_eq]
  simp only [List.mem_reverse, List.mem_map, List.mem_filter, Bool.and_eq_true, decide_eq_true_eq,
    Prod.mk.injEq]
  constructor
  · rintro ⟨r, ⟨hr, huser, hwanted⟩, rfl, rfl⟩
    exact ⟨⟨r, ⟨hr, huser, rfl⟩, rfl, rfl⟩, hwanted⟩
  · rintro ⟨⟨r, ⟨hr, huser, -⟩, rfl, rfl⟩, hwanted⟩
    exact ⟨r, ⟨hr, huser, hwanted⟩, rfl, rfl⟩

theorem getCallers_nodup {db : Database} (h : Keyed db) (like : CStr → CStr → Bool) (user : ℤ)
    (filter : Option CStr) : ((dbhandlerGetCallers like user filter db).map Prod.fst).Nodup := by
  refine (getCallers_numbers_nodup h like user).sublist ?_
  rw [getCallers_eq, getCallers_eq, List.map_reverse, List.map_reverse, List.reverse_sublist]
  refine ((List.monotone_filter_right _ fun r hr => ?_).map _).map _
  simp only [Bool.and_eq_true] at hr ⊢
  exact ⟨hr.1, rfl⟩

/-- What a handler answers is right, and its database still is the one of the directory. -/
theorem handleClientMsg_answers {db db' : Database} (h : Keyed db) (env : RequestEnv)
    {msg : ClientMsg} {m : ServerMsg} (hm : handleClientMsg env db msg = some (db', some m)) :
    Directory.Answers ⟨callerMap db, db.cidata⟩ env msg m := by
  cases msg with
  | version major minor patch => cases hm; exact .version major minor patch
  | leave => cases hm; exact .leave
  | dbNumCalls => cases hm; exact .dbNumCalls
  | dbCallList user offset count =>
    simp only [handleClientMsg, Option.map_eq_some_iff] at hm
    obtain ⟨calls, hcalls, heq⟩ := hm
    cases heq
    simp only [dbhandlerGetCalls, Option.map_eq_some_iff] at hcalls
    obtain ⟨rows, hrows, rfl⟩ := hcalls
    rw [List.map_map]
    have hcall : CIDbCall.info ∘ readDbCall env user db =
        Directory.call ⟨callerMap db, db.cidata⟩ env user := by
      funext r
      simp only [Function.comp, readDbCall, Directory.call, getCaller_name h, Option.bind_some]
    rw [hcall]
    exact .dbCallList user offset count rows _ hrows (env.desc rows)
  | dbGetCaller user caller =>
    cases hm
    rw [getCaller_name h]
    exact .dbGetCaller user caller
  | dbAddCaller user caller => cases hm; exact .dbAddCaller user caller
  | dbDelCaller user caller => cases hm; exact .dbDelCaller user caller
  | dbGetCallerList user filter =>
    cases hm
    exact .dbGetCallerList user filter _ (getCallers_nodup h env.like user filter)
      (mem_getCallers_filter h env.like user filter)
  | unhandled => cases hm

theorem handleClientMsg_quiet {db db' : Database} {env : RequestEnv} {msg : ClientMsg}
    (hm : handleClientMsg env db msg = some (db', none)) : msg = .unhandled := by
  cases msg <;> simp_all [handleClientMsg]

theorem handleClientMsg_after {db db' : Database} (h : Keyed db) (conn : ℕ) (env : RequestEnv)
    (r : ClientRequest) {m : Option ServerMsg}
    (hm : handleClientMsg env db r.msg = some (db', m)) :
    Keyed db' ∧ (⟨callerMap db', db'.cidata⟩ : Directory) =
      Directory.after ⟨callerMap db, db.cidata⟩ (.request conn env r) := by
  obtain ⟨guid, msg⟩ := r
  have hsame : ∀ {d : Database}, d = db → Keyed d ∧
      (⟨callerMap d, d.cidata⟩ : Directory) = ⟨callerMap db, db.cidata⟩ := by
    rintro d rfl
    exact ⟨h, rfl⟩
  cases msg with
  | dbAddCaller user caller =>
    cases hm
    obtain ⟨hk, -, hmap⟩ := applyOp_refines (.add user caller.number caller.name) h
    simp only [applyOp] at hk hmap
    exact ⟨hk, by rw [Directory.after, ← hmap, addCaller_cidata]⟩
  | dbDelCaller user caller =>
    cases hm
    obtain ⟨hk, -, hmap⟩ := applyOp_refines (.remove user caller.number caller.name) h
    simp only [applyOp] at hk hmap
    exact ⟨hk, by rw [Directory.after, ← hmap, removeCaller_cidata]⟩
  | dbCallList user offset count =>
    simp only [handleClientMsg, Option.map_eq_some_iff] at hm
    obtain ⟨calls, -, heq⟩ := hm
    exact hsame (Prod.mk.inj heq).1.symm
  | version major minor patch => exact hsame (Prod.mk.inj (Option.some.inj hm)).1.symm
  | leave => exact hsame (Prod.mk.inj (Option.some.inj hm)).1.symm
  | dbNumCalls => exact hsame (Prod.mk.inj (Option.some.inj hm)).1.symm
  | dbGetCaller user caller => exact hsame (Prod.mk.inj (Option.some.inj hm)).1.symm
  | dbGetCallerList user filter => exact hsame (Prod.mk.inj (Option.some.inj hm)).1.symm
  | unhandled => exact hsame (Prod.mk.inj (Option.some.inj hm)).1.symm

theorem serviceStep_serves {s s' : Service} {e : ServiceEvent} (h : Keyed s.db)
    (hs : serviceStep s e = some s') :
    Keyed s'.db ∧ s'.directory = s.directory.after e ∧
      ((s'.sent = s.sent ∧ ∀ conn env r, e = .request conn env r → r.msg = .unhandled) ∨
        ∃ conn env r m, e = .request conn env r ∧ s.directory.Answers env r.msg m ∧
          s'.sent = s.sent ++ [(conn, ⟨r.guid, m⟩)]) := by
  cases e with
  | connect sock =>
    cases hs
    exact ⟨h, rfl, Or.inl ⟨rfl, by simp⟩⟩
  | removeMarked =>
    cases hs
    exact ⟨h, rfl, Or.inl ⟨rfl, by simp⟩⟩
  | ring data =>
    cases hs
    exact ⟨⟨h.unique, h.valid⟩, rfl, Or.inl ⟨rfl, by simp⟩⟩
  | request conn env r =>
    rw [serviceStep] at hs
    split_ifs at hs with hclient
    obtain ⟨⟨db', reply⟩, hmsg, rfl⟩ := Option.map_eq_some_iff.1 hs
    obtain ⟨hk, hdir⟩ := handleClientMsg_after h conn env r hmsg
    refine ⟨hk, hdir, ?_⟩
    cases reply with
    | none =>
      refine Or.inl ⟨List.append_nil _, fun conn' env' r' heq => ?_⟩
      cases heq
      exact handleClientMsg_quiet hmsg
    | some m => exact Or.inr ⟨conn, env, r, m, rfl, handleClientMsg_answers h env hmsg, rfl⟩

theorem run_serves (es : List ServiceEvent) {s t : Service} (h : Keyed s.db)
    (hrun : run serviceStep s es = some t) :
    ∃ replies, t.sent = s.sent ++ replies ∧ s.directory.Serves es replies t.directory := by
  induction es generalizing s with
  | nil =>
    cases hrun
    exact ⟨[], (List.append_nil _).symm, .nil _⟩
  | cons e es ih =>
    obtain ⟨s', hs, hrest⟩ := run_cons_eq_some.1 hrun
    obtain ⟨hk, hdir, hreply⟩ := serviceStep_serves h hs
    obtain ⟨replies, hsent, hserves⟩ := ih hk hrest
    rw [hdir] at hserves
    rcases hreply with ⟨heq, hquiet⟩ | ⟨conn, env, r, m, rfl, hm, heq⟩
    · exact ⟨replies, by rw [hsent, heq], .quiet hquiet hserves⟩
    · refine ⟨(conn, ⟨r.guid, m⟩) :: replies, ?_, .answer hm hserves⟩
      rw [hsent, heq, List.append_assoc, List.singleton_append]

/-- The known messages of a client, in order. -/
def asked (conn : ℕ) (es : List ServiceEvent) : List ClientRequest :=
  es.filterMap fun
    | .request c _ r => if c = conn ∧ r.msg ≠ .unhandled then some r else none
    | _ => none

theorem answers_known {d : Directory} {env : RequestEnv} {msg : ClientMsg} {m : ServerMsg}
    (h : d.Answers env msg m) : msg ≠ .unhandled := by
  rintro rfl
  cases h

theorem serves_guids {d d' : Directory} {es : List ServiceEvent} {replies : List (ℕ × ServerReply)}
    (h : d.Serves es replies d') (conn : ℕ) :
    (replies.filter fun r => r.1 = conn).map (fun r => r.2.guid) =
      (asked conn es).map ClientRequest.guid := by
  induction h with
  | nil d => rfl
  | quiet hquiet h ih =>
    rename_i e es replies
    have hnone : asked conn (e :: es) = asked conn es := by
      cases e with
      | request c env r => simp [asked, hquiet c env r rfl]
      | _ => rfl
    rw [hnone, ih]
  | answer hm h ih =>
    rename_i c env r es replies m
    have hknown := answers_known hm
    by_cases hc : c = conn
    · simp [asked, hc, hknown] at ih ⊢
      exact ih
    · simp [asked, hc] at ih ⊢
      exact ih

/-- From an empty caller table on, whatever calls come in between and whoever asks, every
reply is the right one from the phone book and the log of that moment, and each client gets
the replies to its own messages alone. -/
theorem clients_see_directory (cidata : List CIDataSet) (changes : ℕ) (es : List ServiceEvent)
    {t : Service} (hrun : run serviceStep ⟨⟨cidata, [], changes⟩, [], 0, []⟩ es = some t) :
    Directory.Serves ⟨fun _ => none, cidata⟩ es t.sent t.directory ∧
      ∀ conn, (t.sent.filter fun r => r.1 = conn).map (fun r => r.2.guid) =
        (asked conn es).map ClientRequest.guid := by
  have hempty : Keyed ⟨cidata, [], changes⟩ := ⟨List.nodup_nil, fun r hr => by cases hr⟩
  obtain ⟨replies, hsent, hserves⟩ := run_serves es hempty hrun
  rw [List.nil_append] at hsent
  subst hsent
  exact ⟨hserves, serves_guids hserves⟩

def plainEnv : RequestEnv where
  zone := CTime.Zone.utc
  surroundings := ⟨ciInitAreaCodes, none, [], [], fun _ => none, true⟩
  like _ _ := false
  ordered := byTimestamp
  desc := byTimestamp_desc

/-- A client that stores a name and asks for it. -/
def bookRun : List ServiceEvent :=
  [.connect 5,
    .request 0 plainEnv ⟨7, .dbAddCaller 1 ⟨some (ascii "030"), some (ascii "Bob")⟩⟩,
    .request 0 plainEnv ⟨8, .dbGetCaller 1 ⟨some (ascii "030"), none⟩⟩]

theorem bookRun_served : ∃ t, run serviceStep ⟨⟨[], [], 0⟩, [], 0, []⟩ bookRun = some t ∧
    Directory.Serves ⟨fun _ => none, []⟩ bookRun t.sent t.directory ∧
      ∀ conn, (t.sent.filter fun r => r.1 = conn).map (fun r => r.2.guid) =
        (asked conn bookRun).map ClientRequest.guid :=
  ⟨_, rfl, clients_see_directory [] 0 bookRun rfl⟩

end Fritz2ci
