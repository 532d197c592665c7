import Fritz2ci.Lib.Machine
import Fritz2ci.Proofs.CallerMap

/-! `dbhandler_add_caller` on a connection that another thread inserts calls through. The
update leaves the decision to `sqlite3_changes`, which an insert of the other thread
overwrites; when the update found no row, that insert is taken for the update's. -/

namespace Fritz2ci

open Machine CString KeyedTable

/-- The next call the server thread makes, or its result code. -/
inductive AddCallerPc
  | update | changes | insert | insertChanges
  | done (rc : ℕ)
  deriving DecidableEq, Repr

structure Adding where
  db : Database
  pc : AddCallerPc

/-- A call of the server thread, whose `sqlite3_exec` may fail, or an insert of the Fritz
thread, which the database may refuse. -/
inductive AddingEvent
  | server (ok : Bool)
  | addData (accepts : Bool) (data : CIDataSet)

section
variable (user : Int) (number name : CStr)

/-- `dbhandler_add_caller (user, number, name)` up to its first statement. -/
def Adding.start (db : Database) : Adding :=
  ⟨db, if isValidNumber (some number) then .update else .done 1⟩

def addingStep (s : Adding) : AddingEvent → Option Adding
  | .addData accepts data => some { s with db := (dbhandlerAddData accepts data s.db).2 }
  | .server ok =>
    match s.pc with
    | .update => some (if ok then ⟨sqlUpdateCaller user number name s.db, .changes⟩
        else { s with pc := .done 1 })
    | .changes => some { s with pc := if s.db.changes = 0 then .insert else .done 0 }
    | .insert => some (if ok then ⟨sqlInsertCaller user number name s.db, .insertChanges⟩
        else { s with pc := .done 1 })
    | .insertChanges => some { s with pc := if 0 < s.db.changes then .done 0 else .done 1 }
    | .done _ => none

def HasKey (db : Database) : Prop := ∃ r ∈ db.cicaller, r.key = (user, number)

/-- The row is in the table and is what `dbhandler_get_caller` reads. -/
def Stored (db : Database) : Prop :=
  ⟨user, number, name⟩ ∈ db.cicaller ∧
    dbhandlerGetCaller user (some number) db = some (strlcpy name 256)

/-- No call is inserted between the update and the reading of its change count, unless
the update found the key. -/
def NoInsertBetween (s : Adding) (e : AddingEvent) : Prop :=
  (∃ data, e = .addData true data) → s.pc = .changes → HasKey user number s.db

/-- What the server thread may rely on before each call. -/
def OnTrack (s : Adding) : Prop :=
  match s.pc with
  | .update | .done (_ + 1) => True
  | .changes => (s.db.changes = 0 ∧ ¬ HasKey user number s.db) ∨
      (s.db.changes ≠ 0 ∧ Stored user number name s.db)
  | .insert => ¬ HasKey user number s.db
  | .insertChanges => s.db.changes ≠ 0 ∧ Stored user number name s.db
  | .done 0 => Stored user number name s.db

/-- The call will return, or has returned, 0 for a row that is not there. -/
def Misled (s : Adding) : Prop :=
  ¬ HasKey user number s.db ∧ ((s.pc = .changes ∧ s.db.changes ≠ 0) ∨ s.pc = .done 0)

variable {user number name}

@[simp] theorem addData_cicaller (accepts : Bool) (data : CIDataSet) (db : Database) :
    (dbhandlerAddData accepts data db).2.cicaller = db.cicaller := by
  cases accepts <;> rfl

@[simp] theorem addData_hasKey (accepts : Bool) (data : CIDataSet) (db : Database) :
    HasKey user number (dbhandlerAddData accepts data db).2 ↔ HasKey user number db := by
  simp [HasKey]

@[simp] theorem addData_stored (accepts : Bool) (data : CIDataSet) (db : Database) :
    Stored user number name (dbhandlerAddData accepts data db).2 ↔
      Stored user number name db := by
  have hget : dbhandlerGetCaller user (some number) (dbhandlerAddData accepts data db).2 =
      dbhandlerGetCaller user (some number) db := by
    simp only [dbhandlerGetCaller, addData_cicaller]
  simp only [Stored, addData_cicaller, hget]

theorem addData_changes (accepts : Bool) (data : CIDataSet) (db : Database)
    (h : db.changes ≠ 0) : (dbhandlerAddData accepts data db).2.changes ≠ 0 := by
  cases accepts
  · exact h
  · exact Nat.one_ne_zero

theorem Stored.hasKey {db : Database} (h : Stored user number name db) :
    HasKey user number db :=
  ⟨_, h.1, rfl⟩

theorem changes_ne_zero_iff {db : Database} :
    (sqlUpdateCaller user number name db).changes ≠ 0 ↔ HasKey user number db := by
  rw [ne_eq, sqlUpdateCaller_changes]
  simp [HasKey]

theorem stored_of_map {db : Database} (hv : isValidNumber (some number) = true)
    (hmem : ⟨user, number, name⟩ ∈ db.cicaller)
    (hmap : callerMap db (user, number) = some name) : Stored user number name db := by
  refine ⟨hmem, ?_⟩
  rw [callerMap] at hmap
  simp only [dbhandlerGetCaller, hv, Bool.not_true, Bool.false_eq_true, if_false, hmap]
  rfl

theorem stored_of_update {db : Database} (hv : isValidNumber (some number) = true)
    (h : HasKey user number db) :
    Stored user number name (sqlUpdateCaller user number name db) := by
  apply stored_of_map hv
  · obtain ⟨r, hr, hk⟩ := h
    refine List.mem_map.2 ⟨r, hr, ?_⟩
    obtain ⟨hc, hn⟩ := Prod.mk.inj hk
    rw [if_pos hk, ← hc, ← hn]
  · rw [sqlUpdateCaller_map (changes_ne_zero_iff.2 h), Function.update_self]

theorem stored_of_insert {db : Database} (hv : isValidNumber (some number) = true)
    (h : ¬ HasKey user number db) :
    Stored user number name (sqlInsertCaller user number name db) := by
  apply stored_of_map hv
  · simp [sqlInsertCaller]
  · have hnew : ∀ r ∈ db.cicaller, r.key ≠ (user, number) := fun r hr hk => h ⟨r, hr, hk⟩
    have hm := toMap_snoc CallerRow.key CallerRow.name (r := ⟨user, number, name⟩) hnew
    rw [callerMap, sqlInsertCaller, hm]
    exact Function.update_self _ _ _

theorem onTrack_addData {s : Adding} (accepts : Bool) (data : CIDataSet)
    (h : OnTrack user number name s)
    (hc : NoInsertBetween user number s (.addData accepts data)) :
    OnTrack user number name { s with db := (dbhandlerAddData accepts data s.db).2 } := by
  unfold OnTrack at h ⊢
  cases hpc : s.pc with
  | update => trivial
  | changes =>
    simp only [hpc, addData_hasKey, addData_stored] at h ⊢
    rcases h with ⟨h0, hk⟩ | ⟨h0, hst⟩
    · cases accepts with
      | false => exact Or.inl ⟨h0, hk⟩
      | true => exact absurd (hc ⟨data, rfl⟩ hpc) hk
    · exact Or.inr ⟨addData_changes accepts data s.db h0, hst⟩
  | insert => simpa [hpc] using h
  | insertChanges =>
    simp only [hpc, addData_stored] at h ⊢
    exact ⟨addData_changes accepts data s.db h.1, h.2⟩
  | done rc =>
    cases rc with
    | zero => simpa [hpc] using h
    | succ n => trivial

theorem onTrack_server {s s' : Adding} (hv : isValidNumber (some number) = true) (ok : Bool)
    (h : OnTrack user number name s)
    (hs : addingStep user number name s (.server ok) = some s') :
    OnTrack user number name s' := by
  unfold addingStep at hs
  unfold OnTrack at h
  cases hpc : s.pc with
  | update =>
    simp only [hpc, Option.some.injEq] at hs
    subst hs
    cases ok with
    | false => exact trivial
    | true =>
      by_cases hk : HasKey user number s.db
      · exact Or.inr ⟨changes_ne_zero_iff.2 hk, stored_of_update hv hk⟩
      · have h0 : (sqlUpdateCaller user number name s.db).changes = 0 := by
          by_contra hne
          exact hk (changes_ne_zero_iff.1 hne)
        refine Or.inl ⟨h0, ?_⟩
        rintro ⟨r, hr, hkey⟩
        exact hk ⟨r, sqlUpdateCaller_absent h0 ▸ hr, hkey⟩
  | changes =>
    simp only [hpc, Option.some.injEq] at hs h
    subst hs
    rcases h with ⟨h0, hk⟩ | ⟨h0, hst⟩
    · simpa [OnTrack, h0] using hk
    · simpa [OnTrack, h0] using hst
  | insert =>
    simp only [hpc, Option.some.injEq] at hs h
    subst hs
    cases ok with
    | false => exact trivial
    | true => exact ⟨Nat.one_ne_zero, stored_of_insert hv h⟩
  | insertChanges =>
    simp only [hpc, Option.some.injEq] at hs h
    subst hs
    simpa [OnTrack, Nat.pos_of_ne_zero h.1] using h.2
  | done rc => simp [hpc] at hs

theorem misled_of_insertBetween {s s' : Adding} {e : AddingEvent}
    (hs : addingStep user number name s e = some s') (hc : ¬ NoInsertBetween user number s e) :
    Misled user number s' := by
  simp only [NoInsertBetween, not_forall] at hc
  obtain ⟨⟨data, rfl⟩, hpc, hk⟩ := hc
  simp only [addingStep, Option.some.injEq] at hs
  subst hs
  exact ⟨by simpa using hk, Or.inl ⟨hpc, Nat.one_ne_zero⟩⟩

theorem misled_step {s s' : Adding} {e : AddingEvent} (h : Misled user number s)
    (hs : addingStep user number name s e = some s') : Misled user number s' := by
  obtain ⟨hk, h⟩ := h
  cases e with
  | addData accepts data =>
    simp only [addingStep, Option.some.injEq] at hs
    subst hs
    refine ⟨by simpa using hk, ?_⟩
    rcases h with ⟨hpc, hne⟩ | hpc
    · exact Or.inl ⟨hpc, addData_changes accepts data s.db hne⟩
    · exact Or.inr hpc
  | server ok =>
    rcases h with ⟨hpc, hne⟩ | hpc
    · simp only [addingStep, hpc, hne, if_false, Option.some.injEq] at hs
      subst hs
      exact ⟨hk, Or.inr rfl⟩
    · simp [addingStep, hpc] at hs

end

theorem done_step {user : Int} {number name : CStr} {rc : ℕ} {s s' : Adding} {e : AddingEvent}
    (h : s.pc = .done rc) (hs : addingStep user number name s e = some s') : s'.pc = .done rc := by
  cases e with
  | addData accepts data =>
    simp only [addingStep, Option.some.injEq] at hs
    subst hs
    exact h
  | server ok => simp [addingStep, h] at hs

/-- An invalid number is refused before the first statement. -/
theorem refused_run {user : Int} {number name : CStr} {db : Database} {es : List AddingEvent}
    {t : Adding} (hv : ¬ isValidNumber (some number) = true)
    (ht : run (addingStep user number name) (Adding.start number db) es = some t) :
    t.pc = .done 1 :=
  run_preserves (fun _ _ _ => done_step) es _ t
    (by simp only [Adding.start, hv, Bool.false_eq_true, if_false]) ht

/-- In every interleaving that runs the call to its end, a result of 0 means that the row
is stored exactly when no call was inserted between the update of an absent row and the
reading of its change count. -/
theorem addCaller_stored_iff (user : Int) (number name : CStr) (db : Database)
    (es : List AddingEvent) (t : Adding) (rc : ℕ)
    (ht : run (addingStep user number name) (Adding.start number db) es = some t)
    (hdone : t.pc = .done rc) :
    (rc = 0 → Stored user number name t.db) ↔
      Each (addingStep user number name) (NoInsertBetween user number)
        (Adding.start number db) es := by
  by_cases hv : isValidNumber (some number) = true
  · have hstart : OnTrack user number name (Adding.start number db) := by
      simp only [OnTrack, Adding.start, hv, if_true]
    have hrun := run_inv_or_bad (OnTrack user number name) (Misled user number)
      (NoInsertBetween user number)
      (fun s e s' hi hs hc => by
        cases e with
        | addData accepts data =>
          simp only [addingStep, Option.some.injEq] at hs
          subst hs
          exact onTrack_addData accepts data hi hc
        | server ok => exact onTrack_server hv ok hi hs)
      (fun s e s' _ hs hc => misled_of_insertBetween hs hc)
      (fun s e s' hb hs => misled_step hb hs) es _ t hstart ht
    rcases hrun with ⟨hall, hi⟩ | ⟨hnot, hk, hb⟩
    · refine iff_of_true ?_ hall
      rintro rfl
      simpa only [OnTrack, hdone] using hi
    · refine iff_of_false (fun h => ?_) hnot
      rcases hb with ⟨hpc, -⟩ | hpc
      · rw [hdone] at hpc; cases hpc
      · rw [hdone] at hpc
        cases hpc
        exact hk (h rfl).hasKey
  · refine iff_of_true ?_ ?_
    · rintro rfl
      rw [refused_run hv ht] at hdone
      cases hdone
    · intro pre e _ s u hs _ _ hch
      rw [refused_run hv hs] at hch
      cases hch

/-- Alone on the connection, the steps compute what `dbhandler_add_caller` returns. -/
theorem addCaller_alone (user : Int) (number name : CStr) (db : Database) :
    ∃ n, run (addingStep user number name) (Adding.start number db)
        (List.replicate n (.server true)) =
      some ⟨(dbhandlerAddCaller user (some number) (some name) db).2,
        .done (dbhandlerAddCaller user (some number) (some name) db).1⟩ := by
  by_cases hv : isValidNumber (some number) = true
  · by_cases hc : (sqlUpdateCaller user number name db).changes = 0
    · refine ⟨4, ?_⟩
      simp [run, List.replicate, Adding.start, addingStep, dbhandlerAddCaller, hv, hc,
        sqlInsertCaller]
    · refine ⟨2, ?_⟩
      simp [run, List.replicate, Adding.start, addingStep, dbhandlerAddCaller, hv, hc]
  · refine ⟨0, ?_⟩
    simp [Adding.start, dbhandlerAddCaller, hv]

/-- A call inserted between the update and its change count makes the call return 0 for a
row that no table holds. -/
theorem addCaller_misled :
    ∃ t, run (addingStep 0 (ascii "123") (ascii "Anna")) (Adding.start (ascii "123") .empty)
        [.server true, .addData true .zero, .server true] = some t ∧
      t.pc = .done 0 ∧ ¬ Stored 0 (ascii "123") (ascii "Anna") t.db := by
  refine ⟨_, rfl, rfl, fun h => ?_⟩
  obtain ⟨r, hr, -⟩ := h.hasKey
  cases hr

theorem addCaller_alone_stored :
    Stored 0 (ascii "123") (ascii "Anna") ⟨[], [⟨0, ascii "123", ascii "Anna"⟩], 1⟩ := by
  refine (addCaller_stored_iff 0 (ascii "123") (ascii "Anna") .empty
    [.server true, .server true, .server true, .server true] _ 0 rfl rfl).2 ?_ rfl
  intro pre e hp _ _ _ _ ⟨data, hdata⟩
  have he : e ∈ pre ++ [e] := by simp
  have hmem := hp.subset he
  rw [hdata] at hmem
  simp at hmem

end Fritz2ci
