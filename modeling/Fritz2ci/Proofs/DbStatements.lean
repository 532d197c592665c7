import Fritz2ci.Lib.Machine
import Fritz2ci.Spec.DbStatements

/-! Which calls leave the prepared statements ready. The reading handlers reset theirs behind
every result of a step. `dbhandler_add_data` returns without a reset where its step does not
answer DONE, and from then on every bind of the insert statement is refused. Before its third
bind it splits the date and the time of day into a buffer of 64 bytes. -/

namespace Fritz2ci

open CString CTime DbHandler

def AllReady (h : DbHandler) : Prop := ∀ stmt, h.stmts stmt = .ready

def ReadersReady (h : DbHandler) : Prop := ∀ stmt, stmt ≠ .insertCall → h.stmts stmt = .ready

/-- An insert that the database accepts succeeds and adds its row, for every data set whose
date and time of day `parse_datetime` can split. -/
def AcceptsInserts (z : Zone) (h : DbHandler) : Prop :=
  ∀ data row, bindRow z data = some row →
    ∃ h', h.addData z (some data) (fun _ => true) (.last .done) = some (0, h') ∧
      h'.rows = h.rows ++ [row]

/-- The calls so far have a defined behaviour and end in a state with `P`. -/
def EndsIn (P : DbHandler → Prop) (s : Option DbHandler) : Prop := ∃ h, s = some h ∧ P h

/-- A call of `dbhandler_add_data` that comes to the date and the time of day finds them in
their form, and where its binds are taken its step ends with DONE. -/
def InsertEnds (z : Zone) : DbCall → Prop
  | .addData (some data) binds rc =>
    ([1, 2].all binds → (bindRow z data).isSome) ∧
    ([1, 2, 3, 4, 5, 6, 7].all binds → rc = .last .done)
  | _ => True

section Handlers

variable (z : Zone) (env : Surroundings) {h : DbHandler}

@[simp] theorem reset_step (stmt : Stmt) : (h.step stmt).reset stmt = h.reset stmt := by
  simp [DbHandler.step, DbHandler.reset]

theorem reset_of_ready {stmt : Stmt} (hr : h.stmts stmt = .ready) : h.reset stmt = h := by
  unfold DbHandler.reset
  rw [← hr, Function.update_eq_self]

theorem getNumCalls_handler (rc : StepResult ℤ) :
    (h.getNumCalls rc).2 = h.reset .getNumCalls := by
  unfold DbHandler.getNumCalls
  rcases rc with count | _ | _ | _ <;> exact reset_step _

theorem getCaller_handler (hr : h.stmts .getCaller = .ready) (number : Option CStr)
    (rc : StepResult (Option CStr)) : (h.getCaller number rc).2.2 = h := by
  unfold DbHandler.getCaller
  split_ifs
  · rfl
  · cases rc <;> exact (reset_step _).trans (reset_of_ready hr)

theorem readRows_reset (rows : List (ℤ × CallRow)) (list : List CIDbCall) (h : DbHandler) :
    (readRows z rows list h).2.reset .getCalls = h.reset .getCalls := by
  induction rows generalizing list h with
  | nil => exact reset_step _
  | cons row rows ih => exact (ih _ _).trans (reset_step _)

theorem getCallers_handler (hr : h.stmts .getCaller = .ready) (calls : List CIDbCall)
    (answers : ℕ → StepResult (Option CStr)) : (getCallers env calls answers h).2 = h := by
  induction calls generalizing answers with
  | nil => rfl
  | cons call calls ih =>
    unfold getCallers
    dsimp only
    split_ifs
    · rw [getCaller_handler hr, ih]
    · exact ih _

theorem getCalls_handler (hr : ReadersReady h) (rows : List (ℤ × CallRow)) (rc : StepEnd)
    (answers : ℕ → StepResult (Option CStr)) : (h.getCalls z env rows rc answers).2 = h := by
  have hreset : (readRows z rows [] h).2.reset .getCalls = h := by
    rw [readRows_reset, reset_of_ready (hr _ (by simp))]
  unfold DbHandler.getCalls
  dsimp only
  rw [hreset]
  split_ifs
  · exact getCallers_handler env (hr _ (by simp)) _ _
  · rfl

theorem readRows_list (rows : List (ℤ × CallRow)) (list : List CIDbCall) (h : DbHandler) :
    (readRows z rows list h).1 =
      (rows.map fun row => ⟨row.1, readRow z row.2⟩).reverse ++ list := by
  induction rows generalizing list h with
  | nil => rfl
  | cons row rows ih =>
    rw [readRows, ih, List.map_cons, List.reverse_cons, List.append_assoc, List.singleton_append]

theorem getCallers_calls (calls : List CIDbCall) (answers : ℕ → StepResult (Option CStr))
    (h : DbHandler) : List.Forall₂
      (fun call call' => ∃ caller, call' = ⟨call.id, completeCall env caller call.data⟩)
      calls (getCallers env calls answers h).1 := by
  induction calls generalizing answers h with
  | nil => exact .nil
  | cons call calls ih => exact .cons ⟨_, rfl⟩ (ih _ _)

/-- The calls returned are the rows, last one first, each read by `readCall`. -/
theorem getCalls_calls {rows : List (ℤ × CallRow)} {rc : StepEnd}
    {answers : ℕ → StepResult (Option CStr)} {calls : List CIDbCall}
    (hc : (h.getCalls z env rows rc answers).1 = some calls) :
    List.Forall₂ (fun row call => ∃ caller, call = ⟨row.1, readCall z env caller row.2⟩)
      rows.reverse calls := by
  unfold DbHandler.getCalls at hc
  dsimp only at hc
  rw [readRows_list, List.append_nil, ← List.map_reverse] at hc
  split_ifs at hc
  cases hc
  have hcallers := getCallers_calls env (rows.reverse.map fun row => ⟨row.1, readRow z row.2⟩)
    answers ((readRows z rows [] h).2.reset .getCalls)
  rw [List.forall₂_map_left_iff] at hcallers
  exact hcallers

theorem call_eq_self (hr : ReadersReady h) {c : DbCall}
    (hc : ∀ data binds rc, c ≠ .addData data binds rc) : h.call z env c = some h := by
  cases c with
  | addData data binds rc => exact absurd rfl (hc data binds rc)
  | getNumCalls rc =>
    exact congrArg some ((getNumCalls_handler rc).trans (reset_of_ready (hr _ (by simp))))
  | getCalls rows rc answers => exact congrArg some (getCalls_handler z env hr rows rc answers)
  | getCaller number rc => exact congrArg some (getCaller_handler (hr _ (by simp)) number rc)

end Handlers

section Insert

variable (z : Zone) {h : DbHandler}

theorem addData_ready (hr : h.stmts .insertCall = .ready) (data : CIDataSet) (binds : ℕ → Bool)
    (rc : StepResult Unit) : h.addData z (some data) binds rc =
      if [1, 2].all binds then
        (bindRow z data).map fun row =>
          if [3, 4, 5, 6, 7].all binds then
            if rc = .last .done then (0, { h with rows := h.rows ++ [row] })
            else (1, h.step .insertCall)
          else (1, h)
      else some (1, h) := by
  have hbinds : ∀ positions : List ℕ,
      (positions.all fun pos => h.bind .insertCall (binds pos)) = positions.all binds := by
    intro positions
    simp [DbHandler.bind, hr]
  simp only [DbHandler.addData, hbinds]
  cases [1, 2].all binds with
  | false => rfl
  | true =>
    cases bindRow z data with
    | none => rfl
    | some row =>
      cases [3, 4, 5, 6, 7].all binds with
      | false => rfl
      | true =>
        rcases rc with _ | _ | _ | _
        · rfl
        · simp [DbHandler.step, DbHandler.reset, ← hr]
        · rfl
        · rfl

theorem addData_stepped (hs : h.stmts .insertCall = .stepped) (data : Option CIDataSet)
    (binds : ℕ → Bool) (rc : StepResult Unit) : h.addData z data binds rc = some (1, h) := by
  cases data with
  | none => rfl
  | some data => simp [DbHandler.addData, DbHandler.bind, hs]

theorem AllReady.readersReady (hr : AllReady h) : ReadersReady h := fun stmt _ => hr stmt

theorem AllReady.acceptsInserts (hr : AllReady h) : AcceptsInserts z h := by
  intro data row hrow
  refine ⟨{ h with rows := h.rows ++ [row] }, ?_, rfl⟩
  rw [addData_ready z (hr _), hrow]
  rfl

def noonCall : CIDataSet
  | .cidsDate => ascii "2013-02-01"
  | .cidsTime => ascii "12:00:00"
  | .cidsNumberComplete => ascii "030123"
  | _ => []

theorem noonCall_bindRow : ∃ row, bindRow z noonCall = some row := by
  have hdate : parseDate (some (noonCall .cidsDate)) BrokenDown.zero =
      some { BrokenDown.zero with year := 113, mon := 1, mday := 1 } := by decide
  have htime : parseTime (some (noonCall .cidsTime))
      { BrokenDown.zero with year := 113, mon := 1, mday := 1 } =
      some { BrokenDown.zero with year := 113, mon := 1, mday := 1, hour := 12 } := by decide
  rw [bindRow, parseDatetime, hdate, Option.bind_some, htime]
  exact ⟨_, rfl⟩

theorem not_acceptsInserts (hs : h.stmts .insertCall = .stepped) : ¬ AcceptsInserts z h := by
  intro hacc
  obtain ⟨row, hrow⟩ := noonCall_bindRow z
  obtain ⟨h', hadd, -⟩ := hacc noonCall row hrow
  rw [addData_stepped z hs] at hadd
  cases hadd

end Insert

section Runs

variable (z : Zone) (env : Surroundings)

theorem all_binds_iff (binds : ℕ → Bool) : [1, 2, 3, 4, 5, 6, 7].all binds ↔
    [1, 2].all binds ∧ [3, 4, 5, 6, 7].all binds := by
  rw [← Bool.and_eq_true_iff, ← List.all_append]
  rfl

theorem allReady_call {h : DbHandler} {c : DbCall} (hr : AllReady h) (hc : InsertEnds z c) :
    EndsIn AllReady (h.call z env c) := by
  cases c with
  | addData data binds rc =>
    cases data with
    | none => exact ⟨h, rfl, hr⟩
    | some data =>
      simp only [DbHandler.call, addData_ready z (hr .insertCall)]
      by_cases h12 : [1, 2].all binds = true
      · obtain ⟨row, hrow⟩ := Option.isSome_iff_exists.1 (hc.1 h12)
        rw [if_pos h12, hrow, Option.map_some, Option.map_some]
        split_ifs with hrest hdone
        · exact ⟨_, rfl, hr⟩
        · exact absurd (hc.2 ((all_binds_iff binds).2 ⟨h12, hrest⟩)) hdone
        · exact ⟨_, rfl, hr⟩
      · rw [if_neg h12]
        exact ⟨h, rfl, hr⟩
  | _ => exact ⟨h, call_eq_self z env hr.readersReady (by simp), hr⟩

/-- Another insert is not defined, or leaves its statement stepped. -/
theorem call_stops {h : DbHandler} {c : DbCall} (hr : AllReady h) (hc : ¬ InsertEnds z c) :
    h.call z env c = none ∨ h.call z env c = some (h.step .insertCall) := by
  cases c with
  | addData data binds rc =>
    cases data with
    | none => exact absurd trivial hc
    | some data =>
      simp only [DbHandler.call, addData_ready z (hr .insertCall)]
      by_cases h12 : [1, 2].all binds = true
      · rw [if_pos h12]
        cases hrow : bindRow z data with
        | none => exact Or.inl rfl
        | some row =>
          have hstep : ¬ ([1, 2, 3, 4, 5, 6, 7].all binds → rc = .last .done) :=
            fun hend => hc ⟨fun _ => by rw [hrow]; rfl, hend⟩
          obtain ⟨hall, hdone⟩ := Classical.not_imp.1 hstep
          rw [Option.map_some, if_pos ((all_binds_iff binds).1 hall).2, if_neg hdone]
          exact Or.inr rfl
      · exact absurd ⟨fun h => absurd h h12, fun h => absurd ((all_binds_iff binds).1 h).1 h12⟩ hc
  | _ => exact absurd trivial hc

/-- Behind an insert cut short no call changes anything, so no row is stored any more. -/
theorem stopped_for_good {h : DbHandler} {c : DbCall} (hr : AllReady h) (hc : ¬ InsertEnds z c)
    (calls : List DbCall) : Machine.run (callStep z env) (h.call z env c) calls =
      some (h.call z env c) := by
  suffices hcall : ∀ d, callStep z env (h.call z env c) d = some (h.call z env c) by
    induction calls with
    | nil => rfl
    | cons d calls ih => exact Machine.run_cons_eq_some.2 ⟨_, hcall d, ih⟩
  intro d
  rcases call_stops z env hr hc with hnone | hstep
  · rw [hnone]; rfl
  · rw [hstep]
    have hstepped : (h.step .insertCall).stmts .insertCall = .stepped := by simp [DbHandler.step]
    have hreaders : ReadersReady (h.step .insertCall) := fun stmt hne =>
      (Function.update_of_ne hne _ _).trans (hr stmt)
    refine congrArg some ?_
    rw [Option.bind_some]
    cases d with
    | addData data binds rc =>
      rw [DbHandler.call, addData_stepped z hstepped, Option.map_some]
    | _ => exact call_eq_self z env hreaders (by simp)

/-- From a successful `dbhandler_init` on, every call is defined and leaves the statements
ready, and an accepted insert succeeds after it, exactly in the runs in which no insert is cut
short at its step or given a date or a time of day that it cannot split. -/
theorem statements_ready_iff (rows : List CallRow) (calls : List DbCall) :
    (Machine.Always (callStep z env) (EndsIn AllReady) (some (DbHandler.init rows)) calls ↔
      ∀ c ∈ calls, InsertEnds z c) ∧
    (Machine.Always (callStep z env) (EndsIn (AcceptsInserts z)) (some (DbHandler.init rows))
      calls ↔ ∀ c ∈ calls, InsertEnds z c) := by
  have htotal : ∀ s c, ∃ s', callStep z env s c = some s' := fun s c => ⟨_, rfl⟩
  have hinit : EndsIn AllReady (some (DbHandler.init rows)) := ⟨_, rfl, fun _ => rfl⟩
  have hkeep : ∀ s c s', EndsIn AllReady s → callStep z env s c = some s' → InsertEnds z c →
      EndsIn AllReady s' := by
    rintro _ c _ ⟨h, rfl, hr⟩ ⟨⟩ hc
    exact allReady_call z env hr hc
  have hstop : ∀ s c s', EndsIn AllReady s → callStep z env s c = some s' → ¬ InsertEnds z c →
      ∀ h, s' = some h → h.stmts .insertCall = .stepped := by
    rintro _ c _ ⟨h, rfl, hr⟩ ⟨⟩ hc h' hh'
    rcases call_stops z env hr hc with hnone | hstep
    · cases hnone.symm.trans hh'
    · cases hstep.symm.trans hh'
      simp [DbHandler.step]
  rw [← Machine.each_iff_forall_mem htotal (some (DbHandler.init rows)) calls]
  constructor
  · refine Machine.always_iff_each (EndsIn AllReady) (EndsIn AllReady)
      (fun _ c => InsertEnds z c) (fun _ hr => hr) hkeep ?_ calls _ hinit
    rintro s c s' hr hcall hc ⟨h, hs', hready⟩
    have hs := hstop s c s' hr hcall hc h hs'
    rw [hready .insertCall] at hs
    cases hs
  · refine Machine.always_iff_each (EndsIn AllReady) (EndsIn (AcceptsInserts z))
      (fun _ c => InsertEnds z c) ?_ hkeep ?_ calls _ hinit
    · rintro _ ⟨h, rfl, hr⟩
      exact ⟨h, rfl, hr.acceptsInserts z⟩
    · rintro s c s' hr hcall hc ⟨h, hs', hacc⟩
      exact not_acceptsInserts z (hstop s c s' hr hcall hc h hs') hacc

/-- The first insert of a fresh database finds it locked. -/
def lockedInsert : DbCall := .addData (some noonCall) (fun _ => true) (.last .busy)

theorem lockedInsert_disables : ¬ ∀ (z : Zone) (env : Surroundings) (rows : List CallRow)
    (calls : List DbCall), Machine.Always (callStep z env)
      (EndsIn fun h => AllReady h ∧ AcceptsInserts z h) (some (DbHandler.init rows)) calls := by
  intro h
  obtain ⟨h', hrun, hready, -⟩ := h Zone.utc
    ⟨ciInitAreaCodes, none, [], [], fun _ => none, true⟩ [] [lockedInsert] [lockedInsert]
    List.prefix_rfl _ rfl
  obtain ⟨row, hrow⟩ := noonCall_bindRow Zone.utc
  -- the locked insert leaves its statement stepped
  have hstepped : some h' = some ((DbHandler.init []).step .insertCall) := by
    rw [← hrun, Option.bind_some, lockedInsert, DbHandler.call, addData_ready _ rfl, hrow]
    rfl
  have hinsert := hready .insertCall
  rw [Option.some.inj hstepped] at hinsert
  simp [DbHandler.step] at hinsert

end Runs

end Fritz2ci
