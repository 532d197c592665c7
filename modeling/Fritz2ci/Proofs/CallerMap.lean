import Fritz2ci.Spec.DbHandler

/-! The caller table, whose schema declares no key, refines a finite map from user and
number to a name: an update that touched no row is what makes an insert safe. -/

namespace Fritz2ci

open CString KeyedTable

/-- What the table is for. -/
abbrev CallerMap := Int × CStr → Option CStr

def DigitString (n : CStr) : Prop := n ≠ [] ∧ ∀ b ∈ n, isDigit b = true

inductive CallerOp
  | add (user : Int) (number name : Option CStr)
  | remove (user : Int) (number name : Option CStr)

section Abstract
open Classical

/-- Result code and map after an operation, as the operations are meant. -/
noncomputable def CallerMap.apply (m : CallerMap) : CallerOp → ℕ × CallerMap
  | .add user (some n) (some v) =>
    if DigitString n then (0, Function.update m (user, n) (some v)) else (1, m)
  | .add _ _ _ => (1, m)
  | .remove user (some n) name =>
    (if DigitString n then 0 else 1,
      if name ≠ none ∧ m (user, n) = name then Function.update m (user, n) none else m)
  | .remove _ none _ => (1, m)

end Abstract

def applyOp (db : Database) : CallerOp → ℕ × Database
  | .add user number name => dbhandlerAddCaller user number name db
  | .remove user number name => dbhandlerRemoveCaller user number name db

/-- The result codes of a sequence of operations, and the state after it. -/
def runOps {S : Type*} (step : S → CallerOp → ℕ × S) (s : S) : List CallerOp → List ℕ × S
  | [] => ([], s)
  | op :: ops =>
    let (rc, s') := step s op
    let (rcs, t) := runOps step s' ops
    (rc :: rcs, t)

def callerMap (db : Database) : CallerMap := toMap CallerRow.key CallerRow.name db.cicaller

/-- The table holds at most one row for each key, and only keys with a valid number. -/
structure Keyed (db : Database) : Prop where
  unique : UniqueKeys CallerRow.key db.cicaller
  valid : ∀ r ∈ db.cicaller, DigitString r.number

theorem isValidNumber_iff (n : CStr) : isValidNumber (some n) = true ↔ DigitString n := by
  simp [isValidNumber, DigitString]

theorem sqlUpdateCaller_map {user : Int} {number name : CStr} {db : Database}
    (h : (sqlUpdateCaller user number name db).changes ≠ 0) :
    callerMap (sqlUpdateCaller user number name db) =
      Function.update (callerMap db) (user, number) (some name) := by
  have hk : ∃ r ∈ db.cicaller, r.key = (user, number) := by
    by_contra hno
    exact h (sqlUpdateCaller_changes.2 fun r hr hkey => hno ⟨r, hr, hkey⟩)
  exact toMap_update CallerRow.key CallerRow.name
    (fun r => { r with name }) (fun _ => rfl) (fun _ => rfl) hk

theorem keyed_update {user : Int} {number name : CStr} {db : Database} (h : Keyed db) :
    Keyed (sqlUpdateCaller user number name db) := by
  refine ⟨unique_map _ (fun r => ?_) h.unique, fun r hr => ?_⟩
  · split_ifs <;> rfl
  · obtain ⟨r', hr', rfl⟩ := List.mem_map.1 hr
    have hv := h.valid r' hr'
    split_ifs <;> exact hv

theorem sqlUpdateCaller_absent {user : Int} {number name : CStr} {db : Database}
    (h : (sqlUpdateCaller user number name db).changes = 0) :
    (sqlUpdateCaller user number name db).cicaller = db.cicaller :=
  update_absent (fun r : CallerRow => { r with name }) (sqlUpdateCaller_changes.1 h)

theorem addCaller_refines (user : Int) (n v : CStr) {db : Database} (h : Keyed db)
    (hn : DigitString n) :
    (dbhandlerAddCaller user (some n) (some v) db).1 = 0 ∧
      Keyed (dbhandlerAddCaller user (some n) (some v) db).2 ∧
      callerMap (dbhandlerAddCaller user (some n) (some v) db).2 =
        Function.update (callerMap db) (user, n) (some v) := by
  have hv : (!isValidNumber (some n)) = false := by simp [(isValidNumber_iff n).2 hn]
  simp only [dbhandlerAddCaller, hv, Bool.false_eq_true, if_false]
  by_cases hc : (sqlUpdateCaller user n v db).changes = 0
  · have habs := sqlUpdateCaller_absent hc
    have hnew := sqlUpdateCaller_changes.1 hc
    simp only [hc, if_true, sqlInsertCaller, habs, Nat.zero_lt_one, true_and]
    refine ⟨⟨unique_snoc h.unique hnew, fun r hr => ?_⟩,
      toMap_snoc CallerRow.key CallerRow.name (r := ⟨user, n, v⟩) hnew⟩
    rcases List.mem_append.1 hr with hr | hr
    · exact h.valid r hr
    · obtain rfl := List.mem_singleton.1 hr
      exact hn
  · simp only [hc, if_false, true_and]
    exact ⟨keyed_update h, sqlUpdateCaller_map hc⟩

theorem removeCaller_refines (user : Int) (n : CStr) (name : Option CStr) {db : Database}
    (h : Keyed db) :
    Keyed (dbhandlerRemoveCaller user (some n) name db).2 ∧
      callerMap (dbhandlerRemoveCaller user (some n) name db).2 =
        if name ≠ none ∧ callerMap db (user, n) = name then
          Function.update (callerMap db) (user, n) none else callerMap db := by
  unfold dbhandlerRemoveCaller
  by_cases hn : DigitString n
  · simp only [(isValidNumber_iff n).2 hn, Bool.not_true, Bool.false_eq_true, if_false]
    cases name with
    | none => simpa [sqlDeleteCaller, callerMap] using ⟨h.unique, h.valid⟩
    | some v =>
      refine ⟨⟨unique_filter _ h.unique, fun r hr => h.valid r (List.mem_of_mem_filter hr)⟩, ?_⟩
      simp only [ne_eq, reduceCtorEq, not_false_eq_true, true_and]
      exact toMap_delete h.unique (user, n) v
  · have habs : callerMap db (user, n) = none := by
      refine toMap_eq_none.2 fun r hr hk => hn ?_
      rw [← (Prod.mk.inj hk).2]
      exact h.valid r hr
    have hv : isValidNumber (some n) = false := by
      rw [← Bool.not_eq_true, isValidNumber_iff]
      exact hn
    simp only [hv, Bool.not_false, if_true, habs]
    refine ⟨h, ?_⟩
    rw [if_neg]
    rintro ⟨h1, h2⟩
    exact h1 h2.symm

/-- One operation on the table is the same operation on the map. -/
theorem applyOp_refines (op : CallerOp) {db : Database} (h : Keyed db) :
    Keyed (applyOp db op).2 ∧
      (applyOp db op).1 = ((callerMap db).apply op).1 ∧
      callerMap (applyOp db op).2 = ((callerMap db).apply op).2 := by
  cases op with
  | add user number name =>
    cases number with
    | none => exact ⟨h, rfl, rfl⟩
    | some n =>
      cases name with
      | none => exact ⟨h, rfl, rfl⟩
      | some v =>
        by_cases hn : DigitString n
        · obtain ⟨hrc, hk, hm⟩ := addCaller_refines user n v h hn
          refine ⟨hk, ?_, ?_⟩
          · rw [CallerMap.apply, if_pos hn]; exact hrc
          · rw [CallerMap.apply, if_pos hn]; exact hm
        · have hv : isValidNumber (some n) = false := by
            rw [← Bool.not_eq_true, isValidNumber_iff]
            exact hn
          simp only [applyOp, dbhandlerAddCaller, hv, CallerMap.apply, if_neg hn]
          exact ⟨h, rfl, rfl⟩
  | remove user number name =>
    cases number with
    | none => exact ⟨h, rfl, rfl⟩
    | some n =>
      obtain ⟨hk, hm⟩ := removeCaller_refines user n name h
      refine ⟨hk, ?_, hm⟩
      by_cases hn : DigitString n
      · simp [applyOp, dbhandlerRemoveCaller, CallerMap.apply, (isValidNumber_iff n).2 hn, hn]
      · have hv : isValidNumber (some n) = false := by
          rw [← Bool.not_eq_true, isValidNumber_iff]
          exact hn
        simp [applyOp, dbhandlerRemoveCaller, CallerMap.apply, hv, hn]

theorem runOps_refines (ops : List CallerOp) {db : Database} (h : Keyed db) :
    Keyed (runOps applyOp db ops).2 ∧
      (runOps applyOp db ops).1 = (runOps CallerMap.apply (callerMap db) ops).1 ∧
      callerMap (runOps applyOp db ops).2 = (runOps CallerMap.apply (callerMap db) ops).2 := by
  induction ops generalizing db with
  | nil => exact ⟨h, rfl, rfl⟩
  | cons op ops ih =>
    obtain ⟨hk, hrc, hm⟩ := applyOp_refines op h
    obtain ⟨ik, irc, im⟩ := ih hk
    simp only [runOps]
    rw [← hrc, ← hm]
    exact ⟨ik, by rw [irc], im⟩

theorem filter_key_length_le_one {rows : List CallerRow} (h : UniqueKeys CallerRow.key rows)
    (k : Int × CStr) : (rows.filter fun r => r.key = k).length ≤ 1 := by
  have hnd : ((rows.filter fun r => r.key = k).map CallerRow.key).Nodup := unique_filter _ h
  have hrep : (rows.filter fun r => r.key = k).map CallerRow.key =
      List.replicate (rows.filter fun r => r.key = k).length k := by
    rw [List.eq_replicate_iff, List.length_map]
    refine ⟨rfl, fun b hb => ?_⟩
    obtain ⟨r, hr, rfl⟩ := List.mem_map.1 hb
    simpa using (List.mem_filter.1 hr).2
  rw [hrep, List.nodup_replicate] at hnd
  exact hnd

theorem getCaller_eq {db : Database} (h : Keyed db) (user : Int) (number : Option CStr) :
    dbhandlerGetCaller user number db =
      number.bind fun n => (callerMap db (user, n)).map fun name => name.take 255 := by
  cases number with
  | none => rfl
  | some n =>
    simp only [dbhandlerGetCaller, Option.bind_some]
    by_cases hv : isValidNumber (some n) = true
    · simp only [hv, Bool.not_true, Bool.false_eq_true, if_false]
      rfl
    · have habs : callerMap db (user, n) = none := by
        refine toMap_eq_none.2 fun r hr hk => hv ?_
        rw [isValidNumber_iff, ← (Prod.mk.inj hk).2]
        exact h.valid r hr
      simp [hv, habs]

theorem getCallers_numbers_nodup {db : Database} (h : Keyed db) (like : CStr → CStr → Bool)
    (user : Int) : ((dbhandlerGetCallers like user none db).map Prod.fst).Nodup := by
  simp only [dbhandlerGetCallers, List.map_reverse, List.map_map, List.nodup_reverse]
  have hkeys := unique_filter (fun r : CallerRow => r.clientid = user) h.unique
  have hkey : ∀ r ∈ db.cicaller.filter (fun r => r.clientid = user),
      r.key = (user, r.number) := by
    intro r hr
    rw [CallerRow.key, of_decide_eq_true (List.mem_filter.1 hr).2]
  rw [UniqueKeys, List.map_congr_left hkey] at hkeys
  apply List.Nodup.of_map (fun n => (user, n))
  rw [List.map_map]
  exact hkeys

theorem mem_getCallers {db : Database} (h : Keyed db) (like : CStr → CStr → Bool) (user : Int)
    (number name : CStr) : (number, name) ∈ dbhandlerGetCallers like user none db ↔
      callerMap db (user, number) = some name := by
  rw [callerMap, toMap_eq_some h.unique]
  simp only [dbhandlerGetCallers, List.mem_reverse, List.mem_map, List.mem_filter,
    decide_eq_true_eq, Prod.mk.injEq, CallerRow.key, and_assoc]

/-- From an empty caller table on, every sequence of operations returns the codes of the
map and leaves its table, and both reads answer from the map. -/
theorem callerTable_refines (calls : List CIDataSet) (changes : ℕ) (ops : List CallerOp) :
    let db := (runOps applyOp ⟨calls, [], changes⟩ ops).2
    let m := (runOps CallerMap.apply (fun _ => none) ops).2
    (runOps applyOp ⟨calls, [], changes⟩ ops).1 =
        (runOps CallerMap.apply (fun _ => none) ops).1 ∧
      (∀ k, (db.cicaller.filter fun r => r.key = k).length ≤ 1) ∧
      callerMap db = m ∧
      (∀ user number, dbhandlerGetCaller user number db =
        number.bind fun n => (m (user, n)).map fun name => name.take 255) ∧
      ∀ like user, ((dbhandlerGetCallers like user none db).map Prod.fst).Nodup ∧
        ∀ number name, (number, name) ∈ dbhandlerGetCallers like user none db ↔
          m (user, number) = some name := by
  have hempty : Keyed ⟨calls, [], changes⟩ := ⟨List.nodup_nil, fun r hr => by cases hr⟩
  obtain ⟨hk, hrc, hm⟩ := runOps_refines ops hempty
  refine ⟨hrc, filter_key_length_le_one hk.unique, hm, ?_, ?_⟩
  · intro user number
    rw [getCaller_eq hk, hm]
    rfl
  · intro like user
    refine ⟨getCallers_numbers_nodup hk like user, fun number name => ?_⟩
    rw [mem_getCallers hk, hm]
    rfl

end Fritz2ci
