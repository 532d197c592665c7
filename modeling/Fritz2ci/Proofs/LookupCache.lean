import Fritz2ci.Lib.KeyedTable
import Fritz2ci.Lib.Machine
import Fritz2ci.Lib.Memo
import Fritz2ci.Spec.Lookup

/-! The table `callercache`, which no schema keeps free of duplicates, is a memo from
numbers to names: the cached and the online path of a lookup answer alike. -/

namespace Fritz2ci

open CString KeyedTable

/-- A finished call of `lookup_get_caller_data` as its caller and the network see it. -/
structure LookupCall where
  number : CStr
  rc : ℕ
  name : CStr
  requested : Bool

/-- The cache, and the calls made since it was empty. -/
structure LookupRun where
  callercache : List CICaller
  calls : List LookupCall

def LookupRun.start : LookupRun := ⟨[], []⟩

structure LookupEvent where
  fuel : ℕ
  web : Web
  cidata : CIDataSet

/-- The call, refused where it has no defined end. -/
def lookupStep (s : LookupRun) (e : LookupEvent) : Option LookupRun :=
  match lookupGetCallerData e.fuel e.web s.callercache e.cidata with
  | .error _ => none
  | .ok a => some
      { callercache := a.callercache
        calls := s.calls ++
          [⟨e.cidata .cidsNumberComplete, a.rc, a.cidata .cidsName, a.requested⟩] }

def CICaller.callerName (c : CICaller) : CStr := c.fields .name

/-- What the rows of the cache are for. -/
def cacheMemo (callercache : List CICaller) : CStr → Option CStr :=
  toMap CICaller.numberComplete CICaller.callerName callercache

def LookupCall.memoCall (c : LookupCall) : Memo.Call CStr CStr :=
  ⟨c.number, if c.rc = 0 then some c.name else none, c.requested⟩

theorem cidbFindCaller_none {callercache : List CICaller} {caller : CICaller} :
    cidbFindCaller callercache caller = none ↔
      ∀ r ∈ callercache, r.numberComplete ≠ caller.numberComplete := by
  simp [cidbFindCaller]

theorem cidbFindCaller_name {callercache : List CICaller} {caller found : CICaller}
    (h : cidbFindCaller callercache caller = some found) :
    cacheMemo callercache caller.numberComplete = some (found.fields .name) := by
  obtain ⟨r, hr, rfl⟩ := Option.map_eq_some_iff.1 h
  rw [cacheMemo, toMap, hr]
  rfl

theorem cirlwGetCaller_number {fuel : ℕ} {web : Web} {sourceid : ℕ} {caller : CICaller}
    {answer : WebAnswer} (h : cirlwGetCaller fuel web sourceid caller = .ok answer) :
    answer.caller.numberComplete = caller.numberComplete := by
  unfold cirlwGetCaller at h
  split at h
  · cases h; rfl
  split at h
  · cases h
  · cases h; rfl
  split at h
  · cases h; rfl
  split at h
  · cases h; rfl
  · simp only at h
    split at h <;> cases h
    rfl

/-- The ends of a lookup: a row of the cache, a success on the web that becomes a row, and
a failure that changes nothing. -/
theorem lookupGetCallerData_cases {fuel : ℕ} {web : Web} {callercache : List CICaller}
    {cidata : CIDataSet} {a : LookupAnswer}
    (h : lookupGetCallerData fuel web callercache cidata = .ok a) :
    (∃ found,
      cidbFindCaller callercache (CICaller.ofNumber (cidata .cidsNumberComplete)) = some found ∧
      a = ⟨0, Function.update cidata .cidsName (found.fields .name), callercache, false⟩) ∨
    (cidbFindCaller callercache (CICaller.ofNumber (cidata .cidsNumberComplete)) = none ∧
      ∃ answer, cirlwGetCaller fuel web web.lookupSourceId
        (CICaller.ofNumber (cidata .cidsNumberComplete)) = .ok answer ∧
      ((answer.rc = 0 ∧ a = ⟨0, Function.update cidata .cidsName (answer.caller.fields .name),
          cidbInsertCaller callercache answer.caller, answer.requested⟩) ∨
        (answer.rc ≠ 0 ∧ a = ⟨1, cidata, callercache, answer.requested⟩))) := by
  unfold lookupGetCallerData at h
  cases hfind : cidbFindCaller callercache (CICaller.ofNumber (cidata .cidsNumberComplete)) with
  | some found =>
    simp only [hfind] at h
    exact Or.inl ⟨found, rfl, (Except.ok.inj h).symm⟩
  | none =>
    simp only [hfind] at h
    cases hweb : cirlwGetCaller fuel web web.lookupSourceId
        (CICaller.ofNumber (cidata .cidsNumberComplete)) with
    | error f => simp [hweb] at h
    | ok answer =>
      simp only [hweb] at h
      refine Or.inr ⟨rfl, answer, rfl, ?_⟩
      split_ifs at h with hrc
      · exact Or.inl ⟨hrc, (Except.ok.inj h).symm⟩
      · exact Or.inr ⟨hrc, (Except.ok.inj h).symm⟩

/-- The invariant of the lookups: unique numbers, and the cache records all answers. -/
structure Memoised (s : LookupRun) : Prop where
  unique : UniqueKeys CICaller.numberComplete s.callercache
  recorded : Memo.Recorded (cacheMemo s.callercache) (s.calls.map LookupCall.memoCall)

theorem memoised_start : Memoised LookupRun.start :=
  ⟨List.nodup_nil, Memo.recorded_nil _⟩

theorem lookup_memoStep {fuel : ℕ} {web : Web} {callercache : List CICaller}
    {cidata : CIDataSet} {a : LookupAnswer}
    (hu : UniqueKeys CICaller.numberComplete callercache)
    (h : lookupGetCallerData fuel web callercache cidata = .ok a) :
    UniqueKeys CICaller.numberComplete a.callercache ∧
      Memo.Step (cacheMemo callercache)
        (LookupCall.memoCall ⟨cidata .cidsNumberComplete, a.rc, a.cidata .cidsName, a.requested⟩)
        (cacheMemo a.callercache) := by
  obtain ⟨found, hfind, rfl⟩ | ⟨hfind, answer, hweb, hend⟩ := lookupGetCallerData_cases h
  · have hname := cidbFindCaller_name hfind
    refine ⟨hu, fun v hv => ?_, ?_⟩
    · obtain rfl : found.fields .name = v := Option.some.inj (hname.symm.trans hv)
      simp [LookupCall.memoCall]
    · simp only [Memo.fill, LookupCall.memoCall, if_true, Function.update_self]
      exact (Function.update_eq_self_iff.2 hname.symm).symm
  · have habsent := cidbFindCaller_none.1 hfind
    have hmiss : cacheMemo callercache (cidata .cidsNumberComplete) = none :=
      toMap_eq_none.2 habsent
    rcases hend with ⟨-, rfl⟩ | ⟨-, rfl⟩
    · have hnumber := cirlwGetCaller_number hweb
      have habsent' : ∀ r ∈ callercache, r.numberComplete ≠ answer.caller.numberComplete :=
        hnumber ▸ habsent
      refine ⟨unique_snoc hu habsent', fun v hv => ?_, ?_⟩
      · exact absurd (hv.symm.trans hmiss) (by simp)
      · simp only [Memo.fill, LookupCall.memoCall, if_true, Function.update_self]
        rw [cacheMemo, cidbInsertCaller, toMap_snoc _ _ habsent', hnumber]
        rfl
    · refine ⟨hu, fun v hv => ?_, ?_⟩
      · exact absurd (hv.symm.trans hmiss) (by simp)
      · simp [Memo.fill, LookupCall.memoCall]

theorem memoised_step {s s' : LookupRun} {e : LookupEvent} (hs : Memoised s)
    (h : lookupStep s e = some s') : Memoised s' := by
  unfold lookupStep at h
  cases ha : lookupGetCallerData e.fuel e.web s.callercache e.cidata with
  | error f => simp [ha] at h
  | ok a =>
    simp only [ha, Option.some.injEq] at h
    subst h
    obtain ⟨hunique, hstep⟩ := lookup_memoStep hs.unique ha
    refine ⟨hunique, ?_⟩
    rw [List.map_append]
    exact Memo.recorded_snoc hs.recorded hstep

/-- Of two calls for a number, the later one repeats the success of the earlier one with
the same name and without a request. -/
def Repeats (earlier later : LookupCall) : Prop :=
  later.number = earlier.number → earlier.rc = 0 →
    later.rc = 0 ∧ later.name = earlier.name ∧ later.requested = false

theorem repeats_of_agree {earlier later : LookupCall}
    (h : Memo.Agree earlier.memoCall later.memoCall) : Repeats earlier later := by
  intro hnumber hrc
  obtain ⟨hanswer, hasked⟩ := h hnumber earlier.name (by simp [LookupCall.memoCall, hrc])
  have hlater : later.rc = 0 := by
    by_contra hne
    simp [LookupCall.memoCall, hne] at hanswer
  simp only [LookupCall.memoCall, hlater, if_true, Option.some.injEq] at hanswer
  exact ⟨hlater, hanswer, hasked⟩

/-- A call for the number of an earlier success ends, and repeats it. -/
def Answers (s : LookupRun) (earlier : LookupCall) : Prop :=
  earlier.rc = 0 → ∀ e : LookupEvent, e.cidata .cidsNumberComplete = earlier.number →
    lookupStep s e =
      some ⟨s.callercache, s.calls ++ [⟨earlier.number, 0, earlier.name, false⟩]⟩

theorem answers_of_recorded {s : LookupRun} (hs : Memoised s) {c : LookupCall} (hc : c ∈ s.calls) :
    Answers s c := by
  intro hrc e hnumber
  have hheld : cacheMemo s.callercache c.number = some c.name :=
    hs.recorded.held c.memoCall (List.mem_map_of_mem hc) c.name (by simp [LookupCall.memoCall, hrc])
  cases hfind : cidbFindCaller s.callercache (CICaller.ofNumber c.number) with
  | none =>
    have habsent : cacheMemo s.callercache c.number = none :=
      toMap_eq_none.2 (cidbFindCaller_none.1 hfind)
    exact absurd (hheld.symm.trans habsent) (by simp)
  | some found =>
    have hname : found.fields .name = c.name :=
      Option.some.inj ((cidbFindCaller_name hfind).symm.trans hheld)
    simp only [lookupStep, lookupGetCallerData, hnumber, hfind, hname, Function.update_self]

/-- From an empty cache on, whatever the web answers, a number has at most one row, and calls
for it end and repeat the first success. -/
theorem lookups_memoised (es : List LookupEvent) :
    Machine.Always lookupStep
      (fun s => UniqueKeys CICaller.numberComplete s.callercache ∧ s.calls.Pairwise Repeats ∧
        ∀ c ∈ s.calls, Answers s c)
      LookupRun.start es := by
  intro pre _ t ht
  have hinv : Memoised t :=
    Machine.run_preserves (fun _ _ _ => memoised_step) pre _ t memoised_start ht
  refine ⟨hinv.unique, ?_, fun c hc => answers_of_recorded hinv hc⟩
  exact (List.pairwise_map.1 hinv.recorded.agree).imp repeats_of_agree

end Fritz2ci
