import Fritz2ci.Proofs.CallPages
import Fritz2ci.Proofs.CallTimes
import Fritz2ci.Proofs.DataSet

/-! From the notification to the call list: through the strings of the data set, the columns of
the row and back into strings, every RING whose moment has room in its column is listed as it
was stored. -/

namespace Fritz2ci

open Calendar CString CTime

/-- A RING of a day of the calendar with what the handler found around it, in a time zone and
with the area codes of a file. Its strings have room in their fields and its moment in an `int`. -/
structure LoggedRing (z : Zone) (ac : AreaCodes) (file : Option (List UInt8)) where
  env : Surroundings
  cmsg : CIFritzCallMsg
  areas : env.areaCodes = ac ∧ env.areaFile = file
  ring : cmsg.msgtype = .ring
  datetime : cmsg.datetime.Valid
  year : 69 ≤ cmsg.datetime.year ∧ cmsg.datetime.year ≤ 168
  early : cmsg.datetime.clock < 2 ^ 31 + z.offset
  fits : (filled env cmsg).Fits
  name : ∀ name, env.lookup (filled env cmsg).set = some name → name.length < 256

section

variable {z : Zone} {ac : AreaCodes} {file : Option (List UInt8)}

def LoggedRing.set (r : LoggedRing z ac file) : CIDataSet := ringSet r.env r.cmsg

def LoggedRing.row (r : LoggedRing z ac file) : CallRow where
  number := r.set .cidsNumberComplete
  name := r.set .cidsName
  timestamp := r.cmsg.datetime.clock - z.offset
  msn := r.set .cidsMSN
  msnAlias := r.set .cidsAlias
  service := r.set .cidsService
  fix := r.set .cidsFix

theorem LoggedRing.timestamp_bounds (r : LoggedRing z ac file) :
    -2 ^ 31 ≤ r.row.timestamp ∧ r.row.timestamp < 2 ^ 31 := by
  have hlow := (mktime_bounds z r.datetime r.year).1
  rw [mktime_brokenDown z (month_lt r.datetime.date)] at hlow
  have hearly := r.early
  exact ⟨hlow, by change r.cmsg.datetime.clock - z.offset < 2 ^ 31; omega⟩

theorem LoggedRing.bindRow_eq (r : LoggedRing z ac file) : bindRow z r.set = some r.row := by
  have hyear := r.year
  have hparse := parseDatetime_format z r.datetime (by omega)
  have hcolumn : toInt (r.cmsg.datetime.clock - z.offset) = r.row.timestamp :=
    toInt_eq_self r.timestamp_bounds
  rw [bindRow, LoggedRing.set, ringSet_date r.env r.ring, ringSet_time r.env r.ring, hparse,
    Option.map_some, toInt_toGulong, mktime_brokenDown z (month_lt r.datetime.date), hcolumn]
  rfl

theorem strlcpy_of_lt {s : CStr} {size : ℕ} (h : s.length < size) : strlcpy s size = s :=
  List.take_of_length_le (by omega)

theorem LoggedRing.length_lt (r : LoggedRing z ac file) (f : CIField) :
    (r.set f).length < f.size := by
  by_cases hf : f = .cidsName
  · subst hf
    unfold LoggedRing.set ringSet
    cases hl : r.env.lookup (filled r.env r.cmsg).set with
    | none => exact r.fits.length_lt .cidsName
    | some name =>
      dsimp only
      rw [Function.update_self]
      exact r.name name hl
  · rw [LoggedRing.set, ringSet_of_ne r.env r.cmsg hf]
    exact r.fits.length_lt f

def CIField.isArea (f : CIField) : Bool := f = .cidsNumber || f = .cidsArea || f = .cidsAreaCode

/-- The first loop reads back all but the fields of the area. -/
theorem LoggedRing.readRow_eq (r : LoggedRing z ac file) :
    readRow z r.row = fun f => if f.isArea then [] else r.set f := by
  have htime : toTime (toGulong r.row.timestamp) = r.cmsg.datetime.clock - z.offset :=
    toTime_toGulong (by have := r.timestamp_bounds; omega)
  have hlocal := localtime_clock z r.datetime
  funext f
  cases f with
  | cidsDate =>
    rw [readRow, htime, hlocal, strftime_of_lt (by simp)]
    exact (ringSet_date r.env r.ring).symm
  | cidsTime =>
    rw [readRow, htime, hlocal, strftime_of_lt (by simp)]
    exact (ringSet_time r.env r.ring).symm
  | cidsNumber => rfl
  | cidsArea => rfl
  | cidsAreaCode => rfl
  | cidsNumberComplete => exact strlcpy_of_lt (r.length_lt .cidsNumberComplete)
  | cidsName => exact strlcpy_of_lt (r.length_lt .cidsName)
  | cidsMSN => exact strlcpy_of_lt (r.length_lt .cidsMSN)
  | cidsAlias => exact strlcpy_of_lt (r.length_lt .cidsAlias)
  | cidsService => exact strlcpy_of_lt (r.length_lt .cidsService)
  | cidsFix => exact strlcpy_of_lt (r.length_lt .cidsFix)

theorem foldl_update_field {f : CIField} {d d' : CIDataSet} (h : d f = d' f)
    (writes : List (AreaBuffer × CStr)) :
    writes.foldl (fun d w => Function.update d w.1.field w.2) d f =
      writes.foldl (fun d w => Function.update d w.1.field w.2) d' f := by
  induction writes generalizing d d' with
  | nil => exact h
  | cons w writes ih =>
    refine ih ?_
    dsimp only
    by_cases hf : f = w.1.field
    · rw [hf, Function.update_self, Function.update_self]
    · rw [Function.update_of_ne hf, Function.update_of_ne hf, h]

theorem ringSet_number (env : Surroundings) {cmsg : CIFritzCallMsg} (h : cmsg.msgtype = .ring) :
    ringSet env cmsg .cidsNumberComplete = cmsg.callingNumber := by
  rw [ringSet_of_ne env cmsg (by simp)]
  simp only [filled, h, fillRingIso, fillRing, fillArea]
  rw [strcpy_set_of_ne _ (by simp), strcpy_set_of_ne _ (by simp), fillAlias_of_ne _ _ (by simp),
    strcpy_set_of_ne _ (by simp), strcpyAll_set,
    foldl_update_area (by rintro (_ | _ | _) <;> simp [AreaBuffer.field]),
    strcpy_set_of_ne _ (by simp), strcpy_set_of_ne _ (by simp),
    strcpy_set_of_ne _ (by simp), strcpy_set_self]

theorem ringSet_area (env : Surroundings) {cmsg : CIFritzCallMsg} (h : cmsg.msgtype = .ring)
    {f : CIField} (hf : f.isArea) : ringSet env cmsg f =
      (ciGetAreaCode env.areaCodes env.areaFile cmsg.callingNumber).2.foldl
        (fun d w => Function.update d w.1.field w.2) CIDataSet.zero f := by
  have hne : f ≠ .cidsName ∧ f ≠ .cidsDate ∧ f ≠ .cidsTime ∧ f ≠ .cidsAlias ∧
      f ≠ .cidsNumberComplete ∧ f ≠ .cidsMSN ∧ f ≠ .cidsService ∧ f ≠ .cidsFix := by
    cases f <;> simp [CIField.isArea] at hf ⊢
  obtain ⟨hname, hdate, htime, halias, hnumber, hmsn, hservice, hfix⟩ := hne
  rw [ringSet_of_ne env cmsg hname]
  simp only [filled, h, fillRingIso, fillRing, fillArea]
  rw [strcpy_set_of_ne _ hdate, strcpy_set_of_ne _ hdate, fillAlias_of_ne _ _ halias,
    strcpy_set_of_ne _ hname, strcpyAll_set]
  rw [strcpy_set_of_ne _ (by simp), strcpy_set_of_ne _ (by simp), strcpy_set_of_ne _ (by simp),
    strcpy_set_self]
  refine foldl_update_field ?_ _
  rw [strcpy_set_of_ne _ hfix, strcpy_set_of_ne _ hservice, strcpy_set_of_ne _ hmsn,
    strcpy_set_of_ne _ hnumber, strcpy_set_of_ne _ htime]
  rfl

/-- An entry of the list: the stored data set under the name from the book of the user, with no
area for a number that is empty or has other characters than digits. -/
def logEntry (name : Option CStr) (set : CIDataSet) (f : CIField) : CStr :=
  if f = .cidsName then name.getD (set f)
  else if f.isArea ∧ ¬ isValidNumber (some (set .cidsNumberComplete)) then [] else set f

theorem getCaller_invalid {number : CStr} (h : ¬ isValidNumber (some number)) (user : ℤ)
    (db : Database) : dbhandlerGetCaller user (some number) db = none := by
  simp [dbhandlerGetCaller, h]

theorem completeCall_valid (env : Surroundings) (caller : Option CStr) {data d : CIDataSet}
    (hvalid : isValidNumber (some (data .cidsNumberComplete)))
    (hd : (ciGetAreaCode env.areaCodes env.areaFile (data .cidsNumberComplete)).2.foldl
      (fun d w => Function.update d w.1.field w.2) data = d) :
    completeCall env caller data = caller.elim d (Function.update d .cidsName) := by
  rw [completeCall, if_pos hvalid, hd]
  cases caller <;> rfl

/-- The area codes write into the blank fields what they wrote before the call was stored. -/
theorem LoggedRing.area_eq (r : LoggedRing z ac file) :
    (ciGetAreaCode ac file (r.set .cidsNumberComplete)).2.foldl
      (fun d w => Function.update d w.1.field w.2) (fun f => if f.isArea then [] else r.set f) =
        r.set := by
  have hnumber : r.set .cidsNumberComplete = r.cmsg.callingNumber := ringSet_number r.env r.ring
  funext f
  by_cases hf : f.isArea
  · rw [hnumber, LoggedRing.set, ringSet_area r.env r.ring hf, r.areas.1, r.areas.2]
    exact foldl_update_field (if_pos hf) _
  · rw [foldl_update_area]
    · rw [if_neg hf]
    · rintro b rfl
      exact hf (by cases b <;> rfl)

theorem LoggedRing.readCall_eq (r : LoggedRing z ac file) {env : Surroundings}
    (hac : env.areaCodes = ac) (hfile : env.areaFile = file) {name : Option CStr}
    (hname : ¬ isValidNumber (some (r.set .cidsNumberComplete)) → name = none) :
    readCall z env name r.row = logEntry name r.set := by
  subst hac hfile
  have hread : readRow z r.row .cidsNumberComplete = r.set .cidsNumberComplete := by
    rw [r.readRow_eq]
    rfl
  rw [readCall]
  by_cases hvalid : isValidNumber (some (r.set .cidsNumberComplete))
  · have harea := r.area_eq
    rw [← r.readRow_eq, ← hread] at harea
    rw [completeCall_valid env name (hread ▸ hvalid) harea]
    funext f
    by_cases hf : f = .cidsName
    · subst hf
      cases name <;> simp [logEntry]
    · rw [logEntry, if_neg hf, if_neg fun h => h.2 hvalid]
      cases name with
      | none => rfl
      | some name => exact Function.update_of_ne hf _ _
  · rw [completeCall, hread, if_neg hvalid, hname hvalid, r.readRow_eq]
    funext f
    by_cases hf : f = .cidsName
    · subst hf
      rfl
    · rw [logEntry, if_neg hf]
      by_cases harea : f.isArea
      · rw [if_pos harea, if_pos ⟨harea, hvalid⟩]
      · rw [if_neg harea, if_neg fun h => harea h.1]

end

/-- The calls a service has stored since its table was empty. -/
def logged {z : Zone} {ac : AreaCodes} {file : Option (List UInt8)}
    (rings : List (LoggedRing z ac file)) : List (ℤ × LoggedRing z ac file) :=
  rings.mapIdx fun i r => ((i : ℤ) + 1, r)

theorem mapM_map {α β γ : Type} {f : β → Option γ} {g : α → β} {h : α → γ}
    (hfg : ∀ x, f (g x) = some (h x)) (xs : List α) : (xs.map g).mapM f = some (xs.map h) := by
  induction xs with
  | nil => rfl
  | cons x xs ih => rw [List.map_cons, List.mapM_cons, hfg, ih]; rfl

theorem cidataRows_logged {z : Zone} {ac : AreaCodes} {file : Option (List UInt8)}
    (rings : List (LoggedRing z ac file)) :
    cidataRows z (rings.map LoggedRing.set) =
      some ((logged rings).map fun r => (r.1, r.2.row)) := by
  rw [cidataRows, mapM_map LoggedRing.bindRow_eq, Option.map_some, logged]
  refine congrArg some (List.ext_getElem (by simp) fun i hi hi' => ?_)
  simp

theorem exists_perm_of_map {α β : Type} {f : α → β} {xs : List α} {l : List β}
    (h : l.Perm (xs.map f)) : ∃ ys : List α, ys.Perm xs ∧ l = ys.map f := by
  have himages : List.Forall₂ (fun b a => b = f a) (xs.map f) xs :=
    List.forall₂_map_left_iff.2 (List.forall₂_same.2 fun _ _ => rfl)
  obtain ⟨ys, hl, hys⟩ := List.perm_comp_forall₂ h himages
  exact ⟨ys, hys, List.forall₂_eq_eq_eq ▸ List.forall₂_map_right_iff.2 hl⟩

theorem sqlLimit_map {α β : Type} (f : α → β) (offset count : ℤ) (xs : List α) :
    sqlLimit offset count (xs.map f) = (sqlLimit offset count xs).map f := by
  unfold sqlLimit
  split_ifs <;> simp [List.map_drop, List.map_take]

def berlinCall : LoggedRing Zone.utc berlin.areaCodes berlin.areaFile where
  env := berlin
  cmsg := berlinRing
  areas := ⟨rfl, rfl⟩
  ring := rfl
  datetime := ⟨by decide, by decide, by decide, by decide⟩
  year := by decide
  early := by decide
  fits := by decide
  name := fun _ h => by cases h

def berlinEnv : RequestEnv := { plainEnv with surroundings := berlin }

example : logEntry none berlinCall.set .cidsArea = ascii "Berlin" := by decide

end Fritz2ci
