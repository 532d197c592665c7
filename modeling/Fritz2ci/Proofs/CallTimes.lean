import Fritz2ci.Spec.CallRows

/-! The time of a call through the database. `parse_datetime` reads back what
`handle_fritz_message` writes, and the conversions of the seconds since the epoch lose
nothing but what `int` has no room for: from 2^31 seconds on a call is read back with a date
136 years earlier. -/

namespace Fritz2ci

open Calendar CString CTime

theorem toInt_toGulong (n : ℤ) : toInt (toGulong n) = toInt n := by
  simp only [toInt, toGulong, Int.bmod_def]
  omega

theorem toTime_toGulong {n : ℤ} (h : -2 ^ 63 ≤ n ∧ n < 2 ^ 63) : toTime (toGulong n) = n := by
  simp only [toTime, toGulong, Int.bmod_def]
  omega

theorem toInt_bounds (n : ℤ) : -2 ^ 31 ≤ toInt n ∧ toInt n < 2 ^ 31 := by
  simp only [toInt, Int.bmod_def]
  omega

theorem toInt_eq_self {n : ℤ} (h : -2 ^ 31 ≤ n ∧ n < 2 ^ 31) : toInt n = n := by
  simp only [toInt, Int.bmod_def]
  omega

theorem atoi_digits {s : CStr} (hs : ∀ b ∈ s, isDigit b) (h : decimal s < 2 ^ 31) :
    atoi s = decimal s := by
  rw [atoi, strtol_digits hs (by omega), toInt_eq_self (by omega)]

theorem copyUntil_append {sep : UInt8} {tok : CStr} (h : sep ∉ tok) (hl : tok.length < 64)
    (rest : CStr) : copyUntil sep (tok ++ sep :: rest) = some (tok, rest) := by
  have htake : (tok ++ sep :: rest).takeWhile (· ≠ sep) = tok := by
    rw [List.takeWhile_append_of_pos (by simpa using fun b hb => ne_of_mem_of_not_mem hb h)]
    simp
  have hroom : tok.length < (tok ++ sep :: rest).length ∧ tok.length < 64 := by
    rw [List.length_append, List.length_cons]
    omega
  have hdrop : (tok ++ sep :: rest).drop (tok.length + 1) = rest := by simp
  simp only [copyUntil, htake, if_pos hroom, hdrop]

theorem splitNumbers_append {sep : UInt8} {a b c : CStr} (hsep : isDigit sep = false)
    (ha : ∀ d ∈ a, isDigit d) (hb : ∀ d ∈ b, isDigit d)
    (hla : a.length < 64) (hlb : b.length < 64) (hlc : c.length < 64) :
    splitNumbers sep (a ++ sep :: (b ++ sep :: c)) = some (atoi a, atoi b, atoi c) := by
  simp [splitNumbers, copyUntil_append (not_mem_of_isDigit ha hsep) hla,
    copyUntil_append (not_mem_of_isDigit hb hsep) hlb, hlc]

theorem atoi_twoDigits {n : ℕ} (h : n < 100) : atoi (twoDigits n) = n := by
  rw [atoi_digits (isDigit_twoDigits n) (by rw [decimal_twoDigits h]; omega), decimal_twoDigits h]

theorem atoi_fourDigits {n : ℕ} (h : n < 10000) : atoi (fourDigits n) = n := by
  rw [atoi_digits (isDigit_fourDigits n) (by rw [decimal_fourDigits h]; omega),
    decimal_fourDigits h]

theorem parseDate_format {t : Tm} (h : t.Valid) (hy : 1900 + t.year < 10000) (u : BrokenDown) :
    parseDate (some (formatIsoDate t)) u =
      some { u with year := t.year, mon := t.mon, mday := t.mday } := by
  have hmon := month_lt h.date
  have hday := day_le h.date
  simp only [Tm.date] at hmon hday
  rw [formatIsoDate_eq, parseDate, splitNumbers_append rfl (isDigit_fourDigits _)
    (isDigit_twoDigits _) (by simp) (by simp) (by simp), atoi_fourDigits hy,
    atoi_twoDigits (by omega), atoi_twoDigits (by omega)]
  simp only [Option.bind_eq_bind, Option.bind_some, subInt]
  rw [if_pos (by omega), if_pos (by omega)]
  simp

theorem parseTime_format {t : Tm} (h : t.Valid) (u : BrokenDown) :
    parseTime (some (formatTime t)) u =
      some { u with hour := t.hour, min := t.min, sec := t.sec } := by
  have hhour := h.hour
  have hmin := h.min
  have hsec := h.sec
  rw [formatTime_eq, parseTime, splitNumbers_append rfl (isDigit_twoDigits _)
    (isDigit_twoDigits _) (by simp) (by simp) (by simp), atoi_twoDigits (by omega),
    atoi_twoDigits (by omega), atoi_twoDigits (by omega), Option.map_some]

theorem parseDatetime_format (z : Zone) {t : Tm} (h : t.Valid) (hy : 1900 + t.year < 10000) :
    parseDatetime z (some (formatIsoDate t)) (some (formatTime t)) =
      some (toGulong (mktime z t.brokenDown)) := by
  rw [parseDatetime, parseDate_format h hy, Option.bind_some, parseTime_format h]
  rfl

theorem area_field_ne (b : AreaBuffer) : b.field ≠ .cidsDate ∧ b.field ≠ .cidsTime := by
  cases b <;> simp [AreaBuffer.field]

theorem foldl_update_area {f : CIField} (hf : ∀ b : AreaBuffer, b.field ≠ f)
    (writes : List (AreaBuffer × CStr)) (d : CIDataSet) :
    writes.foldl (fun d w => Function.update d w.1.field w.2) d f = d f := by
  induction writes generalizing d with
  | nil => rfl
  | cons w writes ih =>
    rw [List.foldl_cons, ih, Function.update_of_ne (hf w.1).symm]

theorem strcpyAll_set (x : Fill) (writes : List (AreaBuffer × CStr)) :
    (strcpyAll x writes).set =
      writes.foldl (fun d w => Function.update d w.1.field w.2) x.set := by
  induction writes generalizing x with
  | nil => rfl
  | cons w writes ih => exact ih _

theorem completeCall_of_ne (env : Surroundings) (caller : Option CStr) (data : CIDataSet)
    {f : CIField} (hf : ∀ b : AreaBuffer, b.field ≠ f) (hname : f ≠ .cidsName) :
    completeCall env caller data f = data f := by
  unfold completeCall
  split_ifs
  · cases caller with
    | none => exact foldl_update_area hf _ _
    | some name => exact (Function.update_of_ne hname _ _).trans (foldl_update_area hf _ _)
  · rfl

theorem fillAlias_of_ne (env : Surroundings) (x : Fill) {f : CIField} (h : f ≠ .cidsAlias) :
    (fillAlias env x).set f = x.set f := by
  unfold fillAlias
  split
  · exact strcpy_set_of_ne x h _
  · rfl

/-- The reverse lookup puts in a name and nothing else. -/
theorem ringSet_of_ne (env : Surroundings) (cmsg : CIFritzCallMsg) {f : CIField}
    (h : f ≠ .cidsName) : ringSet env cmsg f = (filled env cmsg).set f := by
  cases hl : env.lookup (filled env cmsg).set with
  | none => simp only [ringSet, hl]
  | some name => simp only [ringSet, hl, Function.update_of_ne h]

theorem ringSet_date (env : Surroundings) {cmsg : CIFritzCallMsg} (h : cmsg.msgtype = .ring) :
    ringSet env cmsg .cidsDate = formatIsoDate cmsg.datetime := by
  rw [ringSet_of_ne env cmsg (by simp)]
  simp only [filled, h, fillRingIso]
  rw [strcpy_set_self, strftime_of_lt (by simp)]

theorem ringSet_time (env : Surroundings) {cmsg : CIFritzCallMsg} (h : cmsg.msgtype = .ring) :
    ringSet env cmsg .cidsTime = formatTime cmsg.datetime := by
  rw [ringSet_of_ne env cmsg (by simp)]
  simp only [filled, h, fillRingIso, fillRing, fillArea]
  rw [strcpy_set_of_ne _ (by simp), strcpy_set_of_ne _ (by simp), fillAlias_of_ne _ _ (by simp),
    strcpy_set_of_ne _ (by simp), strcpyAll_set, foldl_update_area fun b => (area_field_ne b).2,
    strcpy_set_of_ne _ (by simp), strcpy_set_of_ne _ (by simp), strcpy_set_of_ne _ (by simp),
    strcpy_set_of_ne _ (by simp), strcpy_set_self, strftime_of_lt (by simp)]

theorem readCall_times (z : Zone) (env : Surroundings) (caller : Option CStr) {row : CallRow}
    (h : -2 ^ 31 ≤ row.timestamp ∧ row.timestamp < 2 ^ 31) :
    readCall z env caller row .cidsDate = formatIsoDate (localtime z row.timestamp) ∧
      readCall z env caller row .cidsTime = formatTime (localtime z row.timestamp) := by
  unfold readCall
  rw [completeCall_of_ne env caller _ (fun b => (area_field_ne b).1) (by simp),
    completeCall_of_ne env caller _ (fun b => (area_field_ne b).2) (by simp)]
  have htime : toTime (toGulong row.timestamp) = row.timestamp := toTime_toGulong (by omega)
  simp only [readRow, htime]
  exact ⟨strftime_of_lt (by simp), strftime_of_lt (by simp)⟩

theorem localtime_column (z : Zone) {s : ℤ} (h : -2 ^ 31 ≤ s ∧ s < 2 ^ 31) :
    (localtime z s).Valid ∧ 1900 + (localtime z s).year < 10000 ∧
      mktime z (localtime z s).brokenDown = s := by
  have hstart : yearStart 1900 = -25567 := by decide
  have hend : yearStart 10000 = 2932897 := by decide
  have hz := z.withinWeek
  have hge : 86400 * yearStart 1900 ≤ s + z.offset := by omega
  have hyear := (localtime_year z (y := 10000) hge).2 (by omega)
  exact ⟨valid_localtime z hge, by omega, mktime_localtime z hge⟩

/-- The years that a notification can name lie within the first 2^32 seconds. -/
theorem mktime_bounds (z : Zone) {t : Tm} (h : t.Valid) (hy : 69 ≤ t.year ∧ t.year ≤ 168) :
    -2 ^ 31 ≤ mktime z t.brokenDown ∧ mktime z t.brokenDown < 2 ^ 32 := by
  have hstart : yearStart 1969 = -365 := by decide
  have hend : yearStart 2069 = 36160 := by decide
  have hz := z.withinWeek
  obtain ⟨hnonneg, hlt⟩ := timeOfDay_bounds h
  obtain ⟨hfrom, hbefore⟩ := daysOf_bounds h.date
  have hlo := yearStart_add_le (show 1969 ≤ t.date.year by simp only [Tm.date]; omega)
  have hhi := yearStart_add_le (show t.date.year + 1 ≤ 2069 by simp only [Tm.date]; omega)
  simp only [Tm.date] at hlo hhi
  rw [mktime_brokenDown z (month_lt h.date), Tm.clock]
  simp only [Tm.date] at *
  omega

/-- A data set as it is stored, read back with the strings of a time. -/
def ReadBackAs (z : Zone) (env : Surroundings) (caller : Option CStr) (set : CIDataSet)
    (t : Tm) : Prop :=
  ∃ row, bindRow z set = some row ∧
    readCall z env caller row .cidsDate = strftime 16 (formatIsoDate t) ∧
    readCall z env caller row .cidsTime = strftime 16 (formatTime t)

theorem bindRow_timestamp (z : Zone) {set : CIDataSet} {t : Tm} (h : t.Valid)
    (hy : 1900 + t.year < 10000) (hdate : set .cidsDate = formatIsoDate t)
    (htime : set .cidsTime = formatTime t) :
    ∃ row, bindRow z set = some row ∧ row.timestamp = toInt (mktime z t.brokenDown) := by
  rw [bindRow, hdate, htime, parseDatetime_format z h hy, Option.map_some]
  exact ⟨_, rfl, toInt_toGulong _⟩

/-- Equal strings are parsed to the same moment, so a time comes back exactly when the
conversion to `int` keeps its seconds. -/
theorem readBackAs_iff (z : Zone) (env : Surroundings) (caller : Option CStr)
    {set : CIDataSet} {t : Tm} (h : t.Valid) (hy : 69 ≤ t.year ∧ t.year ≤ 168)
    (hdate : set .cidsDate = formatIsoDate t) (htime : set .cidsTime = formatTime t) :
    ReadBackAs z env caller set t ↔ mktime z t.brokenDown < 2 ^ 31 := by
  obtain ⟨row, hrow, hstamp⟩ := bindRow_timestamp z h (by omega) hdate htime
  have hcolumn : -2 ^ 31 ≤ row.timestamp ∧ row.timestamp < 2 ^ 31 := hstamp ▸ toInt_bounds _
  obtain ⟨hreadDate, hreadTime⟩ := readCall_times z env caller hcolumn
  obtain ⟨hlo, hhi⟩ := mktime_bounds z h hy
  constructor
  · rintro ⟨row', hrow', hsameDate, hsameTime⟩
    obtain rfl : row = row' := Option.some.inj (hrow.symm.trans hrow')
    rw [strftime_of_lt (by simp), hreadDate] at hsameDate
    rw [strftime_of_lt (by simp), hreadTime] at hsameTime
    obtain ⟨hvalid, hyear, hmk⟩ := localtime_column z hcolumn
    have hparse := parseDatetime_format z hvalid hyear
    rw [hsameDate, hsameTime, parseDatetime_format z h (by omega), Option.some_inj, hmk] at hparse
    simp only [toGulong] at hparse
    omega
  · intro hlt
    have hkept : localtime z row.timestamp = t := by
      rw [hstamp, toInt_eq_self ⟨hlo, hlt⟩, localtime_mktime z h]
    rw [hkept] at hreadDate hreadTime
    exact ⟨row, hrow, by rw [hreadDate, strftime_of_lt (by simp)],
      by rw [hreadTime, strftime_of_lt (by simp)]⟩

/-- The call of a RING is read back at its date and time exactly when its moment is less
than 2^31 seconds after the epoch. -/
theorem callTime_kept_iff (z : Zone) (env env' : Surroundings) (caller : Option CStr)
    (cmsg : CIFritzCallMsg) (hring : cmsg.msgtype = .ring) (h : cmsg.datetime.Valid)
    (hy : 69 ≤ cmsg.datetime.year ∧ cmsg.datetime.year ≤ 168) :
    ReadBackAs z env' caller (ringSet env cmsg) cmsg.datetime ↔
      cmsg.datetime.clock < 2 ^ 31 + z.offset := by
  rw [readBackAs_iff z env' caller h hy (ringSet_date env hring) (ringSet_time env hring),
    mktime_brokenDown z (month_lt h.date)]
  omega

def noLists : Surroundings := ⟨ciInitAreaCodes, none, [], [], fun _ => none, true⟩

def ringAt (t : Tm) : CIFritzCallMsg :=
  { CIFritzCallMsg.zero with msgtype := .ring, datetime := t }

def january2013 : Tm := ⟨59, 5, 14, 21, 0, 113⟩

theorem ring2013_kept :
    january2013.clock < 2 ^ 31 + Zone.utc.offset ∧
      ReadBackAs Zone.utc noLists none (ringSet noLists (ringAt january2013))
        january2013 := by
  have hclock : january2013.clock < 2 ^ 31 + Zone.utc.offset := by decide
  exact ⟨hclock, (callTime_kept_iff Zone.utc noLists noLists none
    (ringAt january2013) rfl ⟨by decide, by decide, by decide, by decide⟩ (by decide)).2 hclock⟩

/-- 2038-01-19 03:14:08, which is read back as 1901-12-13 20:45:52. -/
theorem ring2038_lost : ¬ ∀ (z : Zone) (env env' : Surroundings) (caller : Option CStr)
    (cmsg : CIFritzCallMsg), cmsg.msgtype = .ring → cmsg.datetime.Valid →
    69 ≤ cmsg.datetime.year ∧ cmsg.datetime.year ≤ 168 →
    ReadBackAs z env' caller (ringSet env cmsg) cmsg.datetime := by
  intro h
  have hlate := h Zone.utc noLists noLists none (ringAt ⟨8, 14, 3, 19, 0, 138⟩) rfl
    ⟨by decide, by decide, by decide, by decide⟩ (by decide)
  rw [readBackAs_iff _ _ _ ⟨by decide, by decide, by decide, by decide⟩ (by decide)
    (ringSet_date noLists rfl) (ringSet_time noLists rfl)] at hlate
  exact absurd hlate (by decide)

example : (localtime Zone.utc (toInt 2147483648)) = ⟨52, 45, 20, 13, 11, 1⟩ := by decide

end Fritz2ci
