import Fritz2ci.Lib.Decimal
import Fritz2ci.Spec.RingRecord

/-! Message ids sort as the moments they were made at, from one turn of a century to the
next. -/

namespace Fritz2ci

open CString CTime Calendar Decimal

/-- The number that the digits of a stamp spell. -/
def stampNumber (t : Tm) : ℕ :=
  ((((t.year % 100 * 100 + (t.mon + 1)) * 100 + t.mday) * 100 + t.hour) * 100 + t.min) * 100 + t.sec

theorem formatStamp_length (t : Tm) : (formatStamp t).length = 12 := rfl

theorem isDigit_formatStamp (t : Tm) : ∀ b ∈ formatStamp t, isDigit b := by
  intro b hb
  simp only [formatStamp, List.mem_append] at hb
  rcases hb with ((((hb | hb) | hb) | hb) | hb) | hb <;> exact isDigit_twoDigits _ b hb

theorem isDigit_threeDigits (n : ℕ) : ∀ b ∈ threeDigits n, isDigit b := by
  intro b hb
  rcases List.mem_cons.1 hb with rfl | hb
  · exact isDigit_digit (Nat.mod_lt _ (by decide))
  · exact isDigit_twoDigits n b hb

theorem decimal_formatStamp {t : Tm} (h : t.Valid) : decimal (formatStamp t) = stampNumber t := by
  have hmon := month_lt h.date
  have hday := day_le h.date
  have hhour := h.hour
  have hmin := h.min
  have hsec := h.sec
  simp only [Tm.date] at hmon hday
  simp only [formatStamp, decimal_append_twoDigits]
  rw [decimal_twoDigits (Nat.mod_lt _ (by decide)), stampNumber]
  omega

theorem decimal_append_threeDigits (s : CStr) {n : ℕ} (h : n < 1000) :
    decimal (s ++ threeDigits n) = 1000 * decimal s + n := by
  have hhundreds := digit_toNat (Nat.mod_lt (n / 100) (show 0 < 10 by decide))
  rw [threeDigits, ← List.singleton_append, ← List.append_assoc, decimal_append_twoDigits,
    decimal_snoc, hhundreds]
  omega

/-- In one century, stamps compare like the clock. -/
theorem stampNumber_lt {t u : Tm} (ht : t.Valid) (hu : u.Valid)
    (hc : t.year / 100 = u.year / 100) (h : stampNumber t < stampNumber u) : t.clock < u.clock := by
  obtain ⟨htod, htod'⟩ := timeOfDay_bounds ht
  obtain ⟨hutod, hutod'⟩ := timeOfDay_bounds hu
  have htmon := month_lt ht.date
  have humon := month_lt hu.date
  have htday := day_le ht.date
  have huday := day_le hu.date
  have := ht.hour
  have := ht.min
  have := ht.sec
  have := hu.hour
  have := hu.min
  have := hu.sec
  simp only [Tm.date] at htmon humon htday huday
  unfold stampNumber at h
  by_cases hdate : t.date = u.date
  · obtain ⟨hyear, hmon, hday⟩ := Date.mk.inj hdate
    unfold Tm.clock
    rw [hdate]
    unfold Tm.timeOfDay
    omega
  · have hlt : daysOf t.date < daysOf u.date := by
      refine daysOf_lt ht.date hu.date ?_
      have hne : ¬ (t.year = u.year ∧ t.mon = u.mon ∧ t.mday = u.mday) := by
        rintro ⟨h1, h2, h3⟩
        exact hdate (by rw [Tm.date, Tm.date, h1, h2, h3])
      simp only [Tm.date]
      omega
    unfold Tm.clock
    omega

theorem stampNumber_inj {t u : Tm} (ht : t.Valid) (hu : u.Valid)
    (hc : t.year / 100 = u.year / 100) (h : stampNumber t = stampNumber u) : t = u := by
  have htmon := month_lt ht.date
  have humon := month_lt hu.date
  have htday := day_le ht.date
  have huday := day_le hu.date
  have := ht.hour
  have := ht.min
  have := ht.sec
  have := hu.hour
  have := hu.min
  have := hu.sec
  simp only [Tm.date] at htmon humon htday huday
  unfold stampNumber at h
  obtain ⟨sec, min, hour, mday, mon, year⟩ := t
  obtain ⟨sec', min', hour', mday', mon', year'⟩ := u
  simp only [Tm.mk.injEq] at *
  omega

/-- The moment of a call in milliseconds since the epoch. -/
def milliseconds (sec : ℤ) (usec : ℕ) : ℤ := 1000 * sec + usec / 1000

/-- A moment not before 1900 by the local clock, with less than a second of microseconds. -/
structure MomentOk (z : Zone) (sec : ℤ) (usec : ℕ) : Prop where
  since1900 : 86400 * yearStart 1900 ≤ sec + z.offset
  usec : usec < 1000000

theorem generateMsgId_eq (z : Zone) {sec : ℤ} {usec : ℕ} (h : MomentOk z sec usec) :
    generateMsgId z sec usec = formatStamp (localtime z sec) ++ threeDigits (usec / 1000) := by
  have := h.usec
  rw [generateMsgId, strftime_of_lt (by rw [formatStamp_length]; decide),
    Nat.mod_eq_of_lt (by omega)]

theorem isDigit_generateMsgId (z : Zone) {sec : ℤ} {usec : ℕ} (h : MomentOk z sec usec) :
    ∀ b ∈ generateMsgId z sec usec, isDigit b := by
  intro b hb
  rw [generateMsgId_eq z h] at hb
  rcases List.mem_append.1 hb with hb | hb
  · exact isDigit_formatStamp _ b hb
  · exact isDigit_threeDigits _ b hb

theorem generateMsgId_length (z : Zone) {sec : ℤ} {usec : ℕ} (h : MomentOk z sec usec) :
    (generateMsgId z sec usec).length = 15 := by
  rw [generateMsgId_eq z h]
  rfl

theorem decimal_generateMsgId (z : Zone) {sec : ℤ} {usec : ℕ} (h : MomentOk z sec usec) :
    decimal (generateMsgId z sec usec) = 1000 * stampNumber (localtime z sec) + usec / 1000 := by
  have := h.usec
  rw [generateMsgId_eq z h, decimal_append_threeDigits _ (by omega),
    decimal_formatStamp (valid_localtime z h.since1900)]

theorem stampNumber_lt_iff (z : Zone) {s₁ s₂ : ℤ} (h₁ : 86400 * yearStart 1900 ≤ s₁ + z.offset)
    (h₂ : 86400 * yearStart 1900 ≤ s₂ + z.offset)
    (hc : (localtime z s₁).year / 100 = (localtime z s₂).year / 100) :
    stampNumber (localtime z s₁) < stampNumber (localtime z s₂) ↔ s₁ < s₂ := by
  have hv₁ := valid_localtime z h₁
  have hv₂ := valid_localtime z h₂
  have hc₁ := clock_localtime z h₁
  have hc₂ := clock_localtime z h₂
  constructor
  · intro h
    have := stampNumber_lt hv₁ hv₂ hc h
    omega
  · intro h
    rcases lt_trichotomy (stampNumber (localtime z s₁)) (stampNumber (localtime z s₂)) with
      hlt | heq | hgt
    · exact hlt
    · rw [stampNumber_inj hv₁ hv₂ hc heq] at hc₁
      omega
    · have := stampNumber_lt hv₂ hv₁ hc.symm hgt
      omega

/-- Within a century of the local clock the ids fill their array and compare as strings like
the moments in milliseconds; rings a millisecond apart never share one. -/
theorem msgId_orders_moments (z : Zone) {s₁ s₂ : ℤ} {u₁ u₂ : ℕ} (h₁ : MomentOk z s₁ u₁)
    (h₂ : MomentOk z s₂ u₂)
    (hc : (localtime z s₁).year / 100 = (localtime z s₂).year / 100) :
    (generateMsgId z s₁ u₁).length + 1 = 16 ∧
    (generateMsgId z s₁ u₁ < generateMsgId z s₂ u₂ ↔ milliseconds s₁ u₁ < milliseconds s₂ u₂) ∧
    (generateMsgId z s₁ u₁ = generateMsgId z s₂ u₂ ↔ milliseconds s₁ u₁ = milliseconds s₂ u₂) := by
  have hlen₁ := generateMsgId_length z h₁
  have hlen₂ := generateMsgId_length z h₂
  have hlt := stampNumber_lt_iff z h₁.since1900 h₂.since1900 hc
  have hgt := stampNumber_lt_iff z h₂.since1900 h₁.since1900 hc.symm
  have hu₁ := h₁.usec
  have hu₂ := h₂.usec
  have hdec₁ := decimal_generateMsgId z h₁
  have hdec₂ := decimal_generateMsgId z h₂
  have horder := lt_iff_decimal_lt (isDigit_generateMsgId z h₁) (isDigit_generateMsgId z h₂)
    (hlen₁.trans hlen₂.symm)
  unfold milliseconds
  refine ⟨by rw [hlen₁], ?_, ?_⟩
  · rw [horder, hdec₁, hdec₂]
    omega
  · constructor
    · intro heq
      have hdec := congrArg decimal heq
      rw [hdec₁, hdec₂] at hdec
      omega
    · intro heq
      have hsec : s₁ = s₂ := by omega
      have husec : u₁ / 1000 = u₂ / 1000 := by omega
      rw [generateMsgId_eq z h₁, generateMsgId_eq z h₂, hsec, husec]

theorem newYear_after_eve :
    generateMsgId Zone.utc 1293839999 999999 < generateMsgId Zone.utc 1293840000 0 :=
  (msgId_orders_moments Zone.utc ⟨by decide, by decide⟩ ⟨by decide, by decide⟩ (by decide)).2.1.2
    (by decide)

end Fritz2ci
