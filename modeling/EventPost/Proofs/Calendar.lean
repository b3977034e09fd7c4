import EventPost.Stamp.Calendar

/-!
The calendar read both ways. Every millisecond count has a date and a time of day that exist, and
they lead back to the count. Years begin in March, so that an era of four hundred of them starts
with its leap days in order; where a year of an era starts is a closed formula, and the formula
that finds the year of a day is monotone and right at both ends of every year.
-/

namespace EventPost.Calendar

abbrev IsLeap (year : Int) : Prop := year % 4 = 0 ∧ (year % 100 ≠ 0 ∨ year % 400 = 0)

def monthLength (year : Int) (month : Nat) : Nat :=
  if month = 2 then if IsLeap year then 29 else 28
  else if month = 4 ∨ month = 6 ∨ month = 9 ∨ month = 11 then 30
  else 31

structure Date.Valid (d : Date) : Prop where
  month_pos : 1 ≤ d.month
  month_le : d.month ≤ 12
  day_pos : 1 ≤ d.day
  day_le : d.day ≤ monthLength d.year d.month

structure Instant.Valid (t : Instant) : Prop where
  date : t.date.Valid
  hour_lt : t.hour < 24
  minute_lt : t.minute < 60
  second_lt : t.second < 60
  milli_lt : t.milli < 1000

def startOfYear (y : Nat) : Nat := 365 * y + y / 4 - y / 100 + y / 400

def commonDays (r : Nat) : Nat := r - r / 1460 + r / 36524 - r / 146096

theorem commonDays_mono {r s : Nat} (h : r ≤ s) (hs : s < 146097) :
    commonDays r ≤ commonDays s := by
  induction h with
  | refl => exact Nat.le_refl _
  | step h ih =>
    have hprev := ih (by omega)
    unfold commonDays at *
    omega

theorem le_commonDays_startOfYear : ∀ y < 400, 365 * y ≤ commonDays (startOfYear y) := by
  decide +kernel

theorem commonDays_endOfYear_lt :
    ∀ y < 400, commonDays (startOfYear (y + 1) - 1) < 365 * (y + 1) := by
  decide +kernel

theorem yearOfEra_lt {r : Nat} (h : r < 146097) : commonDays r / 365 < 400 := by
  unfold commonDays
  omega

theorem startOfYear_yearOfEra_le {r : Nat} (h : r < 146097) :
    startOfYear (commonDays r / 365) ≤ r := by
  have hy := yearOfEra_lt h
  generalize hd : commonDays r / 365 = y at *
  refine Nat.le_of_not_lt fun hlt => ?_
  obtain _ | y := y
  · exact Nat.not_lt_zero _ hlt
  · have hm := commonDays_mono (r := r) (s := startOfYear (y + 1) - 1) (by omega)
      (by unfold startOfYear; omega)
    have he := commonDays_endOfYear_lt y (by omega)
    omega

theorem lt_startOfYear_succ_yearOfEra {r : Nat} (h : r < 146097) :
    r < startOfYear (commonDays r / 365 + 1) := by
  have hy := yearOfEra_lt h
  generalize hd : commonDays r / 365 = y at *
  refine Nat.lt_of_not_le fun hge => ?_
  have hy1 : y + 1 < 400 := by
    unfold startOfYear at hge
    omega
  have hm := commonDays_mono (r := startOfYear (y + 1)) (s := r) (by omega) h
  have hs := le_commonDays_startOfYear (y + 1) hy1
  omega

def Date.inYear (era : Int) (y n : Nat) : Date :=
  let k := (5 * n + 2) / 153
  let month := if k < 10 then k + 3 else k - 9
  let year := (y : Int) + era * 400
  ⟨if month ≤ 2 then year + 1 else year, month, n - daysToMonth k + 1⟩

theorem ofDay_eq_inYear (day : Int) : ∃ (era : Int) (y n : Nat),
    day + epochDay = era * 146097 + startOfYear y + n ∧ y < 400 ∧
    startOfYear y + n < startOfYear (y + 1) ∧ Date.ofDay day = Date.inYear era y n := by
  obtain ⟨rest, hdef⟩ : ∃ rest, rest = ((day + epochDay) % 146097).toNat := ⟨_, rfl⟩
  have hrest : rest < 146097 := by omega
  have hlow := startOfYear_yearOfEra_le hrest
  have hhigh := lt_startOfYear_succ_yearOfEra hrest
  have hy := yearOfEra_lt hrest
  refine ⟨(day + epochDay) / 146097, commonDays rest / 365, rest - startOfYear (commonDays rest / 365),
    by omega, hy, by omega, ?_⟩
  have hs : 365 * (commonDays rest / 365) + commonDays rest / 365 / 4 - commonDays rest / 365 / 100 =
      startOfYear (commonDays rest / 365) := by
    unfold startOfYear
    omega
  rw [← hs, hdef]
  rfl

theorem inYear_eq (era : Int) (y : Nat) {n : Nat} (hn : n ≤ 365) : ∃ k d : Nat,
    n = daysToMonth k + d ∧ k < 12 ∧ (k < 11 → n < daysToMonth (k + 1)) ∧
    Date.inYear era y n =
      if k < 10 then ⟨y + era * 400, k + 3, d + 1⟩ else ⟨y + era * 400 + 1, k - 9, d + 1⟩ := by
  obtain ⟨k, hdef⟩ : ∃ k, k = (5 * n + 2) / 153 := ⟨_, rfl⟩
  refine ⟨k, n - daysToMonth k, ?_, by omega, ?_, ?_⟩
  · unfold daysToMonth
    omega
  · unfold daysToMonth
    omega
  · simp only [Date.inYear, ← hdef]
    by_cases hk : k < 10
    · have hm : ¬ k + 3 ≤ 2 := by omega
      simp only [hk, hm, if_true, if_false]
    · have hm : k - 9 ≤ 2 := by omega
      simp only [hk, hm, if_true, if_false]

theorem startOfYear_succ_le (y : Nat) : startOfYear (y + 1) ≤ startOfYear y + 366 := by
  unfold startOfYear
  omega

theorem toDay_ofDay (day : Int) : (Date.ofDay day).toDay = day := by
  obtain ⟨era, y, n, hsum, hy, hyear, hday⟩ := ofDay_eq_inYear day
  have hlen := startOfYear_succ_le y
  obtain ⟨k, d, hn, hk, -, hdate⟩ := inYear_eq era y (n := n) (by omega)
  have hmarch : daysToMarch (y + era * 400) = era * 146097 + startOfYear y := by
    unfold daysToMarch startOfYear
    omega
  rw [hday, hdate]
  unfold Date.toDay
  by_cases hk10 : k < 10
  · have hm : ¬ k + 3 ≤ 2 := by omega
    have hk' : (k + 3 + 9) % 12 = k := by omega
    simp only [hk10, if_true, hm, if_false, hk', hmarch]
    omega
  · have hm : k - 9 ≤ 2 := by omega
    have hk' : (k - 9 + 9) % 12 = k := by omega
    simp only [hk10, hm, if_true, if_false, hk', Int.add_sub_cancel, hmarch]
    omega

theorem isLeap_of_long {y : Nat} (era : Int) (h : startOfYear (y + 1) = startOfYear y + 366) :
    IsLeap (y + era * 400 + 1) := by
  unfold startOfYear at h
  constructor <;> omega

theorem monthLength_fromMarch (year : Int) {k : Nat} (hk : k < 10) :
    monthLength year (k + 3) = daysToMonth (k + 1) - daysToMonth k := by
  have hall : ∀ k < 10, (if k + 3 = 4 ∨ k + 3 = 6 ∨ k + 3 = 9 ∨ k + 3 = 11 then 30 else 31) =
      daysToMonth (k + 1) - daysToMonth k := by decide
  rw [monthLength, if_neg (by omega)]
  exact hall k hk

theorem valid_ofDay (day : Int) : (Date.ofDay day).Valid := by
  obtain ⟨era, y, n, -, -, hyear, hday⟩ := ofDay_eq_inYear day
  have hlen := startOfYear_succ_le y
  obtain ⟨k, d, hn, hk, hmonth, hdate⟩ := inYear_eq era y (n := n) (by omega)
  rw [hday, hdate]
  by_cases hk10 : k < 10
  · have hd := hmonth (by omega)
    have hm : d + 1 ≤ monthLength (y + era * 400) (k + 3) := by
      rw [monthLength_fromMarch _ hk10]
      omega
    have h12 : k + 3 ≤ 12 := by omega
    simp only [hk10, if_true]
    exact ⟨Nat.le_add_left 1 (k + 2), h12, Nat.le_add_left 1 d, hm⟩
  · have hm : d + 1 ≤ monthLength (y + era * 400 + 1) (k - 9) := by
      obtain rfl | rfl : k = 10 ∨ k = 11 := by omega
      · have hd := hmonth (by omega)
        simp only [daysToMonth] at hn hd
        change d + 1 ≤ 31
        omega
      · simp only [daysToMonth] at hn
        change d + 1 ≤ if IsLeap (y + era * 400 + 1) then 29 else 28
        split
        · omega
        · -- A year that is not long has no twenty-ninth of February.
          rename_i hleap
          have hshort := mt (isLeap_of_long era) hleap
          omega
    have h1 : 1 ≤ k - 9 := by omega
    have h12 : k - 9 ≤ 12 := by omega
    simp only [hk10, if_false]
    exact ⟨h1, h12, Nat.le_add_left 1 d, hm⟩

theorem valid_ofMs (ms : Int) : (Instant.ofMs ms).Valid := by
  have ht : (ms % msPerDay).toNat < 86400000 := by
    unfold msPerDay
    omega
  refine ⟨valid_ofDay _, ?_, ?_, ?_, ?_⟩
  · change (ms % msPerDay).toNat / 3600000 < 24
    omega
  · exact Nat.mod_lt _ (by decide)
  · exact Nat.mod_lt _ (by decide)
  · exact Nat.mod_lt _ (by decide)

theorem toMs_ofMs (ms : Int) : (Instant.ofMs ms).toMs = ms := by
  simp only [Instant.toMs, Instant.ofMs, toDay_ofDay, msPerDay]
  omega

end EventPost.Calendar
