import Mathlib.Data.Int.Order.Basic
import Mathlib.Order.Basic
import Mathlib.Tactic.IntervalCases
import EventPost.Proofs.Calendar

/-!
Days counted one by one. A date has a day after it, by the lengths of the months alone; counting
from the first of January 1970, onward and back, reaches every date that exists once, and the
number of steps is what the closed formula says. So days are in order as their dates are.
-/

namespace EventPost.Calendar

def Date.next (d : Date) : Date :=
  if d.day < monthLength d.year d.month then ⟨d.year, d.month, d.day + 1⟩
  else if d.month < 12 then ⟨d.year, d.month + 1, 1⟩
  else ⟨d.year + 1, 1, 1⟩

/-- The day of a date, counted from the first of January 1970. -/
inductive Falls : Date → Int → Prop
  | epoch : Falls ⟨1970, 1, 1⟩ 0
  | onward {d : Date} {n : Int} : Falls d n → Falls d.next (n + 1)
  | back {d : Date} {n : Int} : d.Valid → Falls d.next (n + 1) → Falls d n

def Date.Before (d e : Date) : Prop :=
  d.year < e.year ∨ d.year = e.year ∧ (d.month < e.month ∨ d.month = e.month ∧ d.day < e.day)

theorem Date.before_or (d e : Date) : d.Before e ∨ d = e ∨ e.Before d := by
  obtain ⟨y, m, n⟩ := d
  obtain ⟨y', m', n'⟩ := e
  simp only [Date.Before, Date.mk.injEq]
  omega

theorem daysToMarch_succ (year : Int) : daysToMarch (year + 1) =
    daysToMarch year + if IsLeap (year + 1) then 366 else 365 := by
  unfold daysToMarch
  split <;> omega

theorem monthLength_pos (year : Int) (month : Nat) : 1 ≤ monthLength year month := by
  unfold monthLength
  split
  · split <;> decide
  · split <;> decide

theorem toDay_eq_first (year : Int) (month day : Nat) :
    (Date.mk year month day).toDay = (Date.mk year month 1).toDay + day - 1 := by
  simp only [Date.toDay]
  omega

theorem toDay_nextMonth (year : Int) {month : Nat} (hpos : 1 ≤ month) (hlt : month < 12) :
    (Date.mk year (month + 1) 1).toDay =
      (Date.mk year month 1).toDay + monthLength year month := by
  by_cases h2 : month = 2
  · subst h2
    have hmarch := daysToMarch_succ (year - 1)
    rw [Int.sub_add_cancel] at hmarch
    simp only [Date.toDay, monthLength, daysToMonth]
    norm_num
    by_cases hleap : IsLeap year
    · rw [if_pos hleap] at hmarch ⊢
      omega
    · rw [if_neg hleap] at hmarch ⊢
      omega
  · have hlength : monthLength year month = monthLength 1 month := by
      simp only [monthLength, h2, if_false]
    rw [hlength]
    interval_cases month <;> simp [Date.toDay, monthLength, daysToMonth] at * <;> omega

theorem toDay_nextYear (year : Int) :
    (Date.mk (year + 1) 1 1).toDay = (Date.mk year 12 1).toDay + 31 := by
  simp only [Date.toDay, daysToMonth]
  norm_num
  omega

theorem monthLength_december (year : Int) : monthLength year 12 = 31 := rfl

theorem valid_next {d : Date} (h : d.Valid) : d.next.Valid := by
  have hpos := h.month_pos
  have hle := h.month_le
  unfold Date.next
  split
  · exact ⟨hpos, hle, Nat.le_add_left 1 _, by assumption⟩
  · split
    · exact ⟨Nat.le_add_left 1 _, by assumption, Nat.le_refl 1, monthLength_pos _ _⟩
    · have h12 : 1 ≤ 12 := by decide
      exact ⟨Nat.le_refl 1, h12, Nat.le_refl 1, monthLength_pos _ _⟩

theorem toDay_next {d : Date} (h : d.Valid) : d.next.toDay = d.toDay + 1 := by
  obtain ⟨year, month, day⟩ := d
  have hpos : 1 ≤ month := h.month_pos
  have hle : month ≤ 12 := h.month_le
  have hday : day ≤ monthLength year month := h.day_le
  simp only [Date.next]
  rw [toDay_eq_first year month day]
  split
  · rw [toDay_eq_first]
    omega
  · split
    · rename_i hlt
      rw [toDay_nextMonth year hpos hlt]
      omega
    · obtain rfl : month = 12 := by omega
      rw [toDay_nextYear]
      rw [monthLength_december] at *
      omega

theorem toDay_laterMonth (year : Int) {m n : Nat} (hpos : 1 ≤ m) (h : m < n) (hn : n ≤ 12) :
    (Date.mk year m 1).toDay + monthLength year m ≤ (Date.mk year n 1).toDay := by
  induction n with
  | zero => exact absurd h (Nat.not_lt_zero m)
  | succ n ih =>
    obtain hlt | rfl : m < n ∨ m = n := by omega
    · have hprev := ih hlt (by omega)
      rw [toDay_nextMonth year (by omega) (by omega)]
      omega
    · rw [toDay_nextMonth year hpos (by omega)]

theorem toDay_le_december (year : Int) {m : Nat} (hpos : 1 ≤ m) (hm : m ≤ 12) :
    (Date.mk year m 1).toDay + monthLength year m ≤ (Date.mk year 12 1).toDay + 31 := by
  obtain hlt | rfl : m < 12 ∨ m = 12 := by omega
  · have hlater := toDay_laterMonth year hpos hlt (Nat.le_refl 12)
    omega
  · rw [monthLength_december]
    omega

theorem toDay_january_le (year : Int) {m : Nat} (hpos : 1 ≤ m) (hm : m ≤ 12) :
    (Date.mk year 1 1).toDay ≤ (Date.mk year m 1).toDay := by
  obtain hlt | rfl : 1 < m ∨ m = 1 := by omega
  · have hlater := toDay_laterMonth year (Nat.le_refl 1) hlt hm
    omega
  · exact Int.le_refl _

theorem toDay_laterYear {y z : Int} (h : y < z) :
    (Date.mk y 12 1).toDay + 31 ≤ (Date.mk z 1 1).toDay := by
  obtain ⟨n, rfl⟩ : ∃ n : Nat, z = y + 1 + n := ⟨(z - y - 1).toNat, by omega⟩
  clear h
  induction n with
  | zero =>
    rw [Int.natCast_zero, Int.add_zero, toDay_nextYear]
  | succ n ih =>
    have hyear := toDay_january_le (y + 1 + n) (m := 12) (by decide) (by decide)
    rw [Int.natCast_succ, ← Int.add_assoc, toDay_nextYear]
    omega

theorem toDay_lt_of_before {d e : Date} (hd : d.Valid) (he : e.Valid) (h : d.Before e) :
    d.toDay < e.toDay := by
  obtain ⟨y, m, n⟩ := d
  obtain ⟨y', m', n'⟩ := e
  have hn : n ≤ monthLength y m := hd.day_le
  have hn' : 1 ≤ n' := he.day_pos
  rw [toDay_eq_first y m n, toDay_eq_first y' m' n']
  rcases h with hy | ⟨rfl, hm | ⟨rfl, hlt⟩⟩ <;> dsimp only at *
  · have hend := toDay_le_december y hd.month_pos hd.month_le
    have hgap := toDay_laterYear hy
    have hstart := toDay_january_le y' he.month_pos he.month_le
    dsimp only at hend hstart
    omega
  · have hgap := toDay_laterMonth y hd.month_pos hm he.month_le
    dsimp only at hgap
    omega
  · omega

theorem toDay_injective {d e : Date} (hd : d.Valid) (he : e.Valid) (h : d.toDay = e.toDay) :
    d = e := by
  rcases Date.before_or d e with hlt | rfl | hgt
  · exact absurd h (Int.ne_of_lt (toDay_lt_of_before hd he hlt))
  · rfl
  · exact absurd h.symm (Int.ne_of_lt (toDay_lt_of_before he hd hgt))

theorem falls_ofDay (day : Int) : Falls (Date.ofDay day) day := by
  induction day using Int.induction_on with
  | zero => exact .epoch
  | succ n ih =>
    have hnext : (Date.ofDay n).next = Date.ofDay (n + 1) := by
      refine toDay_injective (valid_next (valid_ofDay _)) (valid_ofDay _) ?_
      rw [toDay_next (valid_ofDay _), toDay_ofDay, toDay_ofDay]
    rw [← hnext]
    exact .onward ih
  | pred n ih =>
    have hnext : (Date.ofDay (-n - 1)).next = Date.ofDay (-n) := by
      refine toDay_injective (valid_next (valid_ofDay _)) (valid_ofDay _) ?_
      rw [toDay_next (valid_ofDay _), toDay_ofDay, toDay_ofDay]
      omega
    refine .back (valid_ofDay _) ?_
    rw [hnext, Int.sub_add_cancel]
    exact ih

theorem falls_iff {d : Date} {n : Int} : Falls d n ↔ d.Valid ∧ d.toDay = n := by
  constructor
  · intro h
    induction h with
    | epoch => exact ⟨⟨by decide, by decide, by decide, by decide⟩, by decide⟩
    | onward _ ih =>
      obtain ⟨hvalid, rfl⟩ := ih
      exact ⟨valid_next hvalid, toDay_next hvalid⟩
    | back hvalid _ ih =>
      have hnext := toDay_next hvalid
      exact ⟨hvalid, by omega⟩
  · rintro ⟨hvalid, rfl⟩
    have hsame : Date.ofDay d.toDay = d := toDay_injective (valid_ofDay _) hvalid (toDay_ofDay _)
    have hfalls := falls_ofDay d.toDay
    rw [hsame] at hfalls
    exact hfalls

end EventPost.Calendar
