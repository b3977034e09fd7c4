import EventPost.Proofs.Calendar.Succession
import EventPost.Proofs.Calendar.Text

/-!
Written instants in order. Within the years of four digits all fields have their width, so the order
of texts is that of the fields from the year down, and this is the order of time.
-/

namespace EventPost.Calendar

open Numeral (padded value_padded length_padded isDigit_of_mem_padded padded_injective)

def Instant.Before (t u : Instant) : Prop :=
  t.date.Before u.date ∨ t.date = u.date ∧ (t.hour < u.hour ∨ t.hour = u.hour ∧
    (t.minute < u.minute ∨ t.minute = u.minute ∧
      (t.second < u.second ∨ t.second = u.second ∧ t.milli < u.milli)))

theorem Instant.before_or (t u : Instant) : t.Before u ∨ t = u ∨ u.Before t := by
  obtain ⟨d, _, _, _, _⟩ := t
  obtain ⟨e, _, _, _, _⟩ := u
  rcases Date.before_or d e with hlt | rfl | hgt
  · exact .inl (.inl hlt)
  · simp only [Instant.Before, Instant.mk.injEq, true_and]
    omega
  · exact .inr (.inr (.inl hgt))

theorem toMs_lt_of_before {t u : Instant} (ht : t.Valid) (hu : u.Valid) (h : t.Before u) :
    t.toMs < u.toMs := by
  obtain ⟨_, hh, hm, hs, hf⟩ := ht
  obtain ⟨_, hh', hm', hs', hf'⟩ := hu
  unfold Instant.toMs msPerDay
  rcases h with hdate | ⟨hdate, h⟩
  · have hday := toDay_lt_of_before ‹t.date.Valid› ‹u.date.Valid› hdate
    push_cast
    omega
  · rw [hdate]
    push_cast
    omega

theorem before_iff {t u : Instant} (ht : t.Valid) (hu : u.Valid) :
    t.Before u ↔ t.toMs < u.toMs := by
  refine ⟨toMs_lt_of_before ht hu, fun h => ?_⟩
  rcases Instant.before_or t u with hlt | rfl | hgt
  · exact hlt
  · exact absurd h (Int.lt_irrefl _)
  · exact absurd h (Int.not_lt.2 (Int.le_of_lt (toMs_lt_of_before hu ht hgt)))

theorem append_lt_append_iff {as bs : List Char} (h : as.length = bs.length) (xs ys : List Char) :
    as ++ xs < bs ++ ys ↔ as < bs ∨ as = bs ∧ xs < ys := by
  induction as generalizing bs with
  | nil =>
    obtain rfl := List.length_eq_zero_iff.1 h.symm
    simp only [List.nil_append, List.not_lt_nil, true_and, false_or]
  | cons a as ih =>
    obtain ⟨b, bs, rfl⟩ := List.exists_cons_of_length_eq_add_one h.symm
    rw [List.cons_append, List.cons_append, List.cons_lt_cons_iff, List.cons_lt_cons_iff,
      ih (Nat.succ.inj h), List.cons.injEq]
    tauto

theorem digit_lt {c d : Char} (hc : c.isDigit = true) (h : c < d) :
    c.toNat - '0'.toNat < d.toNat - '0'.toNat := by
  have h0 : '0'.toNat ≤ c.toNat := by
    rw [Char.isDigit, Bool.and_eq_true, decide_eq_true_eq] at hc
    exact hc.1
  have hlt : c.toNat < d.toNat := h
  omega

theorem digit_le {c : Char} (hc : c.isDigit = true) : c.toNat - '0'.toNat ≤ 9 := by
  rw [Char.isDigit, Bool.and_eq_true, decide_eq_true_eq, decide_eq_true_eq] at hc
  have h9 : c.toNat ≤ 57 := hc.2
  have h0 : '0'.toNat = 48 := rfl
  omega

theorem value_lt_pow {cs : List Char} (h : ∀ c ∈ cs, c.isDigit = true) :
    Nat.ofDigitChars 10 cs 0 < 10 ^ cs.length := by
  induction cs with
  | nil => exact Nat.one_pos
  | cons c cs ih =>
    have hc := digit_le (h c List.mem_cons_self)
    have hcs := ih fun d hd => h d (List.mem_cons_of_mem c hd)
    rw [Nat.ofDigitChars_cons, Nat.ofDigitChars_eq_ofDigitChars_zero, List.length_cons, Nat.pow_succ,
      Nat.mul_zero, Nat.zero_add]
    calc 10 ^ cs.length * (c.toNat - '0'.toNat) + Nat.ofDigitChars 10 cs 0
        < 10 ^ cs.length * (c.toNat - '0'.toNat) + 10 ^ cs.length := Nat.add_lt_add_left hcs _
      _ = 10 ^ cs.length * (c.toNat - '0'.toNat + 1) := rfl
      _ ≤ 10 ^ cs.length * 10 := Nat.mul_le_mul_left _ (Nat.succ_le_succ hc)

theorem value_lt_of_lt {as bs : List Char} (ha : ∀ c ∈ as, c.isDigit = true)
    (hb : ∀ c ∈ bs, c.isDigit = true) (hl : as.length = bs.length) (h : as < bs) :
    Nat.ofDigitChars 10 as 0 < Nat.ofDigitChars 10 bs 0 := by
  induction as generalizing bs with
  | nil =>
    obtain rfl := List.length_eq_zero_iff.1 hl.symm
    exact absurd h (List.not_lt_nil _)
  | cons a as ih =>
    obtain ⟨b, bs, rfl⟩ := List.exists_cons_of_length_eq_add_one hl.symm
    have hl' : as.length = bs.length := Nat.succ.inj hl
    have ha' := fun c hc => ha c (List.mem_cons_of_mem a hc)
    have hb' := fun c hc => hb c (List.mem_cons_of_mem b hc)
    rw [Nat.ofDigitChars_cons, Nat.ofDigitChars_cons, Nat.ofDigitChars_eq_ofDigitChars_zero (l := as),
      Nat.ofDigitChars_eq_ofDigitChars_zero (l := bs), hl', Nat.mul_zero, Nat.zero_add, Nat.zero_add]
    rcases List.cons_lt_cons_iff.1 h with hlt | ⟨rfl, hrest⟩
    · have hdigit := digit_lt (ha a List.mem_cons_self) hlt
      have hsmall := value_lt_pow ha'
      rw [hl'] at hsmall
      calc 10 ^ bs.length * (a.toNat - '0'.toNat) + Nat.ofDigitChars 10 as 0
          < 10 ^ bs.length * (a.toNat - '0'.toNat) + 10 ^ bs.length := Nat.add_lt_add_left hsmall _
        _ = 10 ^ bs.length * (a.toNat - '0'.toNat + 1) := rfl
        _ ≤ 10 ^ bs.length * (b.toNat - '0'.toNat) := Nat.mul_le_mul_left _ hdigit
        _ ≤ 10 ^ bs.length * (b.toNat - '0'.toNat) + Nat.ofDigitChars 10 bs 0 :=
          Nat.le_add_right _ _
    · exact Nat.add_lt_add_left (ih ha' hb' hl' hrest) _

theorem padded_lt_padded {width m n : Nat} (hw : 0 < width) (hm : m < Nat.pow 10 width)
    (hn : n < Nat.pow 10 width) : padded width m < padded width n ↔ m < n := by
  have hl : (padded width m).length = (padded width n).length := by
    rw [length_padded hw hm, length_padded hw hn]
  have hlt : ∀ {a b : Nat}, (padded width a).length = (padded width b).length →
      padded width a < padded width b → a < b := by
    intro a b hl h
    have hv := value_lt_of_lt (fun _ => isDigit_of_mem_padded) (fun _ => isDigit_of_mem_padded) hl h
    rw [value_padded, value_padded] at hv
    exact hv
  refine ⟨hlt hl, fun h => ?_⟩
  rcases Std.lt_trichotomy (padded width m) (padded width n) with hless | heq | hmore
  · exact hless
  · exact absurd (padded_injective heq) (Nat.ne_of_lt h)
  · exact absurd (hlt hl.symm hmore) (Nat.lt_asymm h)

theorem field_lt_iff {c : Char} {width m n : Nat} (hw : 0 < width) (hm : m < Nat.pow 10 width)
    (hn : n < Nat.pow 10 width) (xs ys : List Char) :
    c :: padded width m ++ xs < c :: padded width n ++ ys ↔ m < n ∨ m = n ∧ xs < ys := by
  have hl : (padded width m).length = (padded width n).length := by
    rw [length_padded hw hm, length_padded hw hn]
  have heq : padded width m = padded width n ↔ m = n :=
    ⟨padded_injective, fun h => h ▸ rfl⟩
  rw [List.cons_append, List.cons_append, List.cons_lt_cons_iff, append_lt_append_iff hl,
    padded_lt_padded hw hm hn, heq]
  simp only [Char.lt_irrefl, false_or, true_and]

abbrev Date.Near (d : Date) : Prop := 0 ≤ d.year ∧ d.year ≤ 9999

theorem writeYear_near {y : Int} (h0 : 0 ≤ y) (h9 : y ≤ 9999) :
    writeYear y = padded 4 y.toNat ∧ y.toNat < Nat.pow 10 4 := by
  have h4 : Nat.pow 10 4 = 10000 := rfl
  rw [writeYear, if_neg (by omega), if_neg (by omega), show y.natAbs = y.toNat by omega]
  exact ⟨rfl, by omega⟩

theorem write_lt_iff {t u : Instant} (ht : t.Valid) (hu : u.Valid) (hnt : t.date.Near)
    (hnu : u.date.Near) : t.write < u.write ↔ t.Before u := by
  obtain ⟨hwt, hyt⟩ := writeYear_near hnt.1 hnt.2
  obtain ⟨hwu, hyu⟩ := writeYear_near hnu.1 hnu.2
  have hl : (padded 4 t.date.year.toNat).length = (padded 4 u.date.year.toNat).length := by
    rw [length_padded (by decide) hyt, length_padded (by decide) hyu]
  unfold Instant.write
  rw [hwt, hwu]
  simp only [List.append_assoc]
  rw [append_lt_append_iff hl, padded_lt_padded (by decide) hyt hyu,
    field_lt_iff (by decide) (month_lt ht.date) (month_lt hu.date),
    field_lt_iff (by decide) (day_lt ht.date) (day_lt hu.date),
    field_lt_iff (by decide) (two_digits ht.hour_lt (by decide)) (two_digits hu.hour_lt (by decide)),
    field_lt_iff (by decide) (two_digits ht.minute_lt (by decide))
      (two_digits hu.minute_lt (by decide)),
    field_lt_iff (by decide) (two_digits ht.second_lt (by decide))
      (two_digits hu.second_lt (by decide)),
    field_lt_iff (by decide) ht.milli_lt hu.milli_lt]
  have hless : t.date.year.toNat < u.date.year.toNat ↔ t.date.year < u.date.year := by omega
  have hsame : padded 4 t.date.year.toNat = padded 4 u.date.year.toNat ↔
      t.date.year = u.date.year := by
    refine ⟨fun h => ?_, fun h => h ▸ rfl⟩
    have := padded_injective h
    omega
  have hdate : t.date = u.date ↔ t.date.year = u.date.year ∧ t.date.month = u.date.month ∧
      t.date.day = u.date.day := by
    rw [← Date.mk.injEq]
  rw [hless, hsame, Instant.Before, Date.Before, hdate]
  simp only [List.lt_irrefl, and_false, or_false, and_or_left, and_assoc, or_assoc]

end EventPost.Calendar
