import EventPost.Proofs.Calendar
import EventPost.Proofs.Numeral.Decimal

/-!
The written form of instants. A text shows an instant by the digits of its fields. All fields but the
year have a fixed width, so a text is taken apart from its end and shows no other instant; an instant
that exists has a text of its own.
-/

namespace EventPost.Calendar

open Numeral (padded value_padded length_padded isDigit_of_mem_padded)

/-- Digits of a number, leading zeros among them. -/
structure Digits (n : Nat) (cs : List Char) : Prop where
  digits : ∀ c ∈ cs, c.isDigit = true
  value : Nat.ofDigitChars 10 cs 0 = n

/-- Four digits, or a sign and at least four. -/
inductive YearText : Int → List Char → Prop
  | near {year : Nat} {cs : List Char} : year ≤ 9999 → Digits year cs → cs.length = 4 →
    YearText year cs
  | later {year : Nat} {cs : List Char} : 9999 < year → Digits year cs → 4 ≤ cs.length →
    YearText year ('+' :: cs)
  | earlier {year : Nat} {cs : List Char} : 0 < year → Digits year cs → 4 ≤ cs.length →
    YearText (-year) ('-' :: cs)

def FieldText (mark : Char) (width n : Nat) (cs : List Char) : Prop :=
  ∃ ds, cs = mark :: ds ∧ ds.length = width ∧ Digits n ds

/-- The text is `YEAR-MM-DDTHH:MM:SS.mmmZ` with the fields of the instant. -/
def Shows (text : List Char) (t : Instant) : Prop :=
  ∃ year month day hour minute second milli, YearText t.date.year year ∧
    FieldText '-' 2 t.date.month month ∧ FieldText '-' 2 t.date.day day ∧
    FieldText 'T' 2 t.hour hour ∧ FieldText ':' 2 t.minute minute ∧
    FieldText ':' 2 t.second second ∧ FieldText '.' 3 t.milli milli ∧
    text = year ++ month ++ day ++ hour ++ minute ++ second ++ milli ++ ['Z']

theorem digits_padded (width n : Nat) : Digits n (padded width n) :=
  ⟨fun _ => isDigit_of_mem_padded, value_padded width n⟩

theorem fieldText_padded (mark : Char) {width n : Nat} (hw : 0 < width)
    (h : n < Nat.pow 10 width) : FieldText mark width n (mark :: padded width n) :=
  ⟨padded width n, rfl, length_padded hw h, digits_padded width n⟩

theorem le_length_padded (width n : Nat) : width ≤ (padded width n).length := by
  rw [padded, List.length_append, List.length_replicate]
  omega

theorem yearText_writeYear (year : Int) : YearText year (writeYear year) := by
  unfold writeYear
  split
  · rename_i hneg
    obtain ⟨n, rfl⟩ : ∃ n : Nat, year = -n := ⟨year.natAbs, by omega⟩
    rw [Int.natAbs_neg, Int.natAbs_natCast]
    exact .earlier (by omega) (digits_padded 4 n) (le_length_padded 4 n)
  · obtain ⟨n, rfl⟩ : ∃ n : Nat, year = n := ⟨year.natAbs, by omega⟩
    rw [Int.natAbs_natCast]
    split
    · exact .later (by omega) (digits_padded 4 n) (le_length_padded 4 n)
    · have hn : n < Nat.pow 10 4 := by
        have h4 : Nat.pow 10 4 = 10000 := rfl
        omega
      exact .near (by omega) (digits_padded 4 n) (length_padded (by decide) hn)

theorem Digits.unique {m n : Nat} {cs : List Char} (hm : Digits m cs) (hn : Digits n cs) : m = n :=
  hm.value.symm.trans hn.value

theorem Digits.sign_notMem {c : Char} {n : Nat} {cs ds : List Char} (h : Digits n cs)
    (hc : c.isDigit = false) (he : cs = c :: ds) : False := by
  have hd := h.digits c (he ▸ List.mem_cons_self)
  rw [hc] at hd
  exact absurd hd (by decide)

theorem YearText.unique {y z : Int} {cs : List Char} (hy : YearText y cs) (hz : YearText z cs) :
    y = z := by
  cases hy with
  | near _ hd _ =>
    generalize hcs : cs = ds at hz
    cases hz with
    | near _ hd' _ => rw [hd.unique (hcs ▸ hd')]
    | later _ _ _ => exact (hd.sign_notMem (by decide) hcs).elim
    | earlier _ _ _ => exact (hd.sign_notMem (by decide) hcs).elim
  | later _ hd _ =>
    generalize hcs : '+' :: _ = ds at hz
    cases hz with
    | near _ hd' _ => exact (hd'.sign_notMem (by decide) hcs.symm).elim
    | later _ hd' _ => rw [hd.unique ((List.cons.inj hcs).2 ▸ hd')]
    | earlier _ _ _ => exact absurd (List.cons.inj hcs).1 (by decide)
  | earlier _ hd _ =>
    generalize hcs : '-' :: _ = ds at hz
    cases hz with
    | near _ hd' _ => exact (hd'.sign_notMem (by decide) hcs.symm).elim
    | later _ _ _ => exact absurd (List.cons.inj hcs).1 (by decide)
    | earlier _ hd' _ => rw [hd.unique ((List.cons.inj hcs).2 ▸ hd')]

theorem FieldText.cut {mark : Char} {width m n : Nat} {cs ds fm fn : List Char}
    (hm : FieldText mark width m fm) (hn : FieldText mark width n fn) (h : cs ++ fm = ds ++ fn) :
    cs = ds ∧ m = n := by
  obtain ⟨am, rfl, hlm, hdm⟩ := hm
  obtain ⟨an, rfl, hln, hdn⟩ := hn
  have hlen : (mark :: am).length = (mark :: an).length := by
    rw [List.length_cons, List.length_cons, hlm, hln]
  obtain ⟨hl, hr⟩ := List.append_inj' h hlen
  exact ⟨hl, hdm.unique ((List.cons.inj hr).2 ▸ hdn)⟩

theorem Shows.unique {text : List Char} {t u : Instant} (ht : Shows text t) (hu : Shows text u) :
    t = u := by
  obtain ⟨_, _, _, _, _, _, _, hyear, hmonth, hday, hhour, hminute, hsecond, hmilli, rfl⟩ := ht
  obtain ⟨_, _, _, _, _, _, _, hyear', hmonth', hday', hhour', hminute', hsecond', hmilli', h⟩ := hu
  obtain ⟨h, -⟩ := List.append_inj' h rfl
  obtain ⟨h, emilli⟩ := hmilli.cut hmilli' h
  obtain ⟨h, esecond⟩ := hsecond.cut hsecond' h
  obtain ⟨h, eminute⟩ := hminute.cut hminute' h
  obtain ⟨h, ehour⟩ := hhour.cut hhour' h
  obtain ⟨h, eday⟩ := hday.cut hday' h
  obtain ⟨rfl, emonth⟩ := hmonth.cut hmonth' h
  have eyear := hyear.unique hyear'
  obtain ⟨⟨_, _, _⟩, _, _, _, _⟩ := t
  obtain ⟨⟨_, _, _⟩, _, _, _, _⟩ := u
  simp_all

theorem monthLength_le (year : Int) (month : Nat) : monthLength year month ≤ 31 := by
  unfold monthLength
  split
  · split <;> decide
  · split <;> decide

theorem month_lt {d : Date} (h : d.Valid) : d.month < 100 := by
  have := h.month_le
  omega

theorem day_lt {d : Date} (h : d.Valid) : d.day < 100 := by
  have := monthLength_le d.year d.month
  have := h.day_le
  omega

theorem two_digits {a b : Nat} (ha : a < b) (hb : b ≤ 60) : a < Nat.pow 10 2 := by
  have h2 : Nat.pow 10 2 = 100 := rfl
  omega

theorem shows_write {t : Instant} (h : t.Valid) : Shows t.write t :=
  ⟨_, _, _, _, _, _, _, yearText_writeYear _, fieldText_padded '-' (by decide) (month_lt h.date),
    fieldText_padded '-' (by decide) (day_lt h.date),
    fieldText_padded 'T' (by decide) (two_digits h.hour_lt (by decide)),
    fieldText_padded ':' (by decide) (two_digits h.minute_lt (by decide)),
    fieldText_padded ':' (by decide) (two_digits h.second_lt (by decide)),
    fieldText_padded '.' (by decide) h.milli_lt, rfl⟩

theorem write_injective {t u : Instant} (ht : t.Valid) (hu : u.Valid) (h : t.write = u.write) :
    t = u :=
  (shows_write ht).unique (h ▸ shows_write hu)

/-- The text writes an instant that exists, `ms` milliseconds from the start of 1970. -/
def Denotes (text : String) (ms : Int) : Prop :=
  ∃ t : Instant, t.Valid ∧ t.toMs = ms ∧ text = String.ofList t.write

theorem denotes_timestamp {ms : Int} {text : String} (h : timestamp? ms = some text) :
    Denotes text ms := by
  unfold timestamp? at h
  split at h
  · exact ⟨Instant.ofMs ms, valid_ofMs ms, toMs_ofMs ms, (Option.some.inj h).symm⟩
  · exact absurd h (by simp)

theorem Denotes.unique {text : String} {a b : Int} (ha : Denotes text a) (hb : Denotes text b) :
    a = b := by
  obtain ⟨t, ht, rfl, rfl⟩ := ha
  obtain ⟨u, hu, rfl, he⟩ := hb
  rw [write_injective ht hu (String.ofList_injective he)]

end EventPost.Calendar
