import Mathlib.Data.Int.Order.Basic
import Mathlib.Data.List.Nodup
import Mathlib.Order.Bounds.Defs
import EventPost.Proofs.Calendar.Text
import EventPost.Stamp.Basic

/-!
Runs of the stamp source. After any readings of the clock the last number is the least that grows
with every call and keeps up with the clock, and the last time is the latest reading; both have
closed forms as the greatest of some bounds. A run that has room under the largest 64-bit number
never wraps around, and every one of its times lies within the calendar.
-/

namespace EventPost.Counters

open Numeral (signedText signedText_injective)
open Calendar (Representable Denotes)

def after (c : Counters) (clock : List Int64) : Counters :=
  clock.foldl (fun c now => (c.stampAt now).2) c

def stamps : Counters → List Int64 → List Stamp
  | _, [] => []
  | c, now :: rest => (c.stampAt now).1 :: stamps (c.stampAt now).2 rest

/-- What a run may assume: the counters stand in order, the readings and the last time lie within
the calendar, and the numbers cannot reach the largest one. -/
structure Fit (c : Counters) (clock : List Int64) : Prop where
  time_nonneg : 0 ≤ c.lastTime.toInt
  time_le_id : c.lastTime.toInt ≤ c.lastId.toInt
  time_covered : Representable c.lastTime.toInt
  clock_covered : ∀ t ∈ clock, Representable t.toInt
  room : max c.lastId.toInt Calendar.latest + clock.length ≤ Int64.maxValue.toInt

def idAfter (c : Counters) (clock : List Int64) (n : ℕ) : ℤ :=
  (c.after (clock.take n)).lastId.toInt

def timeAfter (c : Counters) (clock : List Int64) (n : ℕ) : ℤ :=
  (c.after (clock.take n)).lastTime.toInt

theorem idAfter_zero (c : Counters) (clock : List Int64) : c.idAfter clock 0 = c.lastId.toInt := by
  rw [idAfter, List.take_zero]
  rfl

theorem timeAfter_zero (c : Counters) (clock : List Int64) :
    c.timeAfter clock 0 = c.lastTime.toInt := by
  rw [timeAfter, List.take_zero]
  rfl

theorem after_take_succ (c : Counters) {clock : List Int64} {n : ℕ} {now : Int64}
    (h : clock[n]? = some now) :
    c.after (clock.take (n + 1)) = ((c.after (clock.take n)).stampAt now).2 := by
  rw [List.take_add_one, h, after, List.foldl_append]
  rfl

theorem getElem?_stamps (c : Counters) (clock : List Int64) (n : ℕ) :
    (c.stamps clock)[n]? =
      (clock[n]?).map fun now => ((c.after (clock.take n)).stampAt now).1 := by
  induction clock generalizing c n with
  | nil => rfl
  | cons now rest ih =>
    cases n with
    | zero => rfl
    | succ n => exact ih (c.stampAt now).2 n

theorem length_stamps (c : Counters) (clock : List Int64) :
    (c.stamps clock).length = clock.length := by
  induction clock generalizing c with
  | nil => rfl
  | cons now rest ih => exact congrArg Nat.succ (ih _)

theorem toInt_nextId {last : Int64} (h : last.toInt < Int64.maxValue.toInt) (now : Int64) :
    (Stamp.nextId last now).toInt = max (last.toInt + 1) now.toInt := by
  have hadd : (last + 1).toInt = last.toInt + 1 := by
    have hlow := last.le_toInt
    have hmax : Int64.maxValue.toInt = 2 ^ 63 - 1 := rfl
    rw [Int64.toInt_add, show (1 : Int64).toInt = 1 from rfl]
    exact Int.bmod_eq_of_le (by omega) (by omega)
  unfold Stamp.nextId
  split
  · rename_i hlt
    have := Int64.lt_iff_toInt_lt.1 hlt
    omega
  · rename_i hge
    have := mt Int64.lt_iff_toInt_lt.2 hge
    omega

theorem toInt_max (a b : Int64) : (max a b).toInt = max a.toInt b.toInt := by
  change (if a ≤ b then b else a).toInt = _
  split
  · rename_i hle
    have := Int64.le_iff_toInt_le.1 hle
    omega
  · rename_i hgt
    have := mt Int64.le_iff_toInt_le.2 hgt
    omega

/-- What the number of the `n`-th call must reach: one more for each call than the last number, and
for each reading one more for each call since. -/
def idBounds (c : Counters) (clock : List Int64) (n : ℕ) : Set ℤ :=
  {x | x = c.lastId.toInt + n ∨ ∃ j t, j < n ∧ clock[j]? = some t ∧ x = t.toInt + (n - (j + 1))}

def timeBounds (c : Counters) (clock : List Int64) (n : ℕ) : Set ℤ :=
  {x | x = c.lastTime.toInt ∨ ∃ j t, j < n ∧ clock[j]? = some t ∧ x = t.toInt}

/-- Numbers for the calls, the first at one, that increase, stay above the last number and never
fall behind the clock. -/
structure Admissible (c : Counters) (clock : List Int64) (ids : ℕ → ℤ) : Prop where
  above : ∀ n, 0 < n → n ≤ clock.length → c.lastId.toInt < ids n
  reading : ∀ n t, clock[n]? = some t → t.toInt ≤ ids (n + 1)
  strict : ∀ m n, 0 < m → m < n → n ≤ clock.length → ids m < ids n

section Run

variable {c : Counters} {clock : List Int64}

theorem Fit.covered (h : c.Fit clock) {n : ℕ} {now : Int64} (hn : clock[n]? = some now) :
    Representable now.toInt :=
  h.clock_covered now (List.mem_of_getElem? hn)

theorem idAfter_succ {n : ℕ} {now : Int64} (hn : clock[n]? = some now)
    (hroom : c.idAfter clock n < Int64.maxValue.toInt) :
    c.idAfter clock (n + 1) = max (c.idAfter clock n + 1) now.toInt := by
  unfold idAfter at *
  rw [after_take_succ c hn]
  exact toInt_nextId hroom now

theorem timeAfter_succ {n : ℕ} {now : Int64} (hn : clock[n]? = some now) :
    c.timeAfter clock (n + 1) = max (c.timeAfter clock n) now.toInt := by
  unfold timeAfter
  rw [after_take_succ c hn]
  exact toInt_max _ now

theorem idAfter_le (h : c.Fit clock) {n : ℕ} (hn : n ≤ clock.length) :
    c.idAfter clock n ≤ max c.lastId.toInt Calendar.latest + n := by
  induction n with
  | zero =>
    rw [idAfter_zero]
    omega
  | succ n ih =>
    have hprev := ih (by omega)
    have hroom := h.room
    obtain ⟨now, hnow⟩ : ∃ now, clock[n]? = some now := ⟨_, List.getElem?_eq_getElem (by omega)⟩
    have hcov := (h.covered hnow).2
    rw [idAfter_succ hnow (by omega)]
    push_cast
    omega

theorem idAfter_lt_maxValue (h : c.Fit clock) {n : ℕ} (hn : n < clock.length) :
    c.idAfter clock n < Int64.maxValue.toInt := by
  have hle := idAfter_le h (Nat.le_of_lt hn)
  have hroom := h.room
  omega

theorem exists_reading {n : ℕ} (hn : n < clock.length) : ∃ now, clock[n]? = some now :=
  ⟨_, List.getElem?_eq_getElem hn⟩

theorem isGreatest_idAfter (h : c.Fit clock) {n : ℕ} (hn : n ≤ clock.length) :
    IsGreatest (c.idBounds clock n) (c.idAfter clock n) := by
  induction n with
  | zero =>
    rw [idAfter_zero]
    refine ⟨Or.inl (by omega), ?_⟩
    rintro x (rfl | ⟨j, t, hj, -, -⟩)
    · omega
    · exact absurd hj (Nat.not_lt_zero j)
  | succ n ih =>
    obtain ⟨hmem, hub⟩ := ih (by omega)
    obtain ⟨now, hnow⟩ := exists_reading hn
    rw [idAfter_succ hnow (idAfter_lt_maxValue h hn)]
    constructor
    · rcases Int.le_total (c.idAfter clock n + 1) now.toInt with hle | hle
      · rw [max_eq_right hle]
        exact Or.inr ⟨n, now, Nat.lt_succ_self n, hnow, by push_cast; omega⟩
      · rw [max_eq_left hle]
        rcases hmem with he | ⟨j, t, hj, ht, he⟩
        · exact Or.inl (by push_cast; omega)
        · exact Or.inr ⟨j, t, Nat.lt_succ_of_lt hj, ht, by push_cast; omega⟩
    · rintro x (rfl | ⟨j, t, hj, ht, rfl⟩)
      · have hl := hub (Or.inl rfl)
        push_cast
        omega
      · obtain hlt | rfl : j < n ∨ j = n := by omega
        · have hr := hub (Or.inr ⟨j, t, hlt, ht, rfl⟩)
          push_cast
          omega
        · obtain rfl := Option.some.inj (hnow.symm.trans ht)
          push_cast
          omega

theorem isGreatest_timeAfter {n : ℕ} (hn : n ≤ clock.length) :
    IsGreatest (c.timeBounds clock n) (c.timeAfter clock n) := by
  induction n with
  | zero =>
    rw [timeAfter_zero]
    refine ⟨Or.inl rfl, ?_⟩
    rintro x (rfl | ⟨j, t, hj, -, -⟩)
    · exact le_refl _
    · exact absurd hj (Nat.not_lt_zero j)
  | succ n ih =>
    obtain ⟨hmem, hub⟩ := ih (by omega)
    obtain ⟨now, hnow⟩ := exists_reading hn
    rw [timeAfter_succ hnow]
    constructor
    · rcases Int.le_total (c.timeAfter clock n) now.toInt with hle | hle
      · rw [max_eq_right hle]
        exact Or.inr ⟨n, now, Nat.lt_succ_self n, hnow, rfl⟩
      · rw [max_eq_left hle]
        rcases hmem with he | ⟨j, t, hj, ht, he⟩
        · exact Or.inl he
        · exact Or.inr ⟨j, t, Nat.lt_succ_of_lt hj, ht, he⟩
    · rintro x (rfl | ⟨j, t, hj, ht, rfl⟩)
      · exact le_trans (hub (Or.inl rfl)) (le_max_left _ _)
      · obtain hlt | rfl : j < n ∨ j = n := by omega
        · exact le_trans (hub (Or.inr ⟨j, t, hlt, ht, rfl⟩)) (le_max_left _ _)
        · obtain rfl := Option.some.inj (hnow.symm.trans ht)
          exact le_max_right _ _

theorem idAfter_lt (h : c.Fit clock) {m n : ℕ} (hmn : m < n) (hn : n ≤ clock.length) :
    c.idAfter clock m < c.idAfter clock n := by
  induction n with
  | zero => exact absurd hmn (Nat.not_lt_zero m)
  | succ n ih =>
    obtain ⟨now, hnow⟩ := exists_reading hn
    rw [idAfter_succ hnow (idAfter_lt_maxValue h hn)]
    obtain hlt | rfl : m < n ∨ m = n := by omega
    · have hprev := ih hlt (by omega)
      omega
    · omega

theorem timeAfter_le {m n : ℕ} (hmn : m ≤ n) (hn : n ≤ clock.length) :
    c.timeAfter clock m ≤ c.timeAfter clock n := by
  induction n with
  | zero => rw [Nat.le_zero.1 hmn]
  | succ n ih =>
    obtain ⟨now, hnow⟩ := exists_reading hn
    obtain hle | rfl : m ≤ n ∨ m = n + 1 := by omega
    · rw [timeAfter_succ hnow]
      exact le_trans (ih hle (by omega)) (le_max_left _ _)
    · exact le_refl _

theorem timeAfter_le_idAfter (h : c.Fit clock) {n : ℕ} (hn : n ≤ clock.length) :
    c.timeAfter clock n ≤ c.idAfter clock n := by
  induction n with
  | zero =>
    rw [timeAfter_zero, idAfter_zero]
    exact h.time_le_id
  | succ n ih =>
    obtain ⟨now, hnow⟩ := exists_reading hn
    have hprev := ih (by omega)
    rw [idAfter_succ hnow (idAfter_lt_maxValue h hn), timeAfter_succ hnow]
    omega

theorem timeAfter_covered (h : c.Fit clock) {n : ℕ} (hn : n ≤ clock.length) :
    Representable (c.timeAfter clock n) := by
  rcases (isGreatest_timeAfter hn).1 with he | ⟨j, t, -, ht, he⟩
  · rw [he]
    exact h.time_covered
  · rw [he]
    exact h.covered ht

theorem admissible_idAfter (h : c.Fit clock) : c.Admissible clock (c.idAfter clock) where
  above n hpos hn := by
    rw [← idAfter_zero c clock]
    exact idAfter_lt h hpos hn
  reading n t ht := by
    obtain ⟨hlt, -⟩ := List.getElem?_eq_some_iff.1 ht
    rw [idAfter_succ ht (idAfter_lt_maxValue h hlt)]
    exact le_max_right _ _
  strict _ _ _ hmn hn := idAfter_lt h hmn hn

theorem Admissible.add_le {w : ℕ → ℤ} (h : c.Admissible clock w) {m n : ℕ} (hm : 0 < m)
    (hmn : m ≤ n) (hn : n ≤ clock.length) : w m + (n - m) ≤ w n := by
  induction n with
  | zero => omega
  | succ n ih =>
    obtain hle | rfl : m ≤ n ∨ m = n + 1 := by omega
    · have hprev := ih hle (by omega)
      have hstep := h.strict n (n + 1) (by omega) (Nat.lt_succ_self n) hn
      push_cast
      omega
    · omega

theorem Admissible.idAfter_le {w : ℕ → ℤ} (hw : c.Admissible clock w) (h : c.Fit clock) {n : ℕ}
    (hpos : 0 < n) (hn : n ≤ clock.length) : c.idAfter clock n ≤ w n := by
  rcases (isGreatest_idAfter h hn).1 with he | ⟨j, t, hj, ht, he⟩
  · have hfirst := hw.above 1 Nat.one_pos (by omega)
    have hrest := hw.add_le Nat.one_pos hpos hn
    push_cast at hrest
    omega
  · have hfirst := hw.reading j t ht
    have hrest := hw.add_le (m := j + 1) (by omega) hj hn
    push_cast at hrest
    omega

end Run

/-- What a run of calls gives out: the number and the time of each call, the first at one. -/
structure Issues (c : Counters) (clock : List Int64) (ids times : ℕ → ℤ) : Prop where
  /-- There is room for one more number before every call. -/
  no_overflow : ∀ n < clock.length,
    (c.after (clock.take n)).lastId.toInt + 1 ≤ Int64.maxValue.toInt
  id_greatest : ∀ n < clock.length, IsGreatest (c.idBounds clock (n + 1)) (ids (n + 1))
  time_greatest : ∀ n < clock.length, IsGreatest (c.timeBounds clock (n + 1)) (times (n + 1))
  /-- The text of every time is the calendar's, never that of another reading. -/
  stamp : ∀ n < clock.length, ∃ text, Calendar.timestamp? (times (n + 1)) = some text ∧
    (∀ ms, Denotes text ms ↔ ms = times (n + 1)) ∧
    (c.stamps clock)[n]? = some ⟨"rs-" ++ signedText (ids (n + 1)), text⟩
  one_each : (c.stamps clock).length = clock.length
  admissible : c.Admissible clock ids
  least : ∀ w, c.Admissible clock w → ∀ n < clock.length, ids (n + 1) ≤ w (n + 1)
  ids_distinct : ((c.stamps clock).map Stamp.id).Nodup
  times_mono : ∀ m n, m ≤ n → n ≤ clock.length → times m ≤ times n
  time_le_id : ∀ n ≤ clock.length, times n ≤ ids n
  /-- The counters stand in order again. -/
  order : 0 ≤ (c.after clock).lastTime.toInt ∧
    (c.after clock).lastTime.toInt ≤ (c.after clock).lastId.toInt ∧
    Representable (c.after clock).lastTime.toInt

theorem stampAt_eq (c : Counters) (now : Int64) {text : String}
    (h : Calendar.timestamp? (c.stampAt now).2.lastTime.toInt = some text) :
    (c.stampAt now).1 = ⟨"rs-" ++ signedText (c.stampAt now).2.lastId.toInt, text⟩ := by
  have htext : Stamp.timeText now.toInt (max c.lastTime now) = text := by
    rw [Stamp.timeText, show Calendar.timestamp? (max c.lastTime now).toInt = some text from h]
  rw [stampAt, htext]
  rfl

theorem stamp_of_fit {c : Counters} {clock : List Int64} (h : c.Fit clock) {n : ℕ}
    (hn : n < clock.length) : ∃ text, Calendar.timestamp? (c.timeAfter clock (n + 1)) = some text ∧
      (c.stamps clock)[n]? = some ⟨"rs-" ++ signedText (c.idAfter clock (n + 1)), text⟩ := by
  obtain ⟨now, hnow⟩ := exists_reading hn
  obtain ⟨text, htext⟩ : ∃ text, Calendar.timestamp? (c.timeAfter clock (n + 1)) = some text :=
    ⟨_, if_pos (timeAfter_covered h hn)⟩
  refine ⟨text, htext, ?_⟩
  rw [getElem?_stamps, hnow, Option.map_some]
  unfold timeAfter idAfter at *
  rw [after_take_succ c hnow] at htext ⊢
  rw [stampAt_eq _ now htext]

theorem id_getElem? {c : Counters} {clock : List Int64} (h : c.Fit clock) {n : ℕ}
    (hn : n < clock.length) : ((c.stamps clock).map Stamp.id)[n]? =
      some ("rs-" ++ signedText (c.idAfter clock (n + 1))) := by
  obtain ⟨text, -, hs⟩ := stamp_of_fit h hn
  rw [List.getElem?_map, hs, Option.map_some]

theorem nodup_ids {c : Counters} {clock : List Int64} (h : c.Fit clock) :
    ((c.stamps clock).map Stamp.id).Nodup := by
  rw [List.nodup_iff_getElem?_ne_getElem?]
  intro i j hij hj he
  rw [List.length_map, length_stamps] at hj
  rw [id_getElem? h (by omega), id_getElem? h hj] at he
  have hv := signedText_injective ((String.append_right_inj _).1 (Option.some.inj he))
  have hlt := idAfter_lt h (m := i + 1) (n := j + 1) (by omega) (by omega)
  omega

/-- Every run that has room gives out the least numbers and the latest times. -/
theorem issues_of_fit {c : Counters} {clock : List Int64} (h : c.Fit clock) :
    ∃ ids times, c.Issues clock ids times := by
  have hall : c.after clock = c.after (clock.take clock.length) := by rw [List.take_length]
  have hlast : 0 ≤ c.timeAfter clock clock.length := by
    have hmono : c.timeAfter clock 0 ≤ c.timeAfter clock clock.length :=
      timeAfter_le (Nat.zero_le clock.length) (Nat.le_refl _)
    rw [timeAfter_zero] at hmono
    exact le_trans h.time_nonneg hmono
  refine ⟨c.idAfter clock, c.timeAfter clock, ?_⟩
  refine {
    no_overflow := fun n hn => idAfter_lt_maxValue h hn
    id_greatest := fun n hn => isGreatest_idAfter h hn
    time_greatest := fun n hn => isGreatest_timeAfter hn
    stamp := fun n hn => ?_
    one_each := length_stamps c clock
    admissible := admissible_idAfter h
    least := fun w hw n hn => hw.idAfter_le h (Nat.succ_pos n) hn
    ids_distinct := nodup_ids h
    times_mono := fun m n hmn hn => timeAfter_le hmn hn
    time_le_id := fun n hn => timeAfter_le_idAfter h hn
    order := ?_ }
  · obtain ⟨text, htext, hs⟩ := stamp_of_fit h hn
    have hd := Calendar.denotes_timestamp htext
    exact ⟨text, htext, fun ms => ⟨fun hm => hm.unique hd, fun he => he ▸ hd⟩, hs⟩
  · rw [hall]
    exact ⟨hlast, timeAfter_le_idAfter h (Nat.le_refl _), timeAfter_covered h (Nat.le_refl _)⟩

theorem issues_of_fit_stepping_back :
    Fit .initial [1735689600000, 1735689600000, 1735689595000, -5] ∧
    ∃ ids times,
      Issues .initial [1735689600000, 1735689600000, 1735689595000, -5] ids times := by
  have hclock : ∀ t ∈ ([1735689600000, 1735689600000, 1735689595000, -5] : List Int64),
      Representable t.toInt := by
    intro t ht
    simp only [List.mem_cons, List.not_mem_nil, or_false] at ht
    rcases ht with rfl | rfl | rfl | rfl <;> decide
  have hfit : Fit .initial [1735689600000, 1735689600000, 1735689595000, -5] :=
    ⟨by decide, by decide, by decide, hclock, by decide⟩
  exact ⟨hfit, issues_of_fit hfit⟩

end EventPost.Counters
