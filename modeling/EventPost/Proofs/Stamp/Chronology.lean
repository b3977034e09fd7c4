import EventPost.Proofs.Calendar.Order
import EventPost.Proofs.Stamp.Run

/-!
The times of stamps as texts. Each text shows the fields of one instant, and that instant is the
time. Within the years of four digits later times have later texts, so the texts of a run never go
back, whatever the clock does.
-/

namespace EventPost

namespace Calendar

/-- The instant lies `ms` milliseconds after the start of 1970. -/
def Instant.Marks (t : Instant) (ms : Int) : Prop :=
  ∃ day, Falls t.date day ∧
    ms = day * msPerDay + (((t.hour * 60 + t.minute) * 60 + t.second) * 1000 + t.milli : Nat)

def yearOf (ms : Int) : Int := (Instant.ofMs ms).date.year

theorem marks_iff {t : Instant} (h : t.Valid) {ms : Int} : t.Marks ms ↔ ms = t.toMs := by
  constructor
  · rintro ⟨day, hday, rfl⟩
    rw [Instant.toMs, (falls_iff.1 hday).2]
  · rintro rfl
    exact ⟨t.date.toDay, falls_iff.2 ⟨h.date, rfl⟩, rfl⟩

theorem yearOf_mono {a b : Int} (h : a ≤ b) : yearOf a ≤ yearOf b := by
  refine Int.not_lt.1 fun hlt => ?_
  have hbefore : (Instant.ofMs b).Before (Instant.ofMs a) := .inl (.inl hlt)
  have hms := toMs_lt_of_before (valid_ofMs b) (valid_ofMs a) hbefore
  rw [toMs_ofMs, toMs_ofMs] at hms
  omega

def fiveDigits : Int := 253402300800000

theorem yearOf_le_iff {ms : Int} : yearOf ms ≤ 9999 ↔ ms < fiveDigits := by
  have hlast : yearOf (fiveDigits - 1) = 9999 := by decide
  have hfirst : yearOf fiveDigits = 10000 := by decide
  constructor
  · intro h
    refine Int.not_le.1 fun hle => ?_
    have hmono := yearOf_mono hle
    omega
  · intro h
    have hmono := yearOf_mono (Int.le_sub_one_of_lt h)
    omega

theorem yearOf_nonneg {ms : Int} (h : 0 ≤ ms) : 0 ≤ yearOf ms := by
  have hepoch : yearOf 0 = 1970 := by decide
  have hmono := yearOf_mono h
  omega

theorem representable_of_yearOf_le {ms : Int} (hpos : 0 ≤ ms) (h : yearOf ms ≤ 9999) :
    Representable ms := by
  have hlt := yearOf_le_iff.1 h
  unfold fiveDigits at hlt
  unfold Representable earliest latest
  omega

end Calendar

open Calendar

theorem Stamp.timeText_eq (fallback : Int) {ms : Int64} (h : Representable ms.toInt) :
    timeText fallback ms = String.ofList (Instant.ofMs ms.toInt).write := by
  rw [timeText, timestamp?, if_pos h]

theorem Stamp.timeText_lt_iff (f g : Int) {a b : Int64} (ha : Representable a.toInt)
    (hb : Representable b.toInt) (hya : 0 ≤ yearOf a.toInt ∧ yearOf a.toInt ≤ 9999)
    (hyb : 0 ≤ yearOf b.toInt ∧ yearOf b.toInt ≤ 9999) :
    timeText f a < timeText g b ↔ a.toInt < b.toInt := by
  rw [timeText_eq f ha, timeText_eq g hb]
  change (String.ofList _).toList < (String.ofList _).toList ↔ _
  rw [String.toList_ofList, String.toList_ofList, write_lt_iff (valid_ofMs _) (valid_ofMs _) hya hyb,
    before_iff (valid_ofMs _) (valid_ofMs _), toMs_ofMs, toMs_ofMs]

namespace Counters

/-- The counters and the clock stay within the years of four digits. -/
structure Near (c : Counters) (clock : List Int64) : Prop where
  time_nonneg : 0 ≤ c.lastTime.toInt
  time_near : yearOf c.lastTime.toInt ≤ 9999
  clock_near : ∀ t ∈ clock, yearOf t.toInt ≤ 9999

theorem Near.next {c : Counters} {now : Int64} {rest : List Int64} (h : c.Near (now :: rest)) :
    (c.stampAt now).2.Near rest := by
  have hmax : (c.stampAt now).2.lastTime.toInt = max c.lastTime.toInt now.toInt := toInt_max _ _
  refine ⟨?_, ?_, fun t ht => h.clock_near t (List.mem_cons_of_mem now ht)⟩
  · rw [hmax]
    exact le_max_of_le_left h.time_nonneg
  · rw [hmax]
    rcases max_choice c.lastTime.toInt now.toInt with he | he
    · rw [he]
      exact h.time_near
    · rw [he]
      exact h.clock_near now List.mem_cons_self

theorem exists_time_of_mem_stamps {c : Counters} {clock : List Int64} (h : c.Near clock) {s : Stamp}
    (hs : s ∈ c.stamps clock) : ∃ f t, s.timestamp = Stamp.timeText f t ∧
      c.lastTime.toInt ≤ t.toInt ∧ yearOf t.toInt ≤ 9999 := by
  induction clock generalizing c with
  | nil => exact absurd hs List.not_mem_nil
  | cons now rest ih =>
    have hmax : (c.stampAt now).2.lastTime.toInt = max c.lastTime.toInt now.toInt := toInt_max _ _
    rcases List.mem_cons.1 hs with rfl | hs
    · refine ⟨now.toInt, (c.stampAt now).2.lastTime, rfl, ?_, h.next.time_near⟩
      rw [hmax]
      exact le_max_left _ _
    · obtain ⟨f, t, htext, hle, hyear⟩ := ih h.next hs
      rw [hmax] at hle
      exact ⟨f, t, htext, le_trans (le_max_left _ _) hle, hyear⟩

theorem pairwise_timestamps {c : Counters} {clock : List Int64} (h : c.Near clock) :
    ((c.stamps clock).map Stamp.timestamp).Pairwise (· ≤ ·) := by
  induction clock generalizing c with
  | nil => exact .nil
  | cons now rest ih =>
    have hnext := h.next
    refine List.pairwise_cons.2 ⟨fun text htext => ?_, ih hnext⟩
    obtain ⟨s, hs, rfl⟩ := List.mem_map.1 htext
    obtain ⟨f, t, htime, hle, hyear⟩ := exists_time_of_mem_stamps hnext hs
    have hfirst := hnext.time_nonneg
    have hlast := le_trans hfirst hle
    -- Were the later text smaller, its time would lie before the last one given out.
    refine String.not_lt.1 fun hlt => ?_
    rw [htime] at hlt
    have hback := (Stamp.timeText_lt_iff f now.toInt (representable_of_yearOf_le hlast hyear)
      (representable_of_yearOf_le hfirst hnext.time_near) ⟨yearOf_nonneg hlast, hyear⟩
      ⟨yearOf_nonneg hfirst, hnext.time_near⟩).1 hlt
    omega

end Counters

/-- Every time has a text of the form `YEAR-MM-DDTHH:MM:SS.mmmZ` whose fields are those of an
instant that exists, and of no other time; texts are in the order of times while years have four
digits, over any run too. -/
theorem Stamp.timeText_faithful :
    (∀ (fallback : Int) (ms : Int64), Representable ms.toInt →
      ∃ t : Instant, t.Valid ∧ Shows (timeText fallback ms).toList t ∧
        ∀ u n, Shows (timeText fallback ms).toList u → (u.Marks n ↔ n = ms.toInt)) ∧
    (∀ (f g : Int) (a b : Int64), Representable a.toInt → Representable b.toInt →
      timeText f a = timeText g b → a = b) ∧
    (∀ (f g : Int) (a b : Int64), Representable a.toInt → Representable b.toInt →
      (0 ≤ yearOf a.toInt ∧ yearOf a.toInt ≤ 9999) → (0 ≤ yearOf b.toInt ∧ yearOf b.toInt ≤ 9999) →
      ((timeText f a < timeText g b ↔ a.toInt < b.toInt) ∧
        (timeText f a ≤ timeText g b ↔ a.toInt ≤ b.toInt))) ∧
    ∀ (c : Counters) (clock : List Int64), c.Near clock →
      ((c.stamps clock).map Stamp.timestamp).Pairwise (· ≤ ·) := by
  refine ⟨fun fallback ms h => ?_, fun f g a b ha hb he => ?_, fun f g a b ha hb hya hyb => ?_,
    fun c clock => Counters.pairwise_timestamps⟩
  · have hshows := shows_write (valid_ofMs ms.toInt)
    rw [timeText_eq fallback h, String.toList_ofList]
    refine ⟨Instant.ofMs ms.toInt, valid_ofMs _, hshows, fun u n hu => ?_⟩
    rw [hu.unique hshows, marks_iff (valid_ofMs _), toMs_ofMs]
  · rw [timeText_eq f ha, timeText_eq g hb] at he
    have hinstant := write_injective (valid_ofMs _) (valid_ofMs _) (String.ofList_injective he)
    have hms := congrArg Instant.toMs hinstant
    rw [toMs_ofMs, toMs_ofMs] at hms
    exact Int64.toInt_inj.1 hms
  · refine ⟨timeText_lt_iff f g ha hb hya hyb, ?_⟩
    rw [← String.not_lt, timeText_lt_iff g f hb ha hyb hya, Int.not_lt]

example : Stamp.timeText 0 1709210096007 = "2024-02-29T12:34:56.007Z" := by decide +kernel

end EventPost
