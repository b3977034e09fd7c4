import Mathlib.Data.Fintype.Card
import EventPost.Proofs.Stamp.Run
import EventPost.Stamp.Crowd

/-!
Interleavings of stamps. Every number is given out by the one exchange that stored it, and an
exchange takes the counter past all numbers given out before, so no two calls have the same one, and
a call that begins after another has ended is behind it in number and not before it in time. This
needs room: a call that would pass the largest number must stop, or the calls must be too few to get
there.
-/

namespace EventPost.Crowd

open Calendar (Representable)
open Numeral (signedText signedText_injective)

variable {n : ℕ} {o : Overflow} {clock : Fin n → Int64} {s t u : Crowd n} {m : Move n}
  {moves more : List (Move n)}

def id? (clock : Fin n → Int64) (s : Crowd n) (i : Fin n) : Option Int64 :=
  match s.phases i with
  | .idle | .trying _ => none
  | .replaced last => some (Stamp.nextId last (clock i))
  | .numbered id | .done id _ => some id

theorem next?_eq_some {last now id : Int64} : Stamp.next? o last now = some id ↔
    id = Stamp.nextId last now ∧ (o = .stops → last ≠ Int64.maxValue) := by
  unfold Stamp.next?
  split
  · rename_i h
    simp only [reduceCtorEq, false_iff, not_and]
    exact fun _ hne => hne h.1 h.2
  · rename_i h
    rw [Option.some.injEq, eq_comm]
    exact ⟨fun he => ⟨he, fun ho hm => h ⟨ho, hm⟩⟩, fun he => he.1⟩

theorem id?_put_self (s : Crowd n) (i : Fin n) (p : Phase) (c : Counters) :
    (s.put i p c).id? clock i = (⟨c, fun _ => p⟩ : Crowd n).id? clock i := by
  rw [id?, id?, put_self]

theorem id?_put_other (s : Crowd n) {i j : Fin n} (h : j ≠ i) (p : Phase) (c : Counters) :
    (s.put i p c).id? clock j = s.id? clock j := by
  rw [id?, id?, put_other s h]

theorem id?_of_done {i : Fin n} {id time : Int64} (h : s.phases i = .done id time) :
    s.id? clock i = some id := by
  rw [id?, h]

/-- A step keeps the numbers as they are, or it is an exchange, which gives its call a number. -/
inductive Gives (o : Overflow) (clock : Fin n → Int64) (s : Crowd n) (m : Move n) (t : Crowd n) :
    Prop
  | nothing : m.act ≠ .exchange → t.counters.lastId = s.counters.lastId →
    (∀ j, t.id? clock j = s.id? clock j) → Gives o clock s m t
  | number {id : Int64} : m.act = .exchange →
    Stamp.next? o s.counters.lastId (clock m.call) = some id → t.counters.lastId = id →
    s.id? clock m.call = none → t.id? clock m.call = some id →
    (∀ j, j ≠ m.call → t.id? clock j = s.id? clock j) → Gives o clock s m t

/-- A step keeps the time and the calls that are done, or it is the last step of its call. -/
inductive Ends (clock : Fin n → Int64) (s : Crowd n) (m : Move n) (t : Crowd n) : Prop
  | nothing : m.act ≠ .raise → t.counters.lastTime = s.counters.lastTime →
    (∀ j id time, t.phases j = .done id time ↔ s.phases j = .done id time) → Ends clock s m t
  | call {id : Int64} : m.act = .raise →
    t.counters.lastTime = max s.counters.lastTime (clock m.call) →
    (∀ id time, s.phases m.call ≠ .done id time) →
    t.phases m.call = .done id (max s.counters.lastTime (clock m.call)) →
    (∀ j, j ≠ m.call → t.phases j = s.phases j) → Ends clock s m t

theorem id?_put_same {i : Fin n} {p : Phase} {c : Counters}
    (h : (⟨c, fun _ => p⟩ : Crowd n).id? clock i = s.id? clock i) (j : Fin n) :
    (s.put i p c).id? clock j = s.id? clock j := by
  by_cases hj : j = i
  · rw [hj, id?_put_self, h]
  · exact id?_put_other s hj p c

theorem Step.gives (h : Step o clock s m t) : Gives o clock s m t := by
  cases h with
  | load hp => exact .nothing nofun rfl (id?_put_same (by rw [id?, id?, hp]))
  | retry hp _ => exact .nothing nofun rfl (id?_put_same (by rw [id?, id?, hp]))
  | number hp hnext =>
    have hid := (next?_eq_some.1 hnext).1
    exact .nothing nofun rfl (id?_put_same (by rw [id?, id?, hp, hid]))
  | raise hp => exact .nothing nofun rfl (id?_put_same (by rw [id?, id?, hp]))
  | @exchange i id hp hnext =>
    have hid := (next?_eq_some.1 hnext).1
    refine .number rfl hnext rfl ?_ ?_ ?_
    · rw [id?, hp]
    · rw [id?_put_self, id?, hid]
    · exact fun j hj => id?_put_other s hj _ _

theorem done_put_iff {i : Fin n} {p : Phase} {c : Counters}
    (hs : ∀ id time, s.phases i ≠ .done id time) (hp : ∀ id time, p ≠ .done id time) (j : Fin n)
    (id time : Int64) : (s.put i p c).phases j = .done id time ↔ s.phases j = .done id time := by
  by_cases hj : j = i
  · rw [hj, put_self]
    exact ⟨fun h => absurd h (hp id time), fun h => absurd h (hs id time)⟩
  · rw [put_other s hj]

theorem Step.ends (h : Step o clock s m t) : Ends clock s m t := by
  cases h with
  | load hp =>
    exact .nothing nofun rfl (done_put_iff (by rw [hp]; intros; nofun) (by intros; nofun))
  | exchange hp _ =>
    exact .nothing nofun rfl (done_put_iff (by rw [hp]; intros; nofun) (by intros; nofun))
  | retry hp _ =>
    exact .nothing nofun rfl (done_put_iff (by rw [hp]; intros; nofun) (by intros; nofun))
  | number hp _ =>
    exact .nothing nofun rfl (done_put_iff (by rw [hp]; intros; nofun) (by intros; nofun))
  | raise hp =>
    exact .call rfl rfl (by rw [hp]; intros; nofun) (put_self _ _ _ _)
      fun j hj => put_other s hj _ _

theorem Step.phases_other (h : Step o clock s m t) {j : Fin n} (hj : j ≠ m.call) :
    t.phases j = s.phases j := by
  cases h with
  | load | exchange | retry | number | raise => exact put_other s hj _ _

def given (clock : Fin n → Int64) (s : Crowd n) : Finset (Fin n) :=
  Finset.univ.filter fun i => (s.id? clock i).isSome

theorem mem_given {i : Fin n} : i ∈ s.given clock ↔ (s.id? clock i).isSome = true := by
  rw [given, Finset.mem_filter]
  exact ⟨fun h => h.2, fun h => ⟨Finset.mem_univ i, h⟩⟩

/-- The numbers that have been given are different, none of them is past the counter, and the counter
has moved one past the calendar's end for each of them at most. -/
structure IdsKept (clock : Fin n → Int64) (s : Crowd n) : Prop where
  distinct : ∀ i j id, s.id? clock i = some id → s.id? clock j = some id → i = j
  bounded : ∀ i id, s.id? clock i = some id → id.toInt ≤ s.counters.lastId.toInt
  reached : s.counters.lastId.toInt ≤ Calendar.latest + (s.given clock).card

structure TimesKept (s : Crowd n) : Prop where
  covered : Representable s.counters.lastTime.toInt
  given : ∀ i id time, s.phases i = .done id time →
    Representable time.toInt ∧ time.toInt ≤ s.counters.lastTime.toInt

structure Kept (clock : Fin n → Int64) (s : Crowd n) : Prop extends IdsKept clock s, TimesKept s

/-- What an interleaving of `n` calls may assume: the readings lie within the calendar, and if
numbers wrap around, there are too few calls to get there. -/
structure Fit (o : Overflow) (clock : Fin n → Int64) : Prop where
  clock_covered : ∀ i, Representable (clock i).toInt
  room : o = .wraps → Calendar.latest + n ≤ Int64.maxValue.toInt

theorem kept_start : Kept clock start where
  distinct _ _ _ h := nomatch h
  bounded _ _ h := nomatch h
  reached := by
    have hlast : (start : Crowd n).counters.lastId.toInt = 0 := rfl
    rw [hlast, Calendar.latest]
    omega
  covered := by
    change Representable 0
    decide
  given _ _ _ h := nomatch h

theorem toInt_of_exchange (h : Fit o clock) (hs : IdsKept clock s) {i : Fin n} {id : Int64}
    (hi : s.id? clock i = none) (hnext : Stamp.next? o s.counters.lastId (clock i) = some id) :
    id.toInt = max (s.counters.lastId.toInt + 1) (clock i).toInt := by
  obtain ⟨rfl, hstops⟩ := next?_eq_some.1 hnext
  apply Counters.toInt_nextId
  cases o with
  | stops =>
    have hne : s.counters.lastId.toInt ≠ Int64.maxValue.toInt :=
      fun he => hstops rfl (Int64.toInt_inj.1 he)
    have hle := s.counters.lastId.toInt_le
    have hmax : Int64.maxValue.toInt = 2 ^ 63 - 1 := rfl
    omega
  | wraps =>
    -- The call that makes the exchange is one of those that have no number yet.
    have hcard : (s.given clock).card < n := by
      have hlt : (s.given clock).card < (Finset.univ : Finset (Fin n)).card := by
        apply Finset.card_lt_card
        refine ⟨Finset.subset_univ _, fun hsub => ?_⟩
        have hmem := mem_given.1 (hsub (Finset.mem_univ i))
        rw [hi] at hmem
        exact nomatch hmem
      rwa [Finset.card_univ, Fintype.card_fin] at hlt
    have hroom := h.room rfl
    have hreached := hs.reached
    omega

theorem Gives.idsKept (h : Fit o clock) (hs : IdsKept clock s) (hg : Gives o clock s m t) :
    IdsKept clock t := by
  cases hg with
  | nothing _ hlast hids =>
    have hgiven : t.given clock = s.given clock := by
      ext i
      rw [mem_given, mem_given, hids i]
    refine ⟨fun i j id hi hj => ?_, fun i id hi => ?_, ?_⟩
    · rw [hids] at hi hj
      exact hs.distinct i j id hi hj
    · rw [hids] at hi
      rw [hlast]
      exact hs.bounded i id hi
    · rw [hlast, hgiven]
      exact hs.reached
  | @number id _ hnext hlast hnone hsome hothers =>
    have hid := toInt_of_exchange h hs hnone hnext
    -- A number that was given before is not past the old counter.
    have hbefore : ∀ j, j ≠ m.call → ∀ v, t.id? clock j = some v → v.toInt < id.toInt := by
      intro j hj v hv
      rw [hothers j hj] at hv
      have hle := hs.bounded j v hv
      omega
    refine ⟨?_, ?_, ?_⟩
    · intro i j v hi hj
      by_cases hic : i = m.call
      · by_cases hjc : j = m.call
        · rw [hic, hjc]
        · rw [hic, hsome] at hi
          have hlt := hbefore j hjc v hj
          rw [Option.some.inj hi] at hlt
          exact absurd hlt (Int.lt_irrefl _)
      · by_cases hjc : j = m.call
        · rw [hjc, hsome] at hj
          have hlt := hbefore i hic v hi
          rw [Option.some.inj hj] at hlt
          exact absurd hlt (Int.lt_irrefl _)
        · rw [hothers i hic] at hi
          rw [hothers j hjc] at hj
          exact hs.distinct i j v hi hj
    · intro i v hi
      rw [hlast]
      by_cases hic : i = m.call
      · rw [hic, hsome] at hi
        rw [Option.some.inj hi]
      · exact Int.le_of_lt (hbefore i hic v hi)
    · have hgiven : t.given clock = insert m.call (s.given clock) := by
        ext i
        rw [Finset.mem_insert, mem_given, mem_given]
        by_cases hic : i = m.call
        · rw [hic, hsome]
          exact ⟨fun _ => .inl rfl, fun _ => rfl⟩
        · rw [hothers i hic]
          exact ⟨.inr, fun hm => hm.resolve_left hic⟩
      have hnew : m.call ∉ s.given clock := by
        rw [mem_given, hnone]
        exact Bool.false_ne_true
      have hclock := (h.clock_covered m.call).2
      have hreached := hs.reached
      rw [hlast, hgiven, Finset.card_insert_of_notMem hnew]
      push_cast
      omega

theorem Ends.timesKept (h : Fit o clock) (hs : TimesKept s) (he : Ends clock s m t) :
    TimesKept t := by
  cases he with
  | nothing _ htime hdone =>
    refine ⟨by rw [htime]; exact hs.covered, fun i id time hi => ?_⟩
    rw [htime]
    exact hs.given i id time ((hdone i id time).1 hi)
  | call _ htime _ hdone hothers =>
    have hcovered := hs.covered
    have hclock := h.clock_covered m.call
    have hmax := Counters.toInt_max s.counters.lastTime (clock m.call)
    unfold Representable at *
    refine ⟨by rw [htime]; omega, fun i id time hi => ?_⟩
    rw [htime]
    by_cases hic : i = m.call
    · rw [hic, hdone] at hi
      rw [← (Phase.done.inj hi).2]
      omega
    · rw [hothers i hic] at hi
      have hgiven := hs.given i id time hi
      unfold Representable at hgiven
      omega

theorem Step.kept (h : Fit o clock) (hs : Kept clock s) (hstep : Step o clock s m t) :
    Kept clock t :=
  ⟨hstep.gives.idsKept h hs.toIdsKept, hstep.ends.timesKept h hs.toTimesKept⟩

theorem Steps.kept (h : Fit o clock) (hs : Kept clock s) (hsteps : Steps o clock s moves t) :
    Kept clock t := by
  induction hsteps with
  | nil => exact hs
  | snoc _ hstep ih => exact hstep.kept h ih

/-- What comes later: the counters have not gone back, numbers and times that have been given stay,
and those given since are behind the counters of before. -/
structure Later (clock : Fin n → Int64) (s t : Crowd n) : Prop where
  id_le : s.counters.lastId.toInt ≤ t.counters.lastId.toInt
  time_le : s.counters.lastTime.toInt ≤ t.counters.lastTime.toInt
  id_kept : ∀ i id, s.id? clock i = some id → t.id? clock i = some id
  done_kept : ∀ i id time, s.phases i = .done id time → t.phases i = .done id time
  id_new : ∀ i id, s.id? clock i = none → t.id? clock i = some id →
    s.counters.lastId.toInt < id.toInt
  time_new : ∀ i id time, (∀ id time, s.phases i ≠ .done id time) → t.phases i = .done id time →
    s.counters.lastTime.toInt ≤ time.toInt

theorem Later.refl (clock : Fin n → Int64) (s : Crowd n) : Later clock s s where
  id_le := Int.le_refl _
  time_le := Int.le_refl _
  id_kept _ _ h := h
  done_kept _ _ _ h := h
  id_new _ _ hnone hsome := by
    rw [hnone] at hsome
    exact nomatch hsome
  time_new _ _ _ hnot hdone := absurd hdone (hnot _ _)

theorem Later.trans (h : Later clock s t) (h' : Later clock t u) : Later clock s u where
  id_le := Int.le_trans h.id_le h'.id_le
  time_le := Int.le_trans h.time_le h'.time_le
  id_kept i id hi := h'.id_kept i id (h.id_kept i id hi)
  done_kept i id time hi := h'.done_kept i id time (h.done_kept i id time hi)
  id_new i id hnone hsome := by
    cases hmid : t.id? clock i with
    | none => exact Int.lt_of_le_of_lt h.id_le (h'.id_new i id hmid hsome)
    | some v =>
      -- A number that is given in between is the one at the end.
      have hv := h'.id_kept i v hmid
      rw [hsome] at hv
      rw [Option.some.inj hv]
      exact h.id_new i v hnone hmid
  time_new i id time hnot hdone := by
    by_cases hmid : ∃ id time, t.phases i = .done id time
    · obtain ⟨id', time', hmid⟩ := hmid
      have hv := h'.done_kept i id' time' hmid
      rw [hdone] at hv
      obtain ⟨rfl, rfl⟩ := Phase.done.inj hv
      exact h.time_new i id time hnot hmid
    · have hnone : ∀ id time, t.phases i ≠ .done id time :=
        fun id time hd => hmid ⟨id, time, hd⟩
      exact Int.le_trans h.time_le (h'.time_new i id time hnone hdone)

theorem Step.later (h : Fit o clock) (hs : Kept clock s) (hstep : Step o clock s m t) :
    Later clock s t := by
  obtain ⟨hidle, hidkept, hidnew⟩ : s.counters.lastId.toInt ≤ t.counters.lastId.toInt ∧
      (∀ i id, s.id? clock i = some id → t.id? clock i = some id) ∧
      ∀ i id, s.id? clock i = none → t.id? clock i = some id →
        s.counters.lastId.toInt < id.toInt := by
    cases hstep.gives with
    | nothing _ hlast hids =>
      refine ⟨by rw [hlast], fun i id hi => by rw [hids, hi], fun i id hnone hsome => ?_⟩
      rw [hids, hnone] at hsome
      exact nomatch hsome
    | @number id _ hnext hlast hnone hsome hothers =>
      have hid := toInt_of_exchange h hs.toIdsKept hnone hnext
      refine ⟨by rw [hlast]; omega, fun i v hi => ?_, fun i v hi hv => ?_⟩
      · have hic : i ≠ m.call := by
          rintro rfl
          rw [hnone] at hi
          exact nomatch hi
        rw [hothers i hic, hi]
      · by_cases hic : i = m.call
        · rw [hic, hsome] at hv
          rw [← Option.some.inj hv]
          omega
        · rw [hothers i hic, hi] at hv
          exact nomatch hv
  cases hstep.ends with
  | nothing _ htime hdone =>
    refine ⟨hidle, by rw [htime], hidkept, fun i id time hi => (hdone i id time).2 hi, hidnew, ?_⟩
    intro i id time hnot hi
    exact absurd ((hdone i id time).1 hi) (hnot id time)
  | @call id _ htime hnot hdone hothers =>
    have hmax := Counters.toInt_max s.counters.lastTime (clock m.call)
    refine ⟨hidle, by rw [htime]; omega, hidkept, fun i v time hi => ?_, hidnew, ?_⟩
    · have hic : i ≠ m.call := by
        rintro rfl
        exact hnot v time hi
      rw [hothers i hic, hi]
    · intro i v time hnone hi
      by_cases hic : i = m.call
      · rw [hic, hdone] at hi
        rw [← (Phase.done.inj hi).2]
        omega
      · rw [hothers i hic] at hi
        exact absurd hi (hnone v time)

theorem Steps.later (h : Fit o clock) (hs : Kept clock s) (hsteps : Steps o clock s moves t) :
    Later clock s t := by
  induction hsteps with
  | nil => exact .refl clock s
  | snoc hsteps hstep ih => exact ih.trans (hstep.later h (hsteps.kept h hs))

theorem Steps.split {before after : List (Move n)}
    (h : Steps o clock s (before ++ after) u) :
    ∃ t, Steps o clock s before t ∧ Steps o clock t after u := by
  -- The last move is one of the second part, unless that is empty.
  generalize hm : before ++ after = all at h
  induction h generalizing after with
  | nil =>
    obtain ⟨rfl, rfl⟩ := List.append_eq_nil_iff.1 hm
    exact ⟨_, .nil, .nil⟩
  | @snoc v w moves m hsteps hstep ih =>
    rcases List.eq_nil_or_concat after with rfl | ⟨rest, last, rfl⟩
    · rw [List.append_nil] at hm
      subst hm
      exact ⟨w, .snoc hsteps hstep, .nil⟩
    · rw [List.concat_eq_append, ← List.append_assoc] at hm
      obtain ⟨hrest, hlast⟩ := List.append_inj' hm rfl
      obtain ⟨t, hbefore, hafter⟩ := ih hrest
      obtain rfl := List.singleton_inj.1 hlast
      exact ⟨t, hbefore, by rw [List.concat_eq_append]; exact .snoc hafter hstep⟩

theorem Steps.phases_of_unmoved (h : Steps o clock s moves t) {j : Fin n}
    (hj : ∀ m ∈ moves, m.call ≠ j) : t.phases j = s.phases j := by
  induction h with
  | nil => rfl
  | snoc _ hstep ih =>
    rw [hstep.phases_other (hj _ (List.mem_append_right _ List.mem_cons_self)).symm]
    exact ih fun m hm => hj m (List.mem_append_left _ hm)

theorem Steps.done_of_raise (h : Fit o clock) (hs : Kept clock s)
    (hsteps : Steps o clock s moves t) {i : Fin n} (hi : ⟨i, .raise⟩ ∈ moves) :
    ∃ id time, t.phases i = .done id time := by
  induction hsteps with
  | nil => exact absurd hi List.not_mem_nil
  | @snoc v w moves m hsteps hstep ih =>
    rcases List.mem_append.1 hi with hi | hi
    · obtain ⟨id, time, hdone⟩ := ih hi
      exact ⟨id, time, (hstep.later h (hsteps.kept h hs)).done_kept i id time hdone⟩
    · obtain rfl := List.mem_singleton.1 hi
      cases hstep with
      | raise => exact ⟨_, _, put_self _ _ _ _⟩

/-- Among the moves there is one exchange of the call, and what it stored is the number. -/
def Stored (o : Overflow) (clock : Fin n → Int64) (s : Crowd n) (moves : List (Move n)) (i : Fin n)
    (id : Int64) : Prop :=
  ∃ before after u, moves = before ++ ⟨i, .exchange⟩ :: after ∧ ⟨i, .exchange⟩ ∉ before ∧
    ⟨i, .exchange⟩ ∉ after ∧ Steps o clock s (before ++ [⟨i, .exchange⟩]) u ∧
    u.counters.lastId = id

theorem Stored.snoc {i : Fin n} {id : Int64} (h : Stored o clock s moves i id)
    (hm : m ≠ ⟨i, .exchange⟩) : Stored o clock s (moves ++ [m]) i id := by
  obtain ⟨before, after, u, rfl, hbefore, hafter, hu, hid⟩ := h
  refine ⟨before, after ++ [m], u, by rw [List.append_assoc, List.cons_append], hbefore, ?_, hu, hid⟩
  intro hi
  rcases List.mem_append.1 hi with hi | hi
  · exact hafter hi
  · exact hm (List.mem_singleton.1 hi).symm

theorem Steps.stored {i : Fin n} (hs : s.id? clock i = none) (hsteps : Steps o clock s moves t) :
    (t.id? clock i = none → ⟨i, .exchange⟩ ∉ moves) ∧
      ∀ id, t.id? clock i = some id → Stored o clock s moves i id := by
  -- Only a call without a number makes an exchange, and has one then, so there is no second.
  induction hsteps with
  | nil =>
    refine ⟨fun _ => List.not_mem_nil, fun id hid => ?_⟩
    rw [hs] at hid
    exact nomatch hid
  | @snoc v w moves m hsteps hstep ih =>
    obtain ⟨hnone, hsome⟩ := ih
    have hquiet : m ≠ ⟨i, .exchange⟩ → w.id? clock i = v.id? clock i →
        (w.id? clock i = none → ⟨i, .exchange⟩ ∉ moves ++ [m]) ∧
          ∀ id, w.id? clock i = some id → Stored o clock s (moves ++ [m]) i id := by
      intro hm hsame
      rw [hsame]
      refine ⟨fun hv hi => ?_, fun id hv => (hsome id hv).snoc hm⟩
      rcases List.mem_append.1 hi with hi | hi
      · exact hnone hv hi
      · exact hm (List.mem_singleton.1 hi).symm
    cases hstep.gives with
    | nothing hact _ hids => exact hquiet (fun hm => hact (by rw [hm])) (hids i)
    | @number id hact _ hlast hbefore hgiven hothers =>
      by_cases hi : i = m.call
      · obtain ⟨call, act⟩ := m
        obtain rfl : i = call := hi
        obtain rfl : act = .exchange := hact
        refine ⟨fun hw => ?_, fun id' hw => ?_⟩
        · rw [hgiven] at hw
          exact nomatch hw
        · rw [hgiven] at hw
          exact ⟨moves, [], w, rfl, hnone hbefore, List.not_mem_nil, .snoc hsteps hstep,
            hlast.trans (Option.some.inj hw)⟩
      · exact hquiet (fun hm => hi (by rw [hm])) (hothers i hi)

/-- One call has ended before another makes its first step. -/
def Precedes (moves : List (Move n)) (i j : Fin n) : Prop :=
  ∃ before after, moves = before ++ after ∧ ⟨i, .raise⟩ ∈ before ∧ ∀ m ∈ before, m.call ≠ j

theorem Precedes.trans {i j k : Fin n} (hij : Precedes moves i j) (hjk : Precedes moves j k) :
    Precedes moves i k := by
  obtain ⟨before, after, hmoves, hi, hj⟩ := hij
  obtain ⟨before', after', hmoves', hj', hk⟩ := hjk
  refine ⟨before', after', hmoves', ?_, hk⟩
  -- The second call makes a step in the longer of the two beginnings only.
  have hprefix : before <+: before' := by
    rcases List.prefix_or_prefix_of_prefix ⟨after, hmoves.symm⟩ ⟨after', hmoves'.symm⟩ with h | h
    · exact h
    · exact absurd rfl (hj _ (h.subset hj'))
  exact hprefix.subset hi

instance : Trans (Precedes moves) (Precedes moves) (Precedes moves) := ⟨Precedes.trans⟩

def InOrder (s : Crowd n) (i j : Fin n) : Prop :=
  ∀ id time id' time', s.phases i = .done id time → s.phases j = .done id' time' →
    id < id' ∧ time ≤ time'

structure Orderly (o : Overflow) (clock : Fin n → Int64) (moves : List (Move n)) (s : Crowd n) :
    Prop where
  distinct : ∀ i j, i ≠ j → ∀ a b, s.stamp? clock i = some a → s.stamp? clock j = some b →
    a.id ≠ b.id
  stored : ∀ i id time, s.phases i = .done id time → Stored o clock start moves i id
  in_order : ∀ i j, Precedes moves i j → s.InOrder i j
  /-- A thread makes its calls one after the other. -/
  threads : ∀ calls : List (Fin n), calls.IsChain (Precedes moves) → calls.Pairwise s.InOrder
  /-- The text of every time is the calendar's. -/
  stamp : ∀ i id time, s.phases i = .done id time →
    ∃ text, Calendar.timestamp? time.toInt = some text ∧
      s.stamp? clock i = some ⟨"rs-" ++ signedText id.toInt, text⟩

theorem exists_done_of_stamp? {i : Fin n} {a : Stamp} (h : s.stamp? clock i = some a) :
    ∃ id time, s.phases i = .done id time ∧ a.id = "rs-" ++ signedText id.toInt := by
  unfold stamp? at h
  split at h
  · rename_i id time hi
    exact ⟨id, time, hi, by rw [← Option.some.inj h]; rfl⟩
  · exact nomatch h

theorem Steps.in_order (h : Fit o clock) (hsteps : Steps o clock start moves s) {i j : Fin n}
    (hij : Precedes moves i j) : s.InOrder i j := by
  intro id time id' time' hi hj
  obtain ⟨before, after, rfl, hraise, hunmoved⟩ := hij
  -- At `v` the first call has its number and time, and the second has read neither counter.
  obtain ⟨v, hbefore, hafter⟩ := hsteps.split
  have hv := hbefore.kept h kept_start
  have hlater := hafter.later h hv
  have hidle : v.phases j = .idle := hbefore.phases_of_unmoved hunmoved
  obtain ⟨id₁, time₁, hdone⟩ := hbefore.done_of_raise h kept_start hraise
  have hsame := hlater.done_kept i id₁ time₁ hdone
  rw [hi] at hsame
  obtain ⟨rfl, rfl⟩ := Phase.done.inj hsame
  have hid := hlater.id_new j id' (by rw [id?, hidle]) (id?_of_done hj)
  have htime := hlater.time_new j id' time' (by rw [hidle]; nofun) hj
  have hbounded := hv.bounded i id (id?_of_done hdone)
  have hpassed := (hv.given i id time hdone).2
  exact ⟨Int64.lt_iff_toInt_lt.2 (by omega), Int64.le_iff_toInt_le.2 (by omega)⟩

theorem Steps.distinct (h : Fit o clock) (hsteps : Steps o clock start moves s) {i j : Fin n}
    (hij : i ≠ j) {a b : Stamp} (ha : s.stamp? clock i = some a) (hb : s.stamp? clock j = some b) :
    a.id ≠ b.id := by
  obtain ⟨id, time, hi, haid⟩ := exists_done_of_stamp? ha
  obtain ⟨id', time', hj, hbid⟩ := exists_done_of_stamp? hb
  intro he
  rw [haid, hbid] at he
  have hids := Int64.toInt_inj.1 (signedText_injective ((String.append_right_inj _).1 he))
  have hkept := hsteps.kept h kept_start
  exact hij (hkept.distinct i j id (id?_of_done hi) (hids ▸ id?_of_done hj))

theorem Steps.stamp (h : Fit o clock) (hsteps : Steps o clock start moves s) {i : Fin n}
    {id time : Int64} (hi : s.phases i = .done id time) :
    ∃ text, Calendar.timestamp? time.toInt = some text ∧
      s.stamp? clock i = some ⟨"rs-" ++ signedText id.toInt, text⟩ := by
  have hcovered := ((hsteps.kept h kept_start).given i id time hi).1
  refine ⟨_, if_pos hcovered, ?_⟩
  rw [stamp?, hi]
  dsimp only
  rw [Stamp.timeText, Calendar.timestamp?, if_pos hcovered]
  rfl

theorem exists_steps_alone {i : Fin n} {id : Int64} (hi : s.phases i = .idle)
    (hnext : Stamp.next? o s.counters.lastId (clock i) = some id) :
    ∃ t, Steps o clock s [⟨i, .load⟩, ⟨i, .exchange⟩, ⟨i, .number⟩, ⟨i, .raise⟩] t ∧
      t.counters = (s.counters.stampAt (clock i)).2 ∧
      t.stamp? clock i = some (s.counters.stampAt (clock i)).1 ∧
      ∀ j, j ≠ i → t.phases j = s.phases j := by
  have hload : Steps o clock s ([] ++ [⟨i, .load⟩]) _ := .snoc .nil (.load hi)
  have hexchange := hload.snoc (.exchange (put_self _ _ _ _) hnext)
  have hnumber := hexchange.snoc (.number (put_self _ _ _ _) hnext)
  have hraise := hnumber.snoc (.raise (put_self _ _ _ _))
  obtain ⟨rfl, -⟩ := next?_eq_some.1 hnext
  refine ⟨_, hraise, rfl, ?_, fun j hj => ?_⟩
  · rw [stamp?, put_self]
    rfl
  · rw [put_other _ hj, put_other _ hj, put_other _ hj, put_other _ hj]

/-- However the steps of the calls are interleaved, no two calls get the same number, and calls that
follow each other get theirs in order. -/
theorem orderly_of_steps (h : Fit o clock) (hsteps : Steps o clock start moves s) :
    Orderly o clock moves s where
  distinct _ _ hij _ _ ha hb := hsteps.distinct h hij ha hb
  stored _ _ _ hi := (hsteps.stored rfl).2 _ (id?_of_done hi)
  in_order _ _ hij := hsteps.in_order h hij
  threads calls hcalls := by
    have hpairwise := List.isChain_iff_pairwise.1 hcalls
    exact hpairwise.imp fun hij => hsteps.in_order h hij
  stamp _ _ _ hi := hsteps.stamp h hi

/-- Two calls at one reading, one of which has to try again, and one behind them whose clock stands
before 1970. -/
theorem orderly_of_steps_contended :
    let clock : Fin 3 → Int64 := fun i => if i = 2 then -5 else 1735689600000
    let moves : List (Move 3) := [⟨0, .load⟩, ⟨1, .load⟩, ⟨1, .exchange⟩, ⟨0, .retry⟩,
      ⟨0, .exchange⟩, ⟨0, .number⟩, ⟨0, .raise⟩, ⟨1, .number⟩, ⟨2, .load⟩, ⟨1, .raise⟩,
      ⟨2, .exchange⟩, ⟨2, .number⟩, ⟨2, .raise⟩]
    ∃ s, Fit .wraps clock ∧ Steps .wraps clock start moves s ∧
      s.phases 0 = .done 1735689600001 1735689600000 ∧
      s.phases 1 = .done 1735689600000 1735689600000 ∧
      s.phases 2 = .done 1735689600002 1735689600000 ∧ Orderly .wraps clock moves s := by
  intro clock moves
  have hfit : Fit .wraps clock := ⟨by decide, fun _ => by decide⟩
  have hfirst : Stamp.next? .wraps 0 1735689600000 = some 1735689600000 := rfl
  have hsecond : Stamp.next? .wraps 1735689600000 1735689600000 = some 1735689600001 := rfl
  have hthird : Stamp.next? .wraps 1735689600001 (-5) = some 1735689600002 := rfl
  have h₁ : Steps .wraps clock start ([] ++ [⟨0, .load⟩]) _ := .snoc .nil (.load rfl)
  have h₂ := h₁.snoc (.load (i := 1) rfl)
  have h₃ := h₂.snoc (.exchange (i := 1) rfl hfirst)
  have h₄ := h₃.snoc (.retry (i := 0) rfl hfirst)
  have h₅ := h₄.snoc (.exchange (i := 0) rfl hsecond)
  have h₆ := h₅.snoc (.number (i := 0) rfl hsecond)
  have h₇ := h₆.snoc (.raise (i := 0) rfl)
  have h₈ := h₇.snoc (.number (i := 1) rfl hfirst)
  have h₉ := h₈.snoc (.load (i := 2) rfl)
  have h₁₀ := h₉.snoc (.raise (i := 1) rfl)
  have h₁₁ := h₁₀.snoc (.exchange (i := 2) rfl hthird)
  have h₁₂ := h₁₁.snoc (.number (i := 2) rfl hthird)
  have h₁₃ := h₁₂.snoc (.raise (i := 2) rfl)
  exact ⟨_, hfit, h₁₃, rfl, rfl, rfl, orderly_of_steps hfit h₁₃⟩

end EventPost.Crowd
