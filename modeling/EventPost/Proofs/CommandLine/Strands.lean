import EventPost.Proofs.CommandLine.Given

/-!
A command line told apart into the entries that one flag gives and all the rest. The rest is read as
if the entries were not there, and the entries are those that come out, in the order in which they
were given. Every command line that is read can be told apart so.
-/

namespace EventPost.CommandLine

def Flag.GivesEntry (f : Flag) : Prop := f = .metadata ∨ f = .field

/-- The command line gives these entries with the flag, in order, between the other arguments. -/
inductive Strands (f : Flag) : (argv others : List String) → List (String × Json) → Prop
  | done : Strands f [] [] []
  | words (rest : List String) : Strands f ("--" :: rest) ("--" :: rest) []
  | other {arg : String} {argv others : List String} {es : List (String × Json)} :
    arg ≠ "--" → (∀ value, arg ≠ (Mention.mk f value).spell) → Strands f argv others es →
    Strands f (arg :: argv) (arg :: others) es
  | given {value : String} {option argv others : List String} {e : String × Json}
    {es : List (String × Json)} : Spells f value option → readEntry value = .ok e →
    Strands f argv others es → Strands f (option ++ argv) others (e :: es)

namespace Arguments

def entriesOf (a : Arguments) : Flag → List (String × Json)
  | .metadata => a.metadata
  | .field => a.fields
  | _ => []

def withEntries (a : Arguments) (f : Flag) (es : List (String × Json)) : Arguments :=
  match f with
  | .metadata => { a with metadata := es }
  | .field => { a with fields := es }
  | _ => a

variable {a b : Arguments} {f g : Flag} {value : String} {e : String × Json}

theorem title_withEntries (a : Arguments) (f : Flag) (es : List (String × Json)) :
    (a.withEntries f es).title = a.title := by
  cases f <;> rfl

theorem priority_withEntries (a : Arguments) (f : Flag) (es : List (String × Json)) :
    (a.withEntries f es).priority = a.priority := by
  cases f <;> rfl

theorem entriesOf_withEntries (hf : f.GivesEntry) (a : Arguments) (es : List (String × Json)) :
    (a.withEntries f es).entriesOf f = es := by
  rcases hf with rfl | rfl <;> rfl

theorem withEntries_withEntries (a : Arguments) (f : Flag) (es es' : List (String × Json)) :
    (a.withEntries f es).withEntries f es' = a.withEntries f es' := by
  cases f <;> rfl

theorem put_entry (hf : f.GivesEntry) (hread : readEntry value = .ok e) (a : Arguments) :
    a.put value f = .ok (a.withEntries f (a.entriesOf f ++ [e])) := by
  rcases hf with rfl | rfl <;>
  · rw [put, entry, hread]
    rfl

theorem readEntry_of_put (hf : f.GivesEntry) (h : a.put value f = .ok b) :
    ∃ e, readEntry value = .ok e := by
  rcases hf with rfl | rfl <;>
  · obtain ⟨e, hentry, -⟩ := map_eq_ok.1 h
    exact ⟨e, mapError_eq_ok.1 hentry⟩

theorem put_withEntries (hf : f.GivesEntry) (hg : g ≠ f) {es : List (String × Json)}
    (h : (a.withEntries f es).put value g = .ok b) :
    ∃ c, a.put value g = .ok c ∧ b = c.withEntries f es := by
  cases g with
  | metadata | field | timeout | format | completions =>
    obtain ⟨x, hx, rfl⟩ := map_eq_ok.1 h
    refine ⟨_, map_eq_ok.2 ⟨x, hx, rfl⟩, ?_⟩
    rcases hf with rfl | rfl <;> first | rfl | exact absurd rfl hg
  | config =>
    rw [put] at h
    split at h
    · cases h
    · rename_i hpresent
      obtain rfl := Except.ok.inj h
      refine ⟨_, if_neg hpresent, ?_⟩
      rcases hf with rfl | rfl <;> rfl
  | help | version => cases h
  | body | url | actor | tag | actionRequired | groupKey | expiresAt | server | dryRun =>
    obtain rfl := Except.ok.inj h
    refine ⟨_, rfl, ?_⟩
    rcases hf with rfl | rfl <;> rfl

theorem putWord_withEntries (a : Arguments) (f : Flag) (es : List (String × Json)) (word : String) :
    (a.withEntries f es).putWord word = (a.putWord word).withEntries f es := by
  obtain ⟨title, eventType, priority⟩ := a
  cases f <;> cases title <;> cases eventType <;> rfl

end Arguments

namespace Progress

/-- Two readings that stand alike, but that the first has these entries, and the flag that gives them
among those it has seen. -/
structure Beside (f : Flag) (es : List (String × Json)) (p q : Progress) : Prop where
  arguments : p.arguments = q.arguments.withEntries f es
  seen : ∀ g ∈ q.seen, g ∈ p.seen
  waiting : p.waiting = q.waiting
  plain : p.plain = q.plain
  aside : ∀ value, q.waiting ≠ some (f, value)

variable {p q p' s : Progress} {f g : Flag} {es : List (String × Json)} {value : String}
  {args : List String} {a : Arguments} {e : String × Json}

theorem Beside.take (h : Beside f es p q) (hf : f.GivesEntry) (hg : g ≠ f)
    (ht : p.take g value = .ok p') : ∃ q', q.take g value = .ok q' ∧ Beside f es p' q' := by
  rw [Progress.take] at ht
  split at ht
  · cases ht
  · rename_i hfirst
    obtain ⟨b, hput, rfl⟩ := map_eq_ok.1 ht
    rw [h.arguments] at hput
    obtain ⟨c, hput', rfl⟩ := Arguments.put_withEntries hf hg hput
    have hunseen : ¬(!g.repeats && q.seen.contains g) = true := by
      simp only [Bool.and_eq_true, List.contains_iff_mem] at hfirst ⊢
      exact fun hseen => hfirst ⟨hseen.1, h.seen g hseen.2⟩
    refine ⟨{ q with arguments := c, seen := g :: q.seen }, ?_, rfl, ?_, h.waiting, h.plain, h.aside⟩
    · rw [Progress.take, if_neg hunseen, hput']
      rfl
    · intro g' hg'
      rcases List.mem_cons.1 hg' with rfl | hg'
      · exact List.mem_cons_self
      · exact List.mem_cons_of_mem g (h.seen g' hg')

theorem Beside.settle (h : Beside f es p q) (hf : f.GivesEntry) (hs : p.settle = .ok p') :
    ∃ q', q.settle = .ok q' ∧ Beside f es p' q' := by
  rw [Progress.settle, h.waiting] at hs
  rw [Progress.settle]
  split at hs
  · obtain rfl := Except.ok.inj hs
    exact ⟨q, rfl, h⟩
  · cases hs
  · rename_i g value hwaiting
    have hg : g ≠ f := fun heq => h.aside (some value) (heq ▸ hwaiting)
    have hnone : Beside f es { p with waiting := none } { q with waiting := none } :=
      ⟨h.arguments, h.seen, rfl, h.plain, fun _ => by simp⟩
    exact hnone.take hf hg hs

theorem Beside.flag (h : Beside f es p q) (hf : f.GivesEntry) (hg : g ≠ f) {value : Option String}
    (hflag : p.flag g value = .ok p') : ∃ q', q.flag g value = .ok q' ∧ Beside f es p' q' := by
  obtain ⟨s, hs⟩ := settles_of_flag hflag
  obtain ⟨t, ht, hst⟩ := h.settle hf hs
  unfold Progress.flag at hflag ⊢
  rw [hs] at hflag
  rw [ht]
  cases hvalue : g.takesValue with
  | true =>
    rw [hvalue, if_pos rfl] at hflag
    rw [if_pos rfl]
    cases value with
    | some v => exact hst.take hf hg hflag
    | none =>
      obtain rfl := Except.ok.inj hflag
      refine ⟨_, rfl, hst.arguments, hst.seen, rfl, hst.plain, fun value hw => hg ?_⟩
      exact (Prod.mk.inj (Option.some.inj hw)).1
  | false =>
    rw [hvalue, if_neg Bool.false_ne_true] at hflag
    rw [if_neg Bool.false_ne_true]
    cases value with
    | some v => cases hflag
    | none => exact hst.take hf hg hflag

theorem Beside.letters (h : Beside f es p q) (hf : f.GivesEntry) (cs : List Char)
    (hletters : p.letters cs = .ok p') : ∃ q', q.letters cs = .ok q' ∧ Beside f es p' q' := by
  have hletter : ∀ {c g}, Flag.ofLetter? c = some g → g ≠ f := by
    rintro c g hc rfl
    have hfound : Flag.all.find? (·.letter? = some c) = some g := hc
    have hsome := List.find?_some hfound
    rcases hf with rfl | rfl <;> simp [Flag.letter?] at hsome
  induction cs generalizing p q with
  | nil =>
    obtain rfl := Except.ok.inj hletters
    exact ⟨q, rfl, h⟩
  | cons c cs ih =>
    obtain ⟨g, hc, hstep⟩ := letters_cons.1 hletters
    rcases hstep with ⟨hvalue, hflag⟩ | ⟨hvalue, s, hflag, hrest⟩
    · obtain ⟨q', hflag', hnext⟩ := h.flag hf (hletter hc) hflag
      exact ⟨q', letters_cons.2 ⟨g, hc, .inl ⟨hvalue, hflag'⟩⟩, hnext⟩
    · obtain ⟨t, hflag', hst⟩ := h.flag hf (hletter hc) hflag
      obtain ⟨q', hrest', hnext⟩ := ih hst hrest
      exact ⟨q', letters_cons.2 ⟨g, hc, .inr ⟨hvalue, t, hflag', hrest'⟩⟩, hnext⟩

theorem Beside.word (h : Beside f es p q) (hf : f.GivesEntry) {arg : String}
    (hword : p.word arg = .ok p') : ∃ q', q.word arg = .ok q' ∧ Beside f es p' q' := by
  rw [Progress.word, h.arguments, Arguments.priority_withEntries] at hword
  rw [Progress.word]
  split at hword
  · cases hword
  · rename_i hplace
    obtain ⟨s, hs, rfl⟩ := map_eq_ok.1 hword
    obtain ⟨t, ht, hst⟩ := h.settle hf hs
    refine ⟨{ t with arguments := t.arguments.putWord arg }, ?_, ?_, hst.seen, hst.waiting, hst.plain,
      hst.aside⟩
    · rw [if_neg hplace, ht]
      rfl
    · rw [hst.arguments, Arguments.putWord_withEntries]

theorem Beside.step (h : Beside f es p q) (hf : f.GivesEntry) {arg : String}
    (harg : p.plain = false → ∀ value, arg ≠ (Mention.mk f value).spell)
    (hstep : p.step arg = .ok p') : ∃ q', q.step arg = .ok q' ∧ Beside f es p' q' := by
  simp only [step_eq_ok] at hstep ⊢
  have hplain : p.plain = false → q.plain = false := fun hp => h.plain ▸ hp
  cases hstep with
  | dashes hp hdashes =>
    exact ⟨_, .dashes (hplain hp) hdashes, h.arguments, h.seen, h.waiting, rfl, h.aside⟩
  | mention m hp hspell hflag =>
    have hg : m.flag ≠ f := by
      rintro rfl
      exact harg hp m.value hspell
    obtain ⟨q', hflag', hnext⟩ := h.flag hf hg hflag
    exact ⟨q', .mention m (hplain hp) hspell hflag', hnext⟩
  | letters hp hchars hc hletters =>
    obtain ⟨q', hletters', hnext⟩ := h.letters hf _ hletters
    exact ⟨q', .letters (hplain hp) hchars hc hletters', hnext⟩
  | @value g hp hword hwaiting =>
    rw [h.waiting] at hwaiting
    refine ⟨_, .value (hplain hp) hword hwaiting, h.arguments, h.seen, rfl, h.plain, fun v hw => ?_⟩
    have hg : g = f := (Prod.mk.inj (Option.some.inj hw)).1
    exact h.aside none (hg ▸ hwaiting)
  | word hwhen hword =>
    obtain ⟨q', hword', hnext⟩ := h.word hf hword
    refine ⟨q', .word (fun hq => ?_) hword', hnext⟩
    rw [← h.waiting]
    exact hwhen (h.plain.trans hq)

theorem Beside.finish (h : Beside f es p q) (hf : f.GivesEntry) (hfinish : p.finish = .ok a) :
    ∃ b, q.finish = .ok b ∧ a = b.withEntries f es := by
  rw [Progress.finish] at hfinish
  split at hfinish
  · cases hfinish
  · rename_i s hs
    obtain ⟨t, ht, hst⟩ := h.settle hf hs
    split at hfinish
    · cases hfinish
    · rename_i halone
      obtain rfl := Except.ok.inj hfinish
      refine ⟨t.arguments, ?_, hst.arguments⟩
      rw [Progress.finish, ht]
      refine if_neg fun hmany => halone ?_
      simp only [Bool.and_eq_true, Bool.or_eq_true, List.contains_iff_mem, List.any_eq_true,
        hst.arguments, Arguments.title_withEntries] at hmany ⊢
      refine ⟨hst.seen _ hmany.1, hmany.2.imp_right fun hother => ?_⟩
      obtain ⟨g, hg, hne⟩ := hother
      exact ⟨g, hst.seen g hg, hne⟩

theorem Beside.run_words (h : Beside f es p q) (hf : f.GivesEntry) (hp : p.plain = true)
    (hrun : p.run args = .ok a) : ∃ b, q.run args = .ok b ∧ a = b.withEntries f es := by
  induction args generalizing p q with
  | nil => exact h.finish hf hrun
  | cons arg args ih =>
    rw [run_cons] at hrun ⊢
    obtain ⟨p', hstep, hrest⟩ := bind_eq_ok.1 hrun
    obtain ⟨q', hstep', hnext⟩ := h.step hf
      (fun hp' => absurd (hp'.symm.trans hp) Bool.false_ne_true) hstep
    have hplain : p'.plain = true := by
      rw [step_plain hp] at hstep
      exact (onward_word hstep).plain.trans hp
    obtain ⟨b, hb, hab⟩ := ih hnext hplain hrest
    exact ⟨b, bind_eq_ok.2 ⟨q', hstep', hb⟩, hab⟩

def enter (s : Progress) (f : Flag) (e : String × Json) : Progress :=
  { s with
    arguments := s.arguments.withEntries f (s.arguments.entriesOf f ++ [e])
    seen := f :: s.seen }

theorem take_entry (hf : f.GivesEntry) (hread : readEntry value = .ok e) (s : Progress) :
    s.take f value = .ok (s.enter f e) := by
  have hrepeats : f.repeats = true := by
    rcases hf with rfl | rfl <;> rfl
  rw [take, hrepeats, Arguments.put_entry hf hread]
  rfl

theorem takesValue_of_givesEntry (hf : f.GivesEntry) : f.takesValue = true := by
  rcases hf with rfl | rfl <;> rfl

theorem flag_given (hf : f.GivesEntry) (hs : p.settle = .ok s) (value : Option String) :
    p.flag f value = match value with
      | some v => s.take f v
      | none => .ok { s with waiting := some (f, none) } := by
  unfold flag
  rw [takesValue_of_givesEntry hf, if_pos rfl, hs]
  cases value <;> rfl

theorem run_given (hf : f.GivesEntry) {option : List String} (hspells : Spells f value option)
    (hread : readEntry value = .ok e) (hp : p.plain = false) (hs : p.settle = .ok s) :
    p.run (option ++ args) = (s.enter f e).run args := by
  have hflag : ∀ given, p.step (Mention.mk f given).spell = p.flag f given :=
    fun given => step_spell hp ⟨f, given⟩
  have hplain : s.plain = false := (settled hs).2.2.1.trans hp
  have hnone : s.waiting = none := (settled hs).2.1
  cases hspells with
  | joined =>
    rw [List.singleton_append, run_cons, hflag, flag_given hf hs]
    dsimp only
    rw [take_entry hf hread]
    rfl
  | apart hdash =>
    rw [List.cons_append, List.singleton_append, run_cons, hflag, flag_given hf hs]
    change ({ s with waiting := some (f, none) } : Progress).run (value :: args) = _
    rw [run_cons, step_value (p := { s with waiting := some (f, none) }) hplain rfl hdash]
    change ({ s with waiting := some (f, some value) } : Progress).run args = _
    refine run_settled ?_ args
    have hback : ({ s with waiting := none } : Progress) = s := by rw [← hnone]
    rw [settle]
    dsimp only
    rw [hback, take_entry hf hread]

theorem settles_of_given {option : List String} (hspells : Spells f value option)
    (hp : p.plain = false) (hrun : p.run (option ++ args) = .ok a) : ∃ s, p.settle = .ok s := by
  obtain ⟨given, rest, rfl⟩ : ∃ given rest, option = (Mention.mk f given).spell :: rest := by
    cases hspells with
    | joined => exact ⟨_, _, rfl⟩
    | apart => exact ⟨_, _, rfl⟩
  rw [List.cons_append, run_cons] at hrun
  obtain ⟨q, hstep, -⟩ := bind_eq_ok.1 hrun
  rw [step_spell hp] at hstep
  exact settles_of_flag hstep

theorem readEntry_of_take (hf : f.GivesEntry) (h : p.take f value = .ok q) :
    ∃ e, readEntry value = .ok e := by
  rw [take] at h
  split at h
  · cases h
  · obtain ⟨b, hput, -⟩ := map_eq_ok.1 h
    exact Arguments.readEntry_of_put hf hput

theorem head_ne_dash (hword : Wordlike value) (hread : readEntry value = .ok e) :
    value.toList.head? ≠ some '-' := by
  intro hhead
  obtain ⟨cs, hchars⟩ : ∃ cs, value.toList = '-' :: cs := List.head?_eq_some_iff.1 hhead
  cases cs with
  | nil =>
    rw [readEntry, hchars] at hread
    cases hread
  | cons c cs => exact hword c cs hchars

theorem exists_value (hwaiting : p.waiting = some (f, none)) (hrun : p.run args = .ok a) :
    ∃ value rest, args = value :: rest ∧ Wordlike value := by
  by_contra hnone
  have hnext : ∀ arg ∈ args.head?, ¬Wordlike arg := by
    intro arg harg hword
    obtain ⟨rest, hargs⟩ := List.head?_eq_some_iff.1 harg
    exact hnone ⟨arg, rest, hargs, hword⟩
  obtain ⟨s, hs⟩ := settles_of_run hrun (.inr (.inr hnext))
  exact (settled hs).2.2.2.2 f hwaiting

end Progress

variable {f : Flag} {argv others : List String} {es : List (String × Json)} {a : Arguments}

open Progress

/-- The others are read without the entries, which come out in order. -/
theorem Strands.run (h : Strands f argv others es) (hf : f.GivesEntry) {p q : Progress}
    {before : List (String × Json)} (hpq : Beside f before p q) (hp : p.plain = false)
    (hrun : p.run argv = .ok a) :
    ∃ b, q.run others = .ok b ∧ a = b.withEntries f (before ++ es) := by
  induction h generalizing p q before with
  | done =>
    rw [List.append_nil]
    exact hpq.finish hf hrun
  | words rest =>
    rw [run_cons, step_double hp] at hrun
    rw [run_cons, step_double (hpq.plain ▸ hp), List.append_nil]
    have hnext : Beside f before { p with plain := true } { q with plain := true } :=
      ⟨hpq.arguments, hpq.seen, hpq.waiting, rfl, hpq.aside⟩
    exact hnext.run_words hf rfl hrun
  | @other arg argv others es hdashes hother _ ih =>
    rw [run_cons] at hrun ⊢
    obtain ⟨p', hstep, hrest⟩ := bind_eq_ok.1 hrun
    obtain ⟨q', hstep', hnext⟩ := hpq.step hf (fun _ => hother) hstep
    obtain ⟨b, hb, hab⟩ := ih hnext (((step_spec hstep).2 hdashes).trans hp) hrest
    exact ⟨b, bind_eq_ok.2 ⟨q', hstep', hb⟩, hab⟩
  | @given value option argv others e es hspells hread _ ih =>
    -- The option has what waits taken up on the left, and so it may be taken up on the right.
    obtain ⟨s, hs⟩ := settles_of_given hspells hp hrun
    obtain ⟨t, ht, hst⟩ := hpq.settle hf hs
    rw [run_given hf hspells hread hp hs] at hrun
    have hentries : s.arguments.entriesOf f = before := by
      rw [hst.arguments, Arguments.entriesOf_withEntries hf]
    have hnext : Beside f (before ++ [e]) (s.enter f e) t := by
      refine ⟨?_, fun g hg => List.mem_cons_of_mem f (hst.seen g hg), hst.waiting, hst.plain,
        hst.aside⟩
      rw [enter, hentries, hst.arguments, Arguments.withEntries_withEntries]
    obtain ⟨b, hb, hab⟩ := ih hnext ((settled hs).2.2.1.trans hp) hrun
    rw [List.append_assoc, List.singleton_append] at hab
    exact ⟨b, run_settled ht others ▸ hb, hab⟩

theorem Strands.parse (h : Strands f argv others es) (hf : f.GivesEntry)
    (hparse : Arguments.parse argv = .ok a) :
    ∃ b, Arguments.parse others = .ok b ∧ a = b.withEntries f es := by
  have hnone : Arguments.none = Arguments.none.withEntries f [] := by
    rcases hf with rfl | rfl <;> rfl
  have hstart : Beside f [] start start := ⟨hnone, fun _ hg => hg, rfl, rfl, fun _ => by simp [start]⟩
  exact h.run hf hstart rfl hparse

theorem exists_strands_run (hf : f.GivesEntry) (argv : List String) {p : Progress}
    (hp : p.plain = false) (hrun : p.run argv = .ok a) : ∃ others es, Strands f argv others es := by
  match argv with
  | [] => exact ⟨[], [], .done⟩
  | arg :: argv =>
    rw [run_cons] at hrun
    obtain ⟨q, hstep, hrest⟩ := bind_eq_ok.1 hrun
    by_cases hdashes : arg = "--"
    · subst hdashes
      exact ⟨_, _, .words argv⟩
    have hq : q.plain = false := ((step_spec hstep).2 hdashes).trans hp
    by_cases hother : ∀ value, arg ≠ (Mention.mk f value).spell
    · obtain ⟨others, es, h⟩ := exists_strands_run hf argv hq hrest
      exact ⟨_, _, .other hdashes hother h⟩
    obtain ⟨given, rfl⟩ : ∃ given, arg = (Mention.mk f given).spell := by simpa using hother
    rw [step_spell hp] at hstep
    obtain ⟨s, hs⟩ := settles_of_flag hstep
    rw [flag_given hf hs] at hstep
    cases given with
    | some value =>
      obtain ⟨e, hread⟩ := readEntry_of_take hf hstep
      obtain ⟨others, es, h⟩ := exists_strands_run hf argv hq hrest
      exact ⟨_, _, .given .joined hread h⟩
    | none =>
      obtain rfl := Except.ok.inj hstep
      obtain ⟨value, argv, rfl, hword⟩ := exists_value rfl hrest
      rw [run_cons] at hrest
      obtain ⟨r, hvalue, hrest⟩ := bind_eq_ok.1 hrest
      rw [step_eq_ok.2 (.value hq hword rfl)] at hvalue
      obtain rfl := Except.ok.inj hvalue
      obtain ⟨t, ht⟩ := settles_of_run hrest (.inr (.inl fun _ => by simp))
      obtain ⟨e, hread⟩ := readEntry_of_take hf ht
      obtain ⟨others, es, h⟩ := exists_strands_run (p := { s with waiting := some (f, some value) }) hf
        argv hq hrest
      exact ⟨_, _, .given (.apart (head_ne_dash hword hread)) hread h⟩
termination_by argv.length

theorem exists_strands (hf : f.GivesEntry) (hparse : Arguments.parse argv = .ok a) :
    ∃ others, Strands f argv others (a.entriesOf f) := by
  obtain ⟨others, es, h⟩ := exists_strands_run hf argv rfl hparse
  obtain ⟨b, -, rfl⟩ := h.parse hf hparse
  rw [Arguments.entriesOf_withEntries hf]
  exact ⟨others, h⟩

theorem Strands.readEntry (h : Strands f argv others es) {e : String × Json} (he : e ∈ es) :
    ∃ text, CommandLine.readEntry text = .ok e := by
  induction h with
  | done | words => exact absurd he List.not_mem_nil
  | other _ _ _ ih => exact ih he
  | @given value _ _ _ _ _ _ hread _ ih =>
    rcases List.mem_cons.1 he with rfl | he
    · exact ⟨value, hread⟩
    · exact ih he

end EventPost.CommandLine
