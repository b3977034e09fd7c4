import EventPost.Proofs.CommandLine.Request
import EventPost.Proofs.CommandLine.Stepping

/-!
What is given is taken up. An entry behind the flag of a field waits for the next flag or word, or
for the end, and then is among the fields; whatever comes after it, there it stays. So a command line
that is read to its end holds the entry of every field on it, before the double dash.
-/

namespace EventPost.CommandLine

/-- The ways to give a flag with a value: behind an equals sign, or as the next argument. -/
inductive Spells (f : Flag) (value : String) : List String → Prop
  | joined : Spells f value [(Mention.mk f (some value)).spell]
  | apart : value.toList.head? ≠ some '-' →
    Spells f value [(Mention.mk f none).spell, value]

/-- The flag is on the command line, before a double dash, with the value. -/
def Given (argv : List String) (f : Flag) (value : String) : Prop :=
  ∃ before option after, argv = before ++ option ++ after ∧ "--" ∉ before ∧ Spells f value option

variable {e : String × Json}

theorem Arguments.mem_fields_put {a b : Arguments} {f : Flag} {value : String}
    (h : a.put value f = .ok b)
    (he : e ∈ a.fields ∨ f = .field ∧ readEntry value = .ok e) : e ∈ b.fields := by
  cases f with
  | field =>
    obtain ⟨e', hentry, rfl⟩ := map_eq_ok.1 h
    rcases he with he | ⟨-, hread⟩
    · exact List.mem_append_left _ he
    · rw [entry, hread] at hentry
      obtain rfl := Except.ok.inj hentry
      exact List.mem_append_right _ (List.mem_singleton.2 rfl)
  | metadata | timeout | format | completions =>
    obtain ⟨x, -, rfl⟩ := map_eq_ok.1 h
    exact he.resolve_right fun he => absurd he.1 (by decide)
  | config =>
    rw [Arguments.put] at h
    split at h
    · cases h
    · obtain rfl := Except.ok.inj h
      exact he.resolve_right fun he => absurd he.1 (by decide)
  | help | version => cases h
  | body | url | actor | tag | actionRequired | groupKey | expiresAt | server | dryRun =>
    obtain rfl := Except.ok.inj h
    exact he.resolve_right fun he => absurd he.1 (by decide)

namespace Progress

def Holds (p : Progress) (e : String × Json) : Prop :=
  e ∈ p.arguments.fields ∨
    ∃ value, p.waiting = some (.field, some value) ∧ readEntry value = .ok e

/-- What one part of the reading leaves to the next: nothing that was held is lost. -/
structure Onward (p q : Progress) : Prop where
  plain : q.plain = p.plain
  holds : ∀ e, p.Holds e → q.Holds e

variable {p q r : Progress} {f : Flag} {value : String}

theorem Onward.trans (h : Onward p q) (h' : Onward q r) : Onward p r :=
  ⟨h'.plain.trans h.plain, fun e he => h'.holds e (h.holds e he)⟩

theorem Holds.mem_fields (h : p.Holds e) (hp : p.waiting = none) : e ∈ p.arguments.fields := by
  refine h.resolve_right fun hwaiting => ?_
  obtain ⟨value, hvalue, -⟩ := hwaiting
  rw [hp] at hvalue
  cases hvalue

theorem mem_fields_take (h : p.take f value = .ok q)
    (he : e ∈ p.arguments.fields ∨ f = .field ∧ readEntry value = .ok e) : e ∈ q.arguments.fields := by
  rw [take] at h
  split at h
  · cases h
  · obtain ⟨a, hput, rfl⟩ := map_eq_ok.1 h
    exact Arguments.mem_fields_put hput he

theorem settle_spec (h : p.settle = .ok q) : Onward p q ∧ q.waiting = none := by
  obtain ⟨-, hnone, hplain, -⟩ := settled h
  refine ⟨⟨hplain, fun e he => ?_⟩, hnone⟩
  rw [settle] at h
  split at h
  · rw [← Except.ok.inj h]
    exact he
  · cases h
  · rename_i f value hwaiting
    refine .inl (mem_fields_take h ?_)
    rcases he with he | ⟨value', hvalue, hread⟩
    · exact .inl he
    · rw [hwaiting] at hvalue
      cases hvalue
      exact .inr ⟨rfl, hread⟩

theorem onward_take (hs : p.settle = .ok q) (ht : q.take f value = .ok r) :
    Onward p r ∧ r.waiting = none ∧
      ∀ e, f = .field → readEntry value = .ok e → e ∈ r.arguments.fields := by
  obtain ⟨hsettled, hnone⟩ := settle_spec hs
  obtain ⟨hplain, hwaiting, -⟩ := take_kept ht
  refine ⟨hsettled.trans ⟨hplain, fun e he => .inl (mem_fields_take ht (.inl (he.mem_fields hnone)))⟩,
    hwaiting.trans hnone, fun e hf hread => mem_fields_take ht (.inr ⟨hf, hread⟩)⟩

theorem flag_spec {given : Option String} (h : p.flag f given = .ok q) : Onward p q ∧
    ((∃ value, given = some value ∧
        ∀ e, f = .field → readEntry value = .ok e → e ∈ q.arguments.fields) ∨
      given = none ∧ (f.takesValue = true → q.waiting = some (f, none))) := by
  unfold flag at h
  split at h
  · split at h
    · cases h
    · rename_i value hs
      obtain ⟨honward, -, hfields⟩ := onward_take hs h
      exact ⟨honward, .inl ⟨value, rfl, hfields⟩⟩
    · rename_i p' hs
      obtain ⟨hsettled, hnone⟩ := settle_spec hs
      obtain rfl := Except.ok.inj h
      exact ⟨hsettled.trans ⟨rfl, fun e he => .inl (he.mem_fields hnone)⟩, .inr ⟨rfl, fun _ => rfl⟩⟩
  · rename_i hvalue
    split at h
    · cases h
    · split at h
      · cases h
      · rename_i p' hs
        exact ⟨(onward_take hs h).1, .inr ⟨rfl, fun htakes => absurd htakes hvalue⟩⟩

theorem onward_letters (cs : List Char) (h : p.letters cs = .ok q) : Onward p q := by
  induction cs generalizing p with
  | nil =>
    obtain rfl := Except.ok.inj h
    exact ⟨rfl, fun _ he => he⟩
  | cons c cs ih =>
    obtain ⟨f, -, ⟨-, hflag⟩ | ⟨-, p', hflag, hrest⟩⟩ := letters_cons.1 h
    · exact (flag_spec hflag).1
    · exact (flag_spec hflag).1.trans (ih hrest)

theorem onward_word {s : String} (h : p.word s = .ok q) : Onward p q := by
  rw [word] at h
  split at h
  · cases h
  · obtain ⟨p', hs, rfl⟩ := map_eq_ok.1 h
    obtain ⟨hsettled, hnone⟩ := settle_spec hs
    refine hsettled.trans ⟨rfl, fun e he => .inl ?_⟩
    have hfields : (p'.arguments.putWord s).fields = p'.arguments.fields := by
      unfold Arguments.putWord
      split
      · rfl
      · split <;> rfl
    rw [hfields]
    exact he.mem_fields hnone

theorem step_spec {arg : String} (h : p.step arg = .ok q) :
    (∀ e, p.Holds e → q.Holds e) ∧ (arg ≠ "--" → q.plain = p.plain) := by
  have honward : Onward p q → (∀ e, p.Holds e → q.Holds e) ∧ (arg ≠ "--" → q.plain = p.plain) :=
    fun h => ⟨h.holds, fun _ => h.plain⟩
  cases step_eq_ok.1 h with
  | dashes _ hdashes => exact ⟨fun _ he => he, fun hne => absurd hdashes hne⟩
  | mention m _ _ hflag => exact honward (flag_spec hflag).1
  | letters _ _ _ hletters => exact honward (onward_letters _ hletters)
  | value _ _ hwaiting =>
    refine honward ⟨rfl, fun e he => .inl (he.resolve_right fun hheld => ?_)⟩
    obtain ⟨value, hvalue, -⟩ := hheld
    rw [hwaiting] at hvalue
    cases hvalue
  | word _ hword => exact honward (onward_word hword)

theorem steps_cons {arg : String} {args : List String} : (arg :: args).foldlM step p = .ok q ↔
    ∃ p', p.step arg = .ok p' ∧ args.foldlM step p' = .ok q := by
  rw [List.foldlM_cons]
  exact bind_eq_ok

theorem steps_spec {args : List String} (h : args.foldlM step p = .ok q) :
    (∀ e, p.Holds e → q.Holds e) ∧ ("--" ∉ args → q.plain = p.plain) := by
  induction args generalizing p with
  | nil =>
    obtain rfl := Except.ok.inj h
    exact ⟨fun _ he => he, fun _ => rfl⟩
  | cons arg args ih =>
    obtain ⟨p', hstep, hrest⟩ := steps_cons.1 h
    obtain ⟨hheld, hplain⟩ := step_spec hstep
    obtain ⟨hheld', hplain'⟩ := ih hrest
    refine ⟨fun e he => hheld' e (hheld e he), fun hnot => ?_⟩
    rw [List.mem_cons, not_or] at hnot
    exact (hplain' hnot.2).trans (hplain (Ne.symm hnot.1))

theorem holds_of_spells {option : List String} (h : Spells .field value option)
    (hread : readEntry value = .ok e) (hp : p.plain = false)
    (hsteps : option.foldlM step p = .ok q) : q.Holds e := by
  cases h with
  | joined =>
    obtain ⟨p', hflag, hq⟩ := steps_cons.1 hsteps
    obtain rfl := Except.ok.inj hq
    rw [step_spell hp] at hflag
    rcases (flag_spec hflag).2 with ⟨v, hv, hfields⟩ | ⟨hnone, -⟩
    · cases hv
      exact .inl (hfields e rfl hread)
    · cases hnone
  | apart hdash =>
    obtain ⟨p', hflag, hrest⟩ := steps_cons.1 hsteps
    obtain ⟨p'', hvalue, hq⟩ := steps_cons.1 hrest
    obtain rfl := Except.ok.inj hq
    rw [step_spell hp] at hflag
    obtain ⟨honward, hgiven⟩ := flag_spec hflag
    have hwaiting : p'.waiting = some (.field, none) := by
      rcases hgiven with ⟨v, hv, -⟩ | ⟨-, hwaiting⟩
      · cases hv
      · exact hwaiting rfl
    rw [step_value (honward.plain.trans hp) hwaiting hdash] at hvalue
    obtain rfl := Except.ok.inj hvalue
    exact .inr ⟨value, rfl, hread⟩

theorem take_field (hread : readEntry value = .ok e) (p : Progress) :
    p.take .field value = .ok { p with
      arguments := { p.arguments with fields := p.arguments.fields ++ [e] }
      seen := .field :: p.seen } := by
  rw [take, Arguments.put, entry, hread]
  rfl

theorem mem_fields_of_finish {a : Arguments} (h : p.finish = .ok a) (hp : p.Holds e) :
    e ∈ a.fields := by
  rw [finish] at h
  split at h
  · cases h
  · rename_i p' hs
    obtain ⟨hsettled, hnone⟩ := settle_spec hs
    split at h
    · cases h
    · obtain rfl := Except.ok.inj h
      exact (hsettled.holds e hp).mem_fields hnone

end Progress

theorem mem_fields_of_given {argv : List String} {a : Arguments} {value : String}
    (h : Arguments.parse argv = .ok a) (hgiven : Given argv .field value)
    (hread : readEntry value = .ok e) : e ∈ a.fields := by
  obtain ⟨before, option, after, rfl, hbefore, hspells⟩ := hgiven
  rw [Arguments.parse] at h
  split at h
  · cases h
  · rename_i last hsteps
    rw [List.foldlM_append, List.foldlM_append] at hsteps
    obtain ⟨q, hsteps, hafter⟩ := bind_eq_ok.1 hsteps
    obtain ⟨p, hsteps, hoption⟩ := bind_eq_ok.1 hsteps
    have hplain : p.plain = false := (Progress.steps_spec hsteps).2 hbefore
    exact Progress.mem_fields_of_finish h
      ((Progress.steps_spec hafter).1 e (Progress.holds_of_spells hspells hread hplain hoption))

/-- An option alone, and a title behind the double dash, are read. -/
theorem parse_spelled {text : String} {option : List String} (hs : Spells .field text option)
    (hread : readEntry text = .ok e) (title : String) : Arguments.parse (option ++ ["--", title]) =
      .ok { Arguments.none with title := some title, fields := [e] } := by
  obtain ⟨p, hoption, hplain, hpriority, hsettle⟩ : ∃ p : Progress,
      option.foldlM Progress.step Progress.start = .ok p ∧ p.plain = false ∧
        p.arguments.priority = none ∧ ({ p with plain := true } : Progress).settle =
          .ok ⟨{ Arguments.none with fields := [e] }, [.field], none, true⟩ := by
    cases hs with
    | joined =>
      have hflag : Progress.start.flag .field (some text) = Progress.start.take .field text :=
        flag_eq_take rfl rfl
      have hstep := (step_spell rfl ⟨.field, some text⟩).trans
        (hflag.trans (Progress.take_field hread Progress.start))
      exact ⟨_, Progress.steps_cons.2 ⟨_, hstep, rfl⟩, rfl, rfl, rfl⟩
    | apart hdash =>
      have hflag : Progress.start.step (Mention.mk .field none).spell =
          .ok { Progress.start with waiting := some (.field, none) } := step_spell rfl _
      exact ⟨_, Progress.steps_cons.2 ⟨_, hflag, Progress.steps_cons.2
        ⟨_, Progress.step_value rfl rfl hdash, rfl⟩⟩, rfl, rfl, Progress.take_field hread _⟩
  have hdashes : p.step "--" = .ok { p with plain := true } := by
    have hchars : "--".toList = ['-', '-'] := rfl
    rw [Progress.step, hplain, hchars]
    rfl
  have htitle : ({ p with plain := true } : Progress).step title =
      .ok ⟨{ Arguments.none with title := some title, fields := [e] }, [.field], none, true⟩ := by
    rw [Progress.step, if_pos rfl, Progress.word, hsettle, hpriority]
    rfl
  have hsteps : (option ++ ["--", title]).foldlM Progress.step Progress.start =
      .ok ⟨{ Arguments.none with title := some title, fields := [e] }, [.field], none, true⟩ := by
    rw [List.foldlM_append, hoption]
    exact Progress.steps_cons.2 ⟨_, hdashes, Progress.steps_cons.2 ⟨_, htitle, rfl⟩⟩
  rw [Arguments.parse, hsteps]
  rfl

variable {k : String}

theorem readEntry_key (h : IsKey k) (d : String) :
    readEntry (k ++ "=" ++ d) = .ok (k, entryValue d) := by
  rw [readEntry_eq_ok]
  refine ⟨[], [], d, ?_, fun c hc => absurd hc List.not_mem_nil, h, entryValue_eq.1 rfl⟩
  simp [String.toList_append]

theorem get?_of_mem_fields {a : Arguments} {v : Json} (hcore : k ∉ Event.coreFields)
    (hmem : (k, v) ∈ a.fields) (hsole : ∀ w, (k, w) ∈ a.fields → w = v) (title : String)
    (stamp : Stamp) :
    (Event.ofNotification (a.notification title) stamp).fields.get? k = some v := by
  obtain ⟨-, -, -, hrecords⟩ := a.notification_spec title
  have hkept : (Event.ofNotification (a.notification title) stamp).fields.get? k =
      (a.notification title).fields.get? k := by
    rw [← Event.isReserved_iff] at hcore
    exact Table.get?_filterKeys (by simp [hcore]) _
  have hkey : k ∈ keysOf a.fields.reverse := List.mem_map_of_mem (List.mem_reverse.2 hmem)
  obtain ⟨w, hw⟩ := mem_keysOf_iff_lookup.1 hkey
  rw [hkept, hrecords.last_value, List.reverse_append, List.lookup_append, hw,
    hsole w (List.mem_reverse.1 (mem_of_lookup hw))]
  rfl

end EventPost.CommandLine
