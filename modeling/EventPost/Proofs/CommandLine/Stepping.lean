import EventPost.Proofs.CommandLine.Spelling
import EventPost.Proofs.Result

/-!
What one argument does, told by what it is: a double dash, a flag with or without a value, letters, a
value that was waited for, or a word. Only the last two look at what waits; every other argument, and
a word, has it taken up first. So a value may as well be taken up as soon as it comes.
-/

namespace EventPost.CommandLine

theorem Flag.ofName?_eq_some {name : String} {f : Flag} : ofName? name = some f ↔ f.name = name := by
  constructor
  · intro h
    have hfound : all.find? (·.name = name) = some f := h
    simpa using List.find?_some hfound
  · rintro rfl
    exact ofName?_name f

theorem Mention.spell_none (f : Flag) :
    (Mention.mk f none).spell.toList = '-' :: '-' :: f.name.toList := by
  simp [spell]

theorem Mention.spell_some (f : Flag) (v : String) :
    (Mention.mk f (some v)).spell.toList = '-' :: '-' :: (f.name.toList ++ '=' :: v.toList) := by
  simp [spell]

theorem Arguments.priority_put {a b : Arguments} {f : Flag} {value : String}
    (h : a.put value f = .ok b) : b.priority = a.priority := by
  cases f with
  | metadata | field | timeout | format | completions =>
    obtain ⟨x, -, rfl⟩ := map_eq_ok.1 h
    rfl
  | config =>
    rw [put] at h
    split at h
    · cases h
    · obtain rfl := Except.ok.inj h
      rfl
  | help | version => cases h
  | body | url | actor | tag | actionRequired | groupKey | expiresAt | server | dryRun =>
    obtain rfl := Except.ok.inj h
    rfl

namespace Progress

def glued : List Char → Option String
  | [] => none
  | '=' :: v => some (String.ofList v)
  | v => some (String.ofList v)

def Wordlike (arg : String) : Prop := ∀ c cs, arg.toList ≠ '-' :: c :: cs

inductive Stepped (p : Progress) (arg : String) : Progress → Prop
  | dashes : p.plain = false → arg = "--" → Stepped p arg { p with plain := true }
  | mention {q : Progress} (m : Mention) : p.plain = false → arg = m.spell →
    p.flag m.flag m.value = .ok q → Stepped p arg q
  | letters {q : Progress} {c : Char} {cs : List Char} : p.plain = false →
    arg.toList = '-' :: c :: cs → c ≠ '-' → p.letters (c :: cs) = .ok q → Stepped p arg q
  | value {f : Flag} : p.plain = false → Wordlike arg → p.waiting = some (f, none) →
    Stepped p arg { p with waiting := some (f, some arg) }
  | word {q : Progress} : (p.plain = false → Wordlike arg ∧ ∀ f, p.waiting ≠ some (f, none)) →
    p.word arg = .ok q → Stepped p arg q

variable {p q r s : Progress} {f : Flag} {arg : String} {args : List String} {a : Arguments}

theorem named_eq_ok {cs : List Char} : p.named cs = .ok q ↔
    ∃ m : Mention, m.spell.toList = '-' :: '-' :: cs ∧ p.flag m.flag m.value = .ok q := by
  constructor
  · intro h
    unfold named at h
    cases hsplit : splitOnce '=' cs with
    | none =>
      simp only [hsplit] at h
      split at h
      · cases h
      · rename_i f hname
        refine ⟨⟨f, none⟩, ?_, h⟩
        rw [Mention.spell_none, Flag.ofName?_eq_some.1 hname, String.toList_ofList]
    | some parts =>
      obtain ⟨name, v⟩ := parts
      simp only [hsplit] at h
      split at h
      · cases h
      · rename_i f hname
        refine ⟨⟨f, some (String.ofList v)⟩, ?_, h⟩
        rw [Mention.spell_some, Flag.ofName?_eq_some.1 hname, String.toList_ofList,
          String.toList_ofList, (splitOnce_eq_some_iff.1 hsplit).1]
  · rintro ⟨⟨f, value⟩, hspell, h⟩
    cases value with
    | none =>
      rw [Mention.spell_none] at hspell
      rw [← (List.cons.inj (List.cons.inj hspell).2).2, named_unvalued]
      exact h
    | some v =>
      rw [Mention.spell_some] at hspell
      rw [← (List.cons.inj (List.cons.inj hspell).2).2, named_valued]
      exact h

theorem letters_cons {c : Char} {cs : List Char} : p.letters (c :: cs) = .ok q ↔
    ∃ f, Flag.ofLetter? c = some f ∧ ((f.takesValue = true ∧ p.flag f (glued cs) = .ok q) ∨
      f.takesValue = false ∧ ∃ p', p.flag f none = .ok p' ∧ p'.letters cs = .ok q) := by
  rw [letters.eq_def]
  dsimp only
  cases Flag.ofLetter? c with
  | none => simp
  | some f =>
    cases hvalue : f.takesValue with
    | true =>
      simp only [hvalue, if_true, Option.some.injEq, exists_eq_left', true_and, Bool.true_eq_false,
        false_and, or_false]
      exact Iff.rfl
    | false => cases hflag : p.flag f none <;> simp [hvalue, hflag]

theorem kinds (arg : String) : Wordlike arg ∨ arg = "--" ∨
    (∃ c cs, arg.toList = '-' :: '-' :: c :: cs) ∨ ∃ c cs, arg.toList = '-' :: c :: cs ∧ c ≠ '-' := by
  by_cases hword : Wordlike arg
  · exact .inl hword
  obtain ⟨c, cs, hchars⟩ : ∃ c cs, arg.toList = '-' :: c :: cs := by
    simpa [Wordlike] using hword
  by_cases hc : c = '-'
  · subst hc
    cases cs with
    | nil => exact .inr (.inl (String.toList_inj.1 hchars))
    | cons c cs => exact .inr (.inr (.inl ⟨c, cs, hchars⟩))
  · exact .inr (.inr (.inr ⟨c, cs, hchars, hc⟩))

theorem step_double (hp : p.plain = false) : p.step "--" = .ok { p with plain := true } := by
  have hchars : "--".toList = ['-', '-'] := rfl
  rw [step, hp, hchars]
  rfl

theorem step_letters (hp : p.plain = false) {c : Char} {cs : List Char}
    (hchars : arg.toList = '-' :: c :: cs) (hc : c ≠ '-') : p.step arg = p.letters (c :: cs) := by
  unfold step
  rw [hp, if_neg Bool.false_ne_true, hchars]
  split
  · rename_i h
    exact absurd (List.cons.inj (List.cons.inj h).2).1 hc
  · rename_i h
    exact absurd (List.cons.inj (List.cons.inj h).2).1 hc
  · rename_i h
    rw [(List.cons.inj h).2]
  · rename_i h
    exact absurd rfl (h c cs)

theorem step_wordlike (hp : p.plain = false) (h : Wordlike arg) : p.step arg =
    match p.waiting with
      | some (f, none) => .ok { p with waiting := some (f, some arg) }
      | _ => p.word arg := by
  unfold step
  rw [hp, if_neg Bool.false_ne_true]
  split
  · exact absurd ‹arg.toList = _› (h _ _)
  · rename_i c cs hchars
    exact absurd hchars (h _ _)
  · exact absurd ‹arg.toList = _› (h _ _)
  · rfl

theorem step_value (hp : p.plain = false) (hwaiting : p.waiting = some (f, none))
    (harg : arg.toList.head? ≠ some '-') :
    p.step arg = .ok { p with waiting := some (f, some arg) } := by
  have hword : Wordlike arg := fun c cs hchars => harg (by rw [hchars]; rfl)
  rw [step_wordlike hp hword, hwaiting]

theorem step_plain (hp : p.plain = true) (arg : String) : p.step arg = p.word arg := by
  rw [step, if_pos hp]

theorem Stepped.step (h : Stepped p arg q) : p.step arg = .ok q := by
  cases h with
  | dashes hp harg => rw [harg, step_double hp]
  | mention m hp harg hflag => rw [harg, step_spell hp, hflag]
  | letters hp hchars hc hletters => rw [step_letters hp hchars hc, hletters]
  | value hp hword hwaiting => rw [step_wordlike hp hword, hwaiting]
  | word hwhen hword =>
    cases hp : p.plain with
    | true => rw [step_plain hp, hword]
    | false =>
      obtain ⟨hwordlike, hwaiting⟩ := hwhen hp
      rw [step_wordlike hp hwordlike]
      split
      · exact absurd ‹p.waiting = _› (hwaiting _)
      · exact hword

theorem step_eq_ok : p.step arg = .ok q ↔ Stepped p arg q := by
  refine ⟨fun h => ?_, Stepped.step⟩
  cases hp : p.plain with
  | true =>
    rw [step_plain hp] at h
    exact .word (fun hp' => absurd (hp'.symm.trans hp) Bool.false_ne_true) h
  | false =>
    rcases kinds arg with hword | rfl | ⟨c, cs, hchars⟩ | ⟨c, cs, hchars, hc⟩
    · rw [step_wordlike hp hword] at h
      split at h
      · rename_i f hwaiting
        obtain rfl := Except.ok.inj h
        exact .value hp hword hwaiting
      · rename_i hwaiting
        exact .word (fun _ => ⟨hword, hwaiting⟩) h
    · rw [step_double hp] at h
      obtain rfl := Except.ok.inj h
      exact .dashes hp rfl
    · rw [step_dashes hp hchars] at h
      obtain ⟨m, hspell, hflag⟩ := named_eq_ok.1 h
      exact .mention m hp (String.toList_inj.1 (hchars.trans hspell.symm)) hflag
    · rw [step_letters hp hchars hc] at h
      exact .letters hp hchars hc h

def run (p : Progress) (args : List String) : Except ArgumentFault Arguments :=
  match args.foldlM step p with
  | .error e => .error e
  | .ok q => q.finish

theorem run_cons (p : Progress) (arg : String) (args : List String) :
    p.run (arg :: args) = p.step arg >>= fun q => q.run args := by
  rw [run, List.foldlM_cons]
  cases p.step arg <;> rfl

theorem settle_of_none (h : p.waiting = none) : p.settle = .ok p := by
  rw [settle, h]

theorem take_plain (p : Progress) (f : Flag) (value : String) (b : Bool) :
    ({ p with plain := b }).take f value = (p.take f value).map fun q => { q with plain := b } := by
  rw [take, take]
  split
  · rfl
  · cases p.arguments.put value f <;> rfl

theorem settle_plain (p : Progress) (b : Bool) :
    ({ p with plain := b }).settle = p.settle.map fun q => { q with plain := b } := by
  obtain ⟨a, seen, waiting, plain⟩ := p
  match waiting with
  | none => rfl
  | some (f, none) => rfl
  | some (f, some v) => exact take_plain ⟨a, seen, none, plain⟩ f v b

theorem take_kept {value : String} (h : p.take f value = .ok q) : q.plain = p.plain ∧
    q.waiting = p.waiting ∧ q.arguments.priority = p.arguments.priority := by
  rw [take] at h
  split at h
  · cases h
  · obtain ⟨a, hput, rfl⟩ := map_eq_ok.1 h
    exact ⟨rfl, rfl, Arguments.priority_put hput⟩

theorem settled (h : p.settle = .ok s) : s.settle = .ok s ∧ s.waiting = none ∧ s.plain = p.plain ∧
    s.arguments.priority = p.arguments.priority ∧ ∀ f, p.waiting ≠ some (f, none) := by
  rw [settle] at h
  split at h
  · rename_i hwaiting
    obtain rfl := Except.ok.inj h
    exact ⟨settle_of_none hwaiting, hwaiting, rfl, rfl, fun f => by simp [hwaiting]⟩
  · cases h
  · rename_i hwaiting
    obtain ⟨hplain, hnone, hpriority⟩ := take_kept h
    exact ⟨settle_of_none hnone, hnone, hplain, hpriority, fun f => by simp [hwaiting]⟩

theorem word_settled (h : p.settle = .ok s) (arg : String) : p.word arg = s.word arg := by
  obtain ⟨hs, -, -, hpriority, -⟩ := settled h
  rw [word, word, h, hs, hpriority]

theorem flag_settled (h : p.settle = .ok s) (f : Flag) (value : Option String) :
    p.flag f value = s.flag f value := by
  obtain ⟨hs, -, -, -, -⟩ := settled h
  unfold flag
  rw [h, hs]

theorem letters_settled (h : p.settle = .ok s) (c : Char) (cs : List Char) :
    p.letters (c :: cs) = s.letters (c :: cs) := by
  rw [letters.eq_def, letters.eq_def s]
  simp only [flag_settled h]

theorem named_settled (h : p.settle = .ok s) (cs : List Char) : p.named cs = s.named cs := by
  unfold named
  simp only [flag_settled h]

theorem step_settled (h : p.settle = .ok s) (harg : p.plain = true ∨ arg ≠ "--") :
    p.step arg = s.step arg := by
  obtain ⟨-, hnone, hplain, -, hwaiting⟩ := settled h
  cases hp : p.plain with
  | true => rw [step_plain hp, step_plain (hplain.trans hp), word_settled h]
  | false =>
    have hs : s.plain = false := hplain.trans hp
    rcases kinds arg with hword | rfl | ⟨c, cs, hchars⟩ | ⟨c, cs, hchars, hc⟩
    · rw [step_wordlike hp hword, step_wordlike hs hword, hnone]
      split
      · exact absurd ‹p.waiting = _› (hwaiting _)
      · exact word_settled h arg
    · simp [hp] at harg
    · rw [step_dashes hp hchars, step_dashes hs hchars, named_settled h]
    · rw [step_letters hp hchars hc, step_letters hs hchars hc, letters_settled h]

theorem run_settled (h : p.settle = .ok s) (args : List String) : p.run args = s.run args := by
  induction args generalizing p s with
  | nil =>
    change p.finish = s.finish
    rw [finish, finish, h, (settled h).1]
  | cons arg args ih =>
    obtain ⟨-, -, hplain, -⟩ := settled h
    rw [run_cons, run_cons]
    by_cases harg : p.plain = true ∨ arg ≠ "--"
    · rw [step_settled h harg]
    · obtain ⟨hp, rfl⟩ : p.plain = false ∧ arg = "--" := by simpa using harg
      rw [step_double hp, step_double (hplain.trans hp)]
      exact ih (by rw [settle_plain, h]; rfl)

theorem settles_of_word (h : p.word arg = .ok q) : ∃ s, p.settle = .ok s := by
  rw [word] at h
  split at h
  · cases h
  · obtain ⟨s, hs, -⟩ := map_eq_ok.1 h
    exact ⟨s, hs⟩

theorem settles_of_flag {value : Option String} (h : p.flag f value = .ok q) :
    ∃ s, p.settle = .ok s := by
  unfold flag at h
  cases hs : p.settle with
  | ok s => exact ⟨s, rfl⟩
  | error e =>
    simp only [hs] at h
    cases value <;>
    · split at h <;> cases h

theorem settles_of_run (h : p.run args = .ok a)
    (hnext : p.plain = true ∨ (∀ f, p.waiting ≠ some (f, none)) ∨ ∀ arg ∈ args.head?, ¬Wordlike arg) :
    ∃ s, p.settle = .ok s := by
  induction args generalizing p with
  | nil =>
    change p.finish = .ok a at h
    rw [finish] at h
    cases hs : p.settle with
    | ok s => exact ⟨s, rfl⟩
    | error e => simp [hs] at h
  | cons arg args ih =>
    rw [run_cons] at h
    obtain ⟨q, hstep, hrest⟩ := bind_eq_ok.1 h
    cases step_eq_ok.1 hstep with
    | dashes hp =>
      obtain ⟨s, hs⟩ := ih hrest (.inl rfl)
      rw [settle_plain] at hs
      obtain ⟨s, hs, -⟩ := map_eq_ok.1 hs
      exact ⟨s, hs⟩
    | mention m _ _ hflag => exact settles_of_flag hflag
    | letters _ _ _ hletters =>
      obtain ⟨f, -, ⟨-, hflag⟩ | ⟨-, p', hflag, -⟩⟩ := letters_cons.1 hletters
      · exact settles_of_flag hflag
      · exact settles_of_flag hflag
    | @value f hp hword hwaiting =>
      rcases hnext with hplain | hnot | hdash
      · rw [hp] at hplain
        cases hplain
      · exact absurd hwaiting (hnot f)
      · exact absurd hword (hdash arg rfl)
    | word _ hword => exact settles_of_word hword

end Progress

end EventPost.CommandLine
