import EventPost.Proofs.CommandLine.Entry
import EventPost.Proofs.Numeral.Decimal

/-!
All arguments can be spelled. A flag is taken up as it is written, whatever is behind its equals sign,
and only the part of the arguments that the flag is about changes. So after some of the flags, in any
order, each part holds the first of its values, as many as were given; in the end it holds all of
them. Behind the double dash words are only words.
-/

namespace EventPost.CommandLine

/-- The arguments that a command line can ask for besides completions. -/
structure Expressible (a : Arguments) : Prop where
  sends : a.completions = none
  eventType : a.eventType.isSome → a.title.isSome
  priority : a.priority.isSome → a.eventType.isSome
  timeout : a.timeoutSecs ≠ some 0
  config : a.config ≠ some ""
  metadata : ∀ e ∈ a.metadata, IsKey e.1 ∧ IsValue e.2
  fields : ∀ e ∈ a.fields, IsKey e.1 ∧ IsValue e.2

theorem entry_spellEntry {e : String × Json} (h : IsKey e.1 ∧ IsValue e.2) (f : Flag) :
    entry f (spellEntry e) = .ok e := by
  rw [entry, readEntry_spellEntry h.1 h.2]
  rfl

theorem readTimeout_decimal {n : UInt64} (h : n ≠ 0) :
    readTimeout (Numeral.decimalText n.toNat) = .ok n := by
  have hword : n.toNat ≤ Numeral.maxWord := Nat.le_of_lt_succ n.toNat_lt
  rw [readTimeout, Numeral.decimalText, String.toList_ofList, Numeral.readWord_decimal, if_pos hword,
    UInt64.ofNat_toNat]
  exact if_neg h

theorem Format.ofName?_name (v : Format) : ofName? v.name = some v := by cases v <;> decide

namespace Mention

variable {f : Flag} {m : Mention} {more : List Mention} {k : Nat}

theorem ofSwitch_drop {wanted : Bool} (h : (ofSwitch f wanted).drop k = m :: more) :
    k = 0 ∧ wanted = true ∧ m = ⟨f, none⟩ := by
  cases wanted with
  | false => simp [ofSwitch] at h
  | true =>
    cases k with
    | zero => exact ⟨rfl, rfl, (List.cons.inj h).1.symm⟩
    | succ k => simp [ofSwitch] at h

theorem ofList_drop {values : List String} (h : (ofList f values).drop k = m :: more) :
    ∃ v, values[k]? = some v ∧ m = ⟨f, some v⟩ := by
  have hk : (ofList f values)[k]? = some m := by
    rw [← List.head?_drop, h]
    rfl
  rw [ofList, List.getElem?_map, Option.map_eq_some_iff] at hk
  obtain ⟨v, hv, rfl⟩ := hk
  exact ⟨v, hv, rfl⟩

theorem ofOption_drop {value : Option String} (h : (ofOption f value).drop k = m :: more) :
    k = 0 ∧ ∃ v, value = some v ∧ m = ⟨f, some v⟩ := by
  have hlist : (ofList f value.toList).drop k = m :: more := h
  obtain ⟨v, hv, rfl⟩ := ofList_drop hlist
  cases value with
  | none => exact nomatch hv
  | some w =>
    cases k with
    | zero => exact ⟨rfl, v, hv, rfl⟩
    | succ k => exact nomatch hv

theorem flag_of_mem_ofList {values : List String} (h : m ∈ ofList f values) :
    m.flag = f ∧ m.value.isSome = true := by
  obtain ⟨v, -, rfl⟩ := List.mem_map.1 h
  exact ⟨rfl, rfl⟩

theorem flag_of_mem_ofSwitch {wanted : Bool} (h : m ∈ ofSwitch f wanted) :
    m.flag = f ∧ m.value.isSome = false := by
  cases wanted with
  | false => exact absurd h List.not_mem_nil
  | true => rw [List.mem_singleton.1 h]; exact ⟨rfl, rfl⟩

end Mention

namespace Arguments

def mentionsOf (a : Arguments) : Flag → List Mention
  | .body => Mention.ofOption .body a.body
  | .url => Mention.ofOption .url a.url
  | .actor => Mention.ofOption .actor a.actor
  | .tag => Mention.ofList .tag a.tags
  | .actionRequired => Mention.ofSwitch .actionRequired a.actionRequired
  | .groupKey => Mention.ofOption .groupKey a.groupKey
  | .expiresAt => Mention.ofOption .expiresAt a.expiresAt
  | .metadata => Mention.ofList .metadata (a.metadata.map spellEntry)
  | .field => Mention.ofList .field (a.fields.map spellEntry)
  | .server => Mention.ofOption .server a.server
  | .timeout => Mention.ofOption .timeout (a.timeoutSecs.map fun n => Numeral.decimalText n.toNat)
  | .dryRun => Mention.ofSwitch .dryRun a.dryRun
  | .format => Mention.ofOption .format (a.format.map Format.name)
  | .config => Mention.ofOption .config a.config
  | .completions => Mention.ofOption .completions (a.completions.map Shell.name)
  | .help | .version => []

theorem mentions_eq (a : Arguments) : a.mentions = Flag.all.flatMap a.mentionsOf := by
  simp only [mentions, Flag.all, List.flatMap_cons, List.flatMap_nil, mentionsOf, List.append_assoc,
    List.append_nil]

theorem flag_of_mem_mentionsOf {a : Arguments} {f : Flag} {m : Mention} (h : m ∈ a.mentionsOf f) :
    m.flag = f ∧ m.value.isSome = f.takesValue := by
  cases f with
  | body | url | actor | groupKey | expiresAt | server | timeout | format | config | completions =>
    exact Mention.flag_of_mem_ofList h
  | tag | metadata | field => exact Mention.flag_of_mem_ofList h
  | actionRequired | dryRun => exact Mention.flag_of_mem_ofSwitch h
  | help | version => exact absurd h List.not_mem_nil

theorem length_mentionsOf (a : Arguments) {f : Flag} (h : f.repeats = false) :
    (a.mentionsOf f).length ≤ 1 := by
  have hoption : ∀ value : Option String, (Mention.ofOption f value).length ≤ 1 := by
    intro value
    cases value <;> simp [Mention.ofOption]
  have hswitch : ∀ wanted : Bool, (Mention.ofSwitch f wanted).length ≤ 1 := by
    intro wanted
    cases wanted <;> simp [Mention.ofSwitch]
  cases f with
  | body | url | actor | groupKey | expiresAt | server | timeout | format | config | completions =>
    exact hoption _
  | actionRequired | dryRun => exact hswitch _
  | tag | metadata | field => exact nomatch h
  | help | version => exact Nat.zero_le 1

theorem filter_mentions (a : Arguments) (f : Flag) :
    a.mentions.filter (·.flag = f) = a.mentionsOf f := by
  have hown : ∀ g, (a.mentionsOf g).filter (·.flag = f) = if g = f then a.mentionsOf g else [] := by
    intro g
    split
    · refine List.filter_eq_self.2 fun m hm => ?_
      rw [(flag_of_mem_mentionsOf hm).1]
      exact decide_eq_true ‹g = f›
    · refine List.filter_eq_nil_iff.2 fun m hm => ?_
      rw [(flag_of_mem_mentionsOf hm).1]
      exact fun he => ‹g ≠ f› (of_decide_eq_true he)
  rw [mentions_eq, List.filter_flatMap]
  simp only [hown]
  cases f <;> simp [Flag.all]

/-- What is kept of the arguments when only the first mentions of each flag, as many as `n` says, are
taken up, and no words. -/
def keep (a : Arguments) (n : Flag → Nat) : Arguments where
  title := Option.none
  eventType := Option.none
  priority := Option.none
  body := if n .body = 0 then Option.none else a.body
  url := if n .url = 0 then Option.none else a.url
  actor := if n .actor = 0 then Option.none else a.actor
  tags := a.tags.take (n .tag)
  actionRequired := if n .actionRequired = 0 then false else a.actionRequired
  groupKey := if n .groupKey = 0 then Option.none else a.groupKey
  expiresAt := if n .expiresAt = 0 then Option.none else a.expiresAt
  metadata := a.metadata.take (n .metadata)
  fields := a.fields.take (n .field)
  server := if n .server = 0 then Option.none else a.server
  timeoutSecs := if n .timeout = 0 then Option.none else a.timeoutSecs
  dryRun := if n .dryRun = 0 then false else a.dryRun
  format := if n .format = 0 then Option.none else a.format
  config := if n .config = 0 then Option.none else a.config
  completions := Option.none

def more (n : Flag → Nat) (f : Flag) : Flag → Nat := fun g => if g = f then n g + 1 else n g

theorem more_self (n : Flag → Nat) (f : Flag) : more n f f = n f + 1 := if_pos rfl

theorem more_other (n : Flag → Nat) {f g : Flag} (h : g ≠ f) : more n f g = n g := if_neg h

theorem le_more (n : Flag → Nat) (f g : Flag) : n g ≤ more n f g := by
  unfold more
  split <;> omega

theorem put_keep {a : Arguments} (h : Expressible a) {n : Flag → Nat} {f : Flag} {m : Mention}
    {rest : List Mention} (hm : (a.mentionsOf f).drop (n f) = m :: rest) :
    (a.keep n).put (m.value.getD "") f = .ok (a.keep (more n f)) := by
  cases f with
  | body | url | actor | groupKey | expiresAt | server =>
    obtain ⟨-, v, hv, rfl⟩ := Mention.ofOption_drop hm
    simp [put, keep, more, hv]
  | actionRequired | dryRun =>
    obtain ⟨-, hv, rfl⟩ := Mention.ofSwitch_drop hm
    simp [put, keep, more, hv]
  | tag =>
    obtain ⟨v, hv, rfl⟩ := Mention.ofList_drop hm
    simp [put, keep, more, List.take_add_one, hv]
  | metadata =>
    obtain ⟨v, hv, rfl⟩ := Mention.ofList_drop hm
    rw [List.getElem?_map, Option.map_eq_some_iff] at hv
    obtain ⟨e, he, rfl⟩ := hv
    have hread := entry_spellEntry (h.metadata e (List.mem_of_getElem? he)) .metadata
    simp [put, hread, Except.map, keep, more, List.take_add_one, he]
  | field =>
    obtain ⟨v, hv, rfl⟩ := Mention.ofList_drop hm
    rw [List.getElem?_map, Option.map_eq_some_iff] at hv
    obtain ⟨e, he, rfl⟩ := hv
    have hread := entry_spellEntry (h.fields e (List.mem_of_getElem? he)) .field
    simp [put, hread, Except.map, keep, more, List.take_add_one, he]
  | timeout =>
    obtain ⟨-, v, hv, rfl⟩ := Mention.ofOption_drop hm
    obtain ⟨secs, hsecs, rfl⟩ := Option.map_eq_some_iff.1 hv
    have hread := readTimeout_decimal fun hzero => h.timeout (hzero ▸ hsecs)
    simp [put, hread, Except.map, keep, more, hsecs]
  | format =>
    obtain ⟨-, v, hv, rfl⟩ := Mention.ofOption_drop hm
    obtain ⟨format, hformat, rfl⟩ := Option.map_eq_some_iff.1 hv
    simp [put, choose, Format.ofName?_name, Except.map, keep, more, hformat]
  | config =>
    obtain ⟨-, path, hpath, rfl⟩ := Mention.ofOption_drop hm
    have hpresent : path ≠ "" := fun hempty => h.config (hempty ▸ hpath)
    simp [put, hpresent, keep, more, hpath]
  | completions =>
    obtain ⟨-, v, hv, rfl⟩ := Mention.ofOption_drop hm
    rw [h.sends] at hv
    exact nomatch hv
  | help | version => simp [mentionsOf] at hm

theorem keep_all {a : Arguments} (h : Expressible a) {n : Flag → Nat}
    (hn : ∀ f, (a.mentionsOf f).length ≤ n f) :
    a.keep n = { a with title := Option.none, eventType := Option.none, priority := Option.none } := by
  have hoption : ∀ {α : Type} (f : Flag) (x : Option α),
      x.toList.length = (a.mentionsOf f).length → (if n f = 0 then Option.none else x) = x := by
    intro α f x hx
    have hf := hn f
    split
    · cases x with
      | none => rfl
      | some v => rw [Option.toList_some, List.length_singleton] at hx; omega
    · rfl
  have hswitch : ∀ (f : Flag) (wanted : Bool), (wanted = true → 0 < (a.mentionsOf f).length) →
      (if n f = 0 then false else wanted) = wanted := by
    intro f wanted hwanted
    have hf := hn f
    split
    · cases wanted with
      | false => rfl
      | true => have hpos := hwanted rfl; omega
    · rfl
  have hlist : ∀ {α : Type} (f : Flag) (xs : List α), xs.length = (a.mentionsOf f).length →
      xs.take (n f) = xs :=
    fun f _ hxs => List.take_of_length_le (hxs ▸ hn f)
  rw [keep, Arguments.mk.injEq]
  refine ⟨rfl, rfl, rfl, hoption .body _ ?_, hoption .url _ ?_, hoption .actor _ ?_,
    hlist .tag _ ?_, hswitch .actionRequired _ ?_, hoption .groupKey _ ?_, hoption .expiresAt _ ?_,
    hlist .metadata _ ?_, hlist .field _ ?_, hoption .server _ ?_, hoption .timeout _ ?_,
    hswitch .dryRun _ ?_, hoption .format _ ?_, hoption .config _ ?_, h.sends.symm⟩
  all_goals simp +contextual [mentionsOf, Mention.ofOption, Mention.ofSwitch, Mention.ofList,
    Option.toList_map]

end Arguments

/-- A command line that has been read flag by flag. -/
structure Along (a : Arguments) (n : Flag → Nat) (p : Progress) : Prop where
  arguments : p.arguments = a.keep n
  seen : ∀ f ∈ p.seen, 0 < n f ∧ a.mentionsOf f ≠ []
  waiting : p.waiting = none
  plain : p.plain = false

variable {a : Arguments} {n : Flag → Nat} {p : Progress} {m : Mention} {rest : List Mention}

theorem named_unvalued (p : Progress) (f : Flag) : p.named f.name.toList = p.flag f none := by
  have hsplit : splitOnce '=' f.name.toList = none :=
    splitOnce_eq_none.2 (by cases f <;> decide)
  rw [Progress.named, hsplit]
  dsimp only
  rw [String.ofList_toList, Flag.ofName?_name]

theorem named_valued (p : Progress) (f : Flag) (v : String) :
    p.named (f.name.toList ++ '=' :: v.toList) = p.flag f (some v) := by
  have hsplit : splitOnce '=' (f.name.toList ++ '=' :: v.toList) = some (f.name.toList, v.toList) :=
    splitOnce_eq_some_iff.2 ⟨rfl, by cases f <;> decide⟩
  rw [Progress.named, hsplit]
  dsimp only
  rw [String.ofList_toList, String.ofList_toList, Flag.ofName?_name]

theorem step_dashes (hplain : p.plain = false) {arg : String} {c : Char} {cs : List Char}
    (harg : arg.toList = '-' :: '-' :: c :: cs) : p.step arg = p.named (c :: cs) := by
  rw [Progress.step, hplain, harg]
  rfl

theorem step_spell (hplain : p.plain = false) (m : Mention) :
    p.step m.spell = p.flag m.flag m.value := by
  obtain ⟨c, cs, hname⟩ : ∃ c cs, m.flag.name.toList = c :: cs := by
    cases m.flag <;> exact ⟨_, _, rfl⟩
  cases hv : m.value with
  | none =>
    have hspell : m.spell.toList = '-' :: '-' :: c :: cs := by
      simp [Mention.spell, hv, hname]
    rw [step_dashes hplain hspell, ← hname, named_unvalued]
  | some v =>
    have hspell : m.spell.toList = '-' :: '-' :: c :: (cs ++ '=' :: v.toList) := by
      simp [Mention.spell, hv, hname]
    rw [step_dashes hplain hspell, ← List.cons_append, ← hname, named_valued]

theorem flag_eq_take {f : Flag} {value : Option String} (hp : p.waiting = none)
    (hv : value.isSome = f.takesValue) : p.flag f value = p.take f (value.getD "") := by
  have hsettle : p.settle = .ok p := by rw [Progress.settle, hp]
  unfold Progress.flag
  simp only [← hv, hsettle]
  cases value with
  | none => rfl
  | some v => rfl

theorem Along.step (h : Expressible a) (hp : Along a n p)
    (hm : (a.mentionsOf m.flag).drop (n m.flag) = m :: rest) :
    ∃ q, p.step m.spell = .ok q ∧ Along a (Arguments.more n m.flag) q := by
  have hmem : m ∈ a.mentionsOf m.flag := List.mem_of_mem_drop (hm ▸ List.mem_cons_self)
  have hlt : n m.flag < (a.mentionsOf m.flag).length := by
    have hlength := congrArg List.length hm
    rw [List.length_drop, List.length_cons] at hlength
    omega
  have hfirst : (!m.flag.repeats && p.seen.contains m.flag) = false := by
    cases hr : m.flag.repeats with
    | true => rfl
    | false =>
      -- The one mention of the flag is still to come, so the flag has not been seen.
      have hle := a.length_mentionsOf hr
      rw [Bool.not_false, Bool.true_and, List.contains_eq_mem, decide_eq_false_iff_not]
      intro hseen
      have hpos := (hp.seen _ hseen).1
      omega
  refine ⟨{ p with arguments := a.keep (Arguments.more n m.flag), seen := m.flag :: p.seen }, ?_, ?_⟩
  · rw [step_spell hp.plain, flag_eq_take hp.waiting (a.flag_of_mem_mentionsOf hmem).2, Progress.take,
      hfirst, hp.arguments, a.put_keep h hm]
    rfl
  · refine ⟨rfl, fun f hf => ?_, hp.waiting, hp.plain⟩
    rcases List.mem_cons.1 hf with he | hf
    · rw [he, Arguments.more_self]
      exact ⟨Nat.succ_pos _, List.ne_nil_of_mem hmem⟩
    · exact ⟨Nat.lt_of_lt_of_le (hp.seen f hf).1 (Arguments.le_more n m.flag f), (hp.seen f hf).2⟩

theorem Along.steps (h : Expressible a) {ms : List Mention} (hp : Along a n p)
    (hms : ∀ f, ms.filter (·.flag = f) = (a.mentionsOf f).drop (n f)) :
    ∃ q last, (ms.map Mention.spell).foldlM Progress.step p = .ok q ∧ Along a last q ∧
      ∀ f, (a.mentionsOf f).length ≤ last f := by
  -- What is left of the mentions is, flag by flag, what the counts leave of each flag's list.
  induction ms generalizing n p with
  | nil => exact ⟨p, n, rfl, hp, fun f => List.drop_eq_nil_iff.1 (hms f).symm⟩
  | cons m ms ih =>
    have hm : (a.mentionsOf m.flag).drop (n m.flag) = m :: ms.filter (·.flag = m.flag) := by
      rw [← hms, List.filter_cons, if_pos (decide_eq_true rfl)]
    have hrest : ∀ f, ms.filter (·.flag = f) =
        (a.mentionsOf f).drop (Arguments.more n m.flag f) := by
      intro f
      by_cases hf : f = m.flag
      · rw [hf, Arguments.more_self, ← List.tail_drop, hm, List.tail_cons]
      · rw [Arguments.more_other n hf, ← hms, List.filter_cons_of_neg]
        exact fun he => hf (of_decide_eq_true he).symm
    obtain ⟨q, hq, hnext⟩ := hp.step h hm
    obtain ⟨r, last, hr, hlast, hall⟩ := ih hnext hrest
    refine ⟨r, last, ?_, hlast, hall⟩
    rw [List.map_cons, List.foldlM_cons, hq]
    exact hr

theorem foldlM_words (h : Expressible a) (seen : List Flag) :
    a.words.foldlM Progress.step
      ⟨{ a with title := none, eventType := none, priority := none }, seen, none, true⟩ =
        .ok ⟨a, seen, none, true⟩ := by
  obtain ⟨title, eventType, priority⟩ := a
  have htitle : eventType.isSome → title.isSome := h.eventType
  have htype : priority.isSome → eventType.isSome := h.priority
  -- The places are filled from the left, or not at all.
  cases priority with
  | some priority =>
    obtain ⟨eventType, rfl⟩ := Option.isSome_iff_exists.1 (htype rfl)
    obtain ⟨title, rfl⟩ := Option.isSome_iff_exists.1 (htitle rfl)
    rfl
  | none =>
    cases eventType with
    | some eventType =>
      obtain ⟨title, rfl⟩ := Option.isSome_iff_exists.1 (htitle rfl)
      rfl
    | none => cases title <;> rfl

theorem filter_eq_of_perm {ms : List Mention} (hperm : ms.Perm a.mentions)
    (horder : ∀ f, f.repeats = true → ms.filter (·.flag = f) = a.mentions.filter (·.flag = f))
    (f : Flag) : ms.filter (·.flag = f) = a.mentionsOf f := by
  cases hr : f.repeats with
  | true => rw [horder f hr, a.filter_mentions]
  | false =>
    have hfilter := hperm.filter (·.flag = f)
    rw [a.filter_mentions] at hfilter
    have hle := a.length_mentionsOf hr
    match hof : a.mentionsOf f with
    | [] => rw [hof] at hfilter; exact hfilter.eq_nil
    | [m] => rw [hof] at hfilter; exact List.perm_singleton.1 hfilter
    | _ :: _ :: _ => simp [hof] at hle

theorem parse_reordered (h : Expressible a) {ms : List Mention} (hperm : ms.Perm a.mentions)
    (horder : ∀ f, f.repeats = true → ms.filter (·.flag = f) = a.mentions.filter (·.flag = f)) :
    Arguments.parse (ms.map Mention.spell ++ "--" :: a.words) = .ok a := by
  have hstart : Along a (fun _ => 0) Progress.start := by
    refine ⟨?_, fun f hf => absurd hf List.not_mem_nil, rfl, rfl⟩
    simp [Progress.start, Arguments.none, Arguments.keep]
  obtain ⟨p, n, hp, halong, hall⟩ := hstart.steps h (filter_eq_of_perm hperm horder)
  have hdashes : p.step "--" =
      .ok ⟨{ a with title := none, eventType := none, priority := none }, p.seen, none, true⟩ := by
    have hchars : "--".toList = ['-', '-'] := rfl
    rw [Progress.step, halong.plain, hchars, ← Arguments.keep_all h hall, ← halong.arguments,
      ← halong.waiting]
    rfl
  have hunseen : p.seen.contains .completions = false := by
    rw [List.contains_eq_mem, decide_eq_false_iff_not]
    intro hseen
    refine (halong.seen _ hseen).2 ?_
    rw [Arguments.mentionsOf, h.sends]
    rfl
  have hread : (ms.map Mention.spell ++ "--" :: a.words).foldlM Progress.step Progress.start =
      .ok ⟨a, p.seen, none, true⟩ := by
    rw [List.foldlM_append, hp]
    exact (congrArg (· >>= a.words.foldlM Progress.step) hdashes).trans (foldlM_words h p.seen)
  rw [Arguments.parse, hread]
  dsimp only
  rw [Progress.finish, Progress.settle]
  simp only [hunseen, Bool.false_and, Bool.false_eq_true, if_false]

/-- Every request can be expressed. -/
theorem parse_spell (h : Expressible a) : Arguments.parse a.spell = .ok a ∧
    ∀ ms : List Mention, ms.Perm a.mentions →
      (∀ f, f.repeats = true → ms.filter (·.flag = f) = a.mentions.filter (·.flag = f)) →
      Arguments.parse (ms.map Mention.spell ++ "--" :: a.words) = .ok a :=
  ⟨parse_reordered h (.refl _) fun _ _ => rfl, fun _ => parse_reordered h⟩

theorem parse_spell_mixed :
    let a : Arguments := { Arguments.none with
      title := some "--help", tags := ["", "a=b"], dryRun := true,
      metadata := [("k", .text "1")], timeoutSecs := some 5 }
    Expressible a ∧ Arguments.parse ["--dry-run", "--tag=", "--timeout=5", "--meta=k=\"1\"",
      "--tag=a=b", "--", "--help"] = .ok a := by
  intro a
  have hkey : IsKey "k" := by
    refine ⟨by decide, by decide, ⟨fun c hc => ?_, fun c hc => ?_⟩⟩
    · rw [← Option.some.inj hc]
      rfl
    · rw [← Option.some.inj hc]
      rfl
  have hvalue : IsValue (.text "1") :=
    ⟨Json.integral_text "1", Json.ordered_text "1", Nat.zero_le _⟩
  have ha : Expressible a := by
    refine ⟨rfl, by decide, by decide, by decide, by decide, fun e he => ?_,
      fun e he => absurd he List.not_mem_nil⟩
    rw [List.mem_singleton.1 he]
    exact ⟨hkey, hvalue⟩
  let ms : List Mention := [⟨.dryRun, none⟩, ⟨.tag, some ""⟩, ⟨.timeout, some "5"⟩,
    ⟨.metadata, some "k=\"1\""⟩, ⟨.tag, some "a=b"⟩]
  have hperm : ms.Perm a.mentions := by decide +kernel
  refine ⟨ha, (parse_spell ha).2 ms hperm fun f hf => ?_⟩
  cases f with
  | tag | metadata | field => decide +kernel
  | _ => exact nomatch hf

end EventPost.CommandLine
