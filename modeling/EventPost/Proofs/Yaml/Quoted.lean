import EventPost.Proofs.Yaml.Escape

/-!
Quoted scalars read back. Both kinds of quotes are taken in the same rounds: a word, up to a blank
or the closing quote, and the blanks behind it. They differ in how a character of a word is spelled,
and in that only single quotes hold line ends.
-/

namespace EventPost.Yaml

variable {single : Bool} {pen : Char → List Char} {fuel indent k : Nat} {start m : Mark}
  {rest body : List Char}

def quoteMark (single : Bool) : Char := if single then '\'' else '"'

def Spells (single : Bool) (c : Char) (written : List Char) : Prop :=
  0 < written.length ∧ ∀ (start : Mark) (fuel : Nat) (acc rest : List Char) (m : Mark),
    quotedRun single start (fuel + 1) acc ⟨written ++ rest, m⟩ =
      quotedRun single start fuel (c :: acc) ⟨rest, m.forward written.length⟩

theorem spells_bare {c : Char} (hdark : isBlankOrBreak c = false) (hmark : c ≠ quoteMark single)
    (hescape : single = false → c ≠ '\\') : Spells single c [c] := by
  refine ⟨Nat.one_pos, fun start fuel acc rest m => ?_⟩
  obtain ⟨hgap, hbreak⟩ := isBlankOrBreak_eq_false.1 hdark
  have hquote : (single && c == '\'') = false := by
    cases single with
    | false => rfl
    | true => exact beq_eq_false_iff_ne.2 hmark
  have hclose : (c == if single = true then '\'' else '"') = false := beq_eq_false_iff_ne.2 hmark
  have hback : (!single && c == '\\') = false := by
    cases single with
    | false => exact beq_eq_false_iff_ne.2 (hescape rfl)
    | true => rfl
  rw [List.singleton_append, quotedRun]
  simp only [hgap, hbreak, hquote, hclose, hback, Bool.or_self, Bool.false_and, Bool.false_eq_true,
    if_false]
  rfl

def singleChar (c : Char) : List Char := if c = '\'' then ['\'', '\''] else [c]

theorem spells_singleChar {c : Char} (h : isBlankOrBreak c = false) :
    Spells true c (singleChar c) := by
  by_cases hc : c = '\''
  · subst hc
    refine ⟨Nat.two_pos, fun start fuel acc rest m => ?_⟩
    have hquote : Source.peek? ⟨'\'' :: '\'' :: rest, m⟩ 1 = some '\'' := rfl
    rw [singleChar, if_pos rfl, List.cons_append, List.singleton_append, quotedRun]
    simp only [hquote, BEq.rfl, Bool.and_self, if_true]
    rfl
  · rw [singleChar, if_neg hc]
    exact spells_bare h hc (fun h => by cases h)

theorem spells_escapeChar {c : Char} (h : c ≠ ' ') : Spells false c (escapeChar c) := by
  have hescape : ∀ {d : Char} {written : List Char}, isBreak d = false →
      (∀ start rest m, scanEscape start ⟨'\\' :: d :: (written ++ rest), m⟩ =
        .ok (c, ⟨rest, m.forward ('\\' :: d :: written).length⟩)) →
      Spells false c ('\\' :: d :: written) := by
    intro d written hd hscan
    refine ⟨Nat.succ_pos _, fun start fuel acc rest m => ?_⟩
    have hbreak : Source.breakAt ⟨'\\' :: d :: (written ++ rest), m⟩ 1 = false := hd
    have hblank : (isGap '\\' || isBreak '\\') = false := rfl
    have hclose : ('\\' == '"') = false := rfl
    have hback : (!false && '\\' == '\\') = true := rfl
    rw [List.cons_append, List.cons_append, quotedRun]
    simp only [hblank, hclose, hback, hbreak, hscan, Bool.false_and, Bool.false_eq_true, if_false,
      if_true]
  have hwritten := escaped_escapeChar c
  generalize escapeChar c = written at hwritten
  cases hwritten with
  | bare _ hdark hquote hback => exact spells_bare hdark hquote fun _ => hback
  | space hc => exact absurd hc h
  | letter hshape hbreak => exact hescape hbreak fun start rest m => scanEscape_letter hshape
  | number hshape hbreak hwidth hc =>
    refine hescape hbreak fun start rest m => ?_
    rw [scanEscape_number hshape hwidth hc, List.length_cons, List.length_cons,
      length_upperHex hwidth hc, Nat.add_comm 2]

/-- What follows a word within quotes: a blank, or the closing quote and something else. -/
inductive EndsQuoted (single : Bool) : List Char → Prop
  | blank {c : Char} {rest : List Char} : isBlankOrBreak c = true → EndsQuoted single (c :: rest)
  | mark {rest : List Char} : rest.head? = some '\n' →
    EndsQuoted single (quoteMark single :: rest)

theorem EndsQuoted.quotedRun (h : EndsQuoted single rest) (acc : List Char) :
    quotedRun single start fuel acc ⟨rest, m⟩ = .ok (acc, false, ⟨rest, m⟩) := by
  cases fuel with
  | zero => rfl
  | succ fuel =>
    cases h with
    | blank hc => simp only [Yaml.quotedRun, (show (isGap _ || isBreak _) = true from hc), if_true]
    | mark hrest =>
      obtain ⟨r, rfl⟩ := List.head?_eq_some_iff.1 hrest
      cases single <;> rfl

theorem quotedRun_word {word : List Char} (hword : ∀ c ∈ word, Spells single c (pen c))
    (hrest : EndsQuoted single rest) (hfuel : word.length ≤ fuel) (acc : List Char) :
    quotedRun single start fuel acc ⟨word.flatMap pen ++ rest, m⟩ =
      .ok (word.reverse ++ acc, false, ⟨rest, m.forward (word.flatMap pen).length⟩) := by
  induction word generalizing fuel acc m with
  | nil => exact hrest.quotedRun acc
  | cons c word ih =>
    cases fuel with
    | zero => exact absurd hfuel (Nat.not_succ_le_zero _)
    | succ fuel =>
      rw [List.flatMap_cons, List.append_assoc, (hword c List.mem_cons_self).2,
        ih (fun d hd => hword d (List.mem_cons_of_mem c hd)) (Nat.le_of_succ_le_succ hfuel)]
      simp only [Mark.forward_forward, List.reverse_cons, List.append_assoc, List.singleton_append,
        List.length_append]

theorem length_le_flatMap {word : List Char} (h : ∀ c ∈ word, Spells single c (pen c)) :
    word.length ≤ (word.flatMap pen).length := by
  induction word with
  | nil => exact Nat.le_refl _
  | cons c word ih =>
    have hc := (h c List.mem_cons_self).1
    have htail := ih fun d hd => h d (List.mem_cons_of_mem c hd)
    rw [List.flatMap_cons, List.length_append, List.length_cons]
    omega

theorem quotedFrom_close {word : List Char} (hword : ∀ c ∈ word, Spells single c (pen c))
    (hrest : rest.head? = some '\n') (hcolumn : 0 < m.column) (acc : List Char) :
    quotedFrom single start (fuel + 1) acc
        ⟨word.flatMap pen ++ quoteMark single :: rest, m⟩ =
      .ok ⟨acc.reverse ++ word, m.forward ((word.flatMap pen).length + 1), false,
        ⟨rest, m.forward ((word.flatMap pen).length + 1)⟩⟩ := by
  have hlength : word.length ≤ (word.flatMap pen ++ quoteMark single :: rest).length := by
    rw [List.length_append]
    exact Nat.le_trans (length_le_flatMap hword) (Nat.le_add_right _ _)
  have hend : Source.atEnd ⟨word.flatMap pen ++ quoteMark single :: rest, m⟩ = false := by
    rw [Source.atEnd, List.isEmpty_eq_false_iff]
    exact List.append_ne_nil_of_right_ne_nil _ (List.cons_ne_nil _ _)
  have hclose : Source.startsWith
      ⟨quoteMark single :: rest, m.forward (word.flatMap pen).length⟩
        (if single = true then '\'' else '"') = true := by
    cases single <;> rfl
  rw [quotedFrom, Source.documentMarker_of_column hcolumn, hend,
    quotedRun_word hword (.mark hrest) hlength]
  simp only [Bool.false_eq_true, if_false, hclose, if_true, List.reverse_append,
    List.reverse_reverse, Source.skip_one, Mark.forward_forward]

theorem quotedFrom_blank {word : List Char} {c : Char}
    (hword : ∀ c ∈ word, Spells single c (pen c)) (hc : isBlankOrBreak c = true)
    (hcolumn : 0 < m.column) (acc : List Char) {f : Fold} {s : Source}
    (hgather : Fold.none.gather none (c :: rest).length
      ⟨c :: rest, m.forward (word.flatMap pen).length⟩ = .ok (f, s)) :
    quotedFrom single start (fuel + 1) acc ⟨word.flatMap pen ++ c :: rest, m⟩ =
      quotedFrom single start fuel (f.text.reverse ++ word.reverse ++ acc) s := by
  have hlength : word.length ≤ (word.flatMap pen ++ c :: rest).length := by
    rw [List.length_append]
    exact Nat.le_trans (length_le_flatMap hword) (Nat.le_add_right _ _)
  have hend : Source.atEnd ⟨word.flatMap pen ++ c :: rest, m⟩ = false := by
    rw [Source.atEnd, List.isEmpty_eq_false_iff]
    exact List.append_ne_nil_of_right_ne_nil _ (List.cons_ne_nil _ _)
  have hopen : Source.startsWith ⟨c :: rest, m.forward (word.flatMap pen).length⟩
      (if single = true then '\'' else '"') = false := by
    have hmark : isBlankOrBreak (if single = true then '\'' else '"') = false := by
      cases single <;> rfl
    have hne : c ≠ (if single = true then '\'' else '"') := by
      intro h
      rw [h, hmark] at hc
      cases hc
    exact beq_eq_false_iff_ne.2 fun h => hne (Option.some.inj h)
  rw [quotedFrom, Source.documentMarker_of_column hcolumn, hend,
    quotedRun_word hword (.blank hc) hlength]
  simp only [Bool.false_eq_true, if_false, hopen, hgather, List.append_assoc]

/-- Blanks that are laid out as `laid` are gathered as `gap`. -/
structure Folds (gap laid : List Char) : Prop where
  ne_nil : gap ≠ []
  length_le : gap.length ≤ laid.length
  blank : ∃ c cs, laid = c :: cs ∧ isBlankOrBreak c = true
  gather : ∀ {fuel : Nat} {m : Mark} {rest : List Char}, Dark rest → laid.length ≤ fuel →
    0 < m.column → ∃ f m', f.text = gap ∧ m.line ≤ m'.line ∧ 0 < m'.column ∧
      Fold.none.gather none fuel ⟨laid ++ rest, m⟩ = .ok (f, ⟨rest, m'⟩)

theorem folds_spaces (n : Nat) : Folds (spaces (n + 1)) (spaces (n + 1)) := by
  refine ⟨List.cons_ne_nil _ _, Nat.le_refl _, ⟨' ', spaces n, rfl, rfl⟩,
    fun {fuel m rest} hrest hfuel hm => ?_⟩
  refine ⟨{ Fold.none with gaps := spaces (n + 1) }, m.forward (spaces (n + 1)).length, rfl,
    Nat.le_refl _, Nat.lt_of_lt_of_le hm (Nat.le_add_right _ _), ?_⟩
  refine Fold.gather_gaps rfl (fun c hc => ?_) hrest hfuel
  rw [List.eq_of_mem_replicate hc]
  rfl

theorem folds_breaks {b : Char} {breaks : List Char}
    (hb : ∀ c ∈ b :: breaks, isBreak c = true ∧ isShown c = true) (hnew : b ≠ '\n')
    (hindent : 0 < indent) : Folds (b :: breaks) (b :: breaks ++ spaces indent) := by
  obtain ⟨hbreak, hshown⟩ := hb b List.mem_cons_self
  refine ⟨List.cons_ne_nil _ _, List.length_append ▸ Nat.le_add_right _ _,
    ⟨b, breaks ++ spaces indent, rfl, ?_⟩, fun {fuel m rest} hrest hfuel hm => ?_⟩
  · rw [isBlankOrBreak, hbreak, Bool.or_true]
  · cases fuel with
    | zero => exact absurd hfuel (Nat.not_succ_le_zero _)
    | succ fuel =>
      have hgap : isGap b = false := by
        rcases shownBreak_cases hbreak hshown with rfl | rfl | rfl <;> rfl
      obtain ⟨htext, hskip⟩ :=
        Source.breakText_of_shown hbreak hshown (breaks ++ (spaces indent ++ rest)) m
      have hlength : breaks.length + indent ≤ fuel := by
        rw [List.length_append, length_spaces, List.length_cons] at hfuel
        omega
      obtain ⟨m', hcolumn, hline, hmore⟩ := @Fold.gather_breaks none fuel
        ⟨[], [b], [], true⟩ (m.newLine 1) rest rfl breaks indent
        (fun d hd => hb d (List.mem_cons_of_mem b hd)) hrest hlength rfl
      refine ⟨⟨[], [b], breaks, true⟩, m', ?_, Nat.le_trans (Nat.le_succ _) hline,
        hcolumn ▸ hindent, ?_⟩
      · have hfirst : ¬[b].head? = some '\n' := fun h => hnew (Option.some.inj h)
        simp only [Fold.text, if_true, if_neg hfirst, List.singleton_append]
      · rw [List.append_assoc, List.cons_append, Fold.gather]
        simp only [hgap, hbreak, Fold.none, htext, hskip, Bool.false_eq_true, if_false, if_true]
        exact hmore

/-- A text as it is laid out within quotes: words, and blanks between them. -/
inductive Laid (single : Bool) (pen : Char → List Char) : (cs written : List Char) → Prop
  | word {word : List Char} : (∀ c ∈ word, Spells single c (pen c)) →
    Laid single pen word (word.flatMap pen)
  | blanks {word gap laid more written : List Char} : (∀ c ∈ word, Spells single c (pen c)) →
    Folds gap laid → Dark written → Laid single pen more written →
    Laid single pen (word ++ (gap ++ more)) (word.flatMap pen ++ (laid ++ written))

theorem Laid.length_le {cs written : List Char} (h : Laid single pen cs written) :
    cs.length ≤ written.length := by
  induction h with
  | word hword => exact length_le_flatMap hword
  | blanks hword hfolds _ _ ih =>
    have hw := length_le_flatMap hword
    have hf := hfolds.length_le
    simp only [List.length_append]
    omega

theorem dark_quoteMark (single : Bool) (rest : List Char) : Dark (quoteMark single :: rest) := by
  cases single <;> exact dark_cons.2 rfl

/-- What is laid out within quotes is read to the closing quote. -/
theorem quotedFrom_laid {cs written : List Char} (h : Laid single pen cs written)
    (hrest : rest.head? = some '\n') (hcolumn : 0 < m.column) (hfuel : cs.length < fuel)
    (acc : List Char) :
    ∃ m', m.line ≤ m'.line ∧
      quotedFrom single start fuel acc ⟨written ++ quoteMark single :: rest, m⟩ =
        .ok ⟨acc.reverse ++ cs, m', false, ⟨rest, m'⟩⟩ := by
  induction h generalizing fuel m acc with
  | @word word hword =>
    cases fuel with
    | zero => exact absurd hfuel (Nat.not_lt_zero _)
    | succ fuel =>
      exact ⟨m.forward ((word.flatMap pen).length + 1), Nat.le_refl _,
        quotedFrom_close hword hrest hcolumn acc⟩
  | @blanks word gap laid more written hword hfolds hdark hmore ih =>
    cases fuel with
    | zero => exact absurd hfuel (Nat.not_lt_zero _)
    | succ fuel =>
      obtain ⟨c, cs, hlaid, hc⟩ := hfolds.blank
      have hgap := List.length_pos_iff.2 hfolds.ne_nil
      have hlength : laid.length ≤ (laid ++ (written ++ quoteMark single :: rest)).length := by
        rw [List.length_append]
        exact Nat.le_add_right _ _
      obtain ⟨f, m₁, htext, hline₁, hcolumn₁, hgather⟩ := hfolds.gather
        (m := m.forward (word.flatMap pen).length) (hdark.append (dark_quoteMark single rest)) hlength
        (Nat.lt_of_lt_of_le hcolumn (Nat.le_add_right _ _))
      have hmoreFuel : more.length < fuel := by
        simp only [List.length_append] at hfuel
        omega
      obtain ⟨m₂, hline₂, hrec⟩ := ih hcolumn₁ hmoreFuel (f.text.reverse ++ word.reverse ++ acc)
      refine ⟨m₂, Nat.le_trans hline₁ hline₂, ?_⟩
      rw [hlaid, List.cons_append] at hgather
      rw [List.append_assoc, List.append_assoc, hlaid, List.cons_append,
        quotedFrom_blank hword hc hcolumn acc hgather, hrec, htext]
      simp only [List.reverse_append, List.reverse_reverse, List.append_assoc]

theorem dark_escapeChar {c : Char} (h : c ≠ ' ') (rest : List Char) :
    Dark (escapeChar c ++ rest) := by
  have hwritten := escaped_escapeChar c
  generalize escapeChar c = written at hwritten
  cases hwritten with
  | bare _ hdark => exact dark_cons.2 hdark
  | space hc => exact absurd hc h
  | letter => exact dark_cons.2 rfl
  | number => exact dark_cons.2 rfl

theorem laid_escapeChar (cs : List Char) : Laid false escapeChar cs (cs.flatMap escapeChar) := by
  induction hn : cs.length using Nat.strongRecOn generalizing cs with
  | ind n ih =>
    obtain ⟨word, hword, rfl | ⟨g, gap, more, rfl, hgap, hmore⟩⟩ := exists_word (· == ' ') cs
    · exact .word fun c hc => spells_escapeChar (beq_eq_false_iff_ne.1 (hword c hc))
    · have hspaces : g :: gap = spaces (gap.length + 1) :=
        eq_spaces fun c hc => beq_iff_eq.1 (hgap c hc)
      have hwritten : (spaces (gap.length + 1)).flatMap escapeChar = spaces (gap.length + 1) := by
        rw [spaces, List.flatMap_replicate, show escapeChar ' ' = [' '] by decide,
          List.flatten_replicate_singleton]
      rw [List.flatMap_append, List.flatMap_append, hspaces, hwritten]
      refine .blanks (fun c hc => spells_escapeChar (beq_eq_false_iff_ne.1 (hword c hc)))
        (folds_spaces gap.length) ?_ (ih more.length ?_ more rfl)
      · cases more with
        | nil => exact Dark.nil
        | cons c more => exact dark_escapeChar (beq_eq_false_iff_ne.1 (hmore c rfl)) _
      · rw [← hn]
        simp only [List.length_append, List.length_cons]
        omega

theorem singleBody_word {word more : List Char} (h : ∀ c ∈ word, isBreak c = false) :
    singleBody indent false (word ++ more) =
      word.flatMap singleChar ++ singleBody indent false more := by
  induction word with
  | nil => rfl
  | cons c word ih =>
    rw [List.cons_append, singleBody, h c List.mem_cons_self,
      ih fun d hd => h d (List.mem_cons_of_mem c hd)]
    simp [singleChar]

theorem singleBody_spaces (n : Nat) (more : List Char) :
    singleBody indent false (spaces n ++ more) = spaces n ++ singleBody indent false more := by
  have hflat : (spaces n).flatMap singleChar = spaces n := by
    rw [spaces, List.flatMap_replicate, show singleChar ' ' = [' '] by decide,
      List.flatten_replicate_singleton]
  rw [singleBody_word fun c hc => by rw [List.eq_of_mem_replicate hc]; rfl, hflat]

theorem singleBody_broken {more : List Char} (h : ∀ c, more.head? = some c → isBreak c = false) :
    singleBody indent true more = spaces indent ++ singleBody indent false more := by
  cases more with
  | nil => exact (List.append_nil _).symm
  | cons c more =>
    rw [singleBody, singleBody, h c rfl]
    simp

theorem singleBody_breaks {b : Char} {breaks more : List Char}
    (hb : ∀ c ∈ b :: breaks, isBreak c = true)
    (h : ∀ c, more.head? = some c → isBreak c = false) (broken : Bool) :
    singleBody indent broken (b :: breaks ++ more) =
      b :: breaks ++ (spaces indent ++ singleBody indent false more) := by
  induction breaks generalizing b broken with
  | nil =>
    rw [List.singleton_append, singleBody, if_pos (hb b List.mem_cons_self), singleBody_broken h]
    rfl
  | cons c breaks ih =>
    rw [List.cons_append, singleBody, if_pos (hb b List.mem_cons_self),
      ih (fun d hd => hb d (List.mem_cons_of_mem b hd))]
    rfl

theorem spaces_or_breaks {g : Char} {gap : List Char}
    (hblank : ∀ c ∈ g :: gap, isSpaceOrBreak c = true)
    (hspace : hasPair (· == ' ') isBreak (g :: gap) = false)
    (hbreak : hasPair isBreak (· == ' ') (g :: gap) = false) :
    (∀ c ∈ g :: gap, c = ' ') ∨ ∀ c ∈ g :: gap, isBreak c = true := by
  induction gap generalizing g with
  | nil =>
    have hg := hblank g List.mem_cons_self
    rw [isSpaceOrBreak, Bool.or_eq_true, beq_iff_eq] at hg
    simpa only [List.forall_mem_singleton] using hg
  | cons c gap ih =>
    have hg := hblank g List.mem_cons_self
    have hc := hblank c (List.mem_cons_of_mem g List.mem_cons_self)
    rw [isSpaceOrBreak, Bool.or_eq_true, beq_iff_eq] at hg hc
    simp only [hasPair, Bool.or_eq_false_iff, Bool.and_eq_false_iff, beq_eq_false_iff_ne]
      at hspace hbreak
    rcases ih (fun d hd => hblank d (List.mem_cons_of_mem g hd)) hspace.2 hbreak.2 with h | h
    · have hcs := h c List.mem_cons_self
      refine .inl (List.forall_mem_cons.2 ⟨hg.resolve_right fun hb => ?_, h⟩)
      rcases hbreak.1 with hb' | hb'
      · rw [hb] at hb'
        cases hb'
      · exact hb' hcs
    · have hcb := h c List.mem_cons_self
      refine .inr (List.forall_mem_cons.2 ⟨hg.resolve_left fun hs => ?_, h⟩)
      rcases hspace.1 with hs' | hs'
      · exact hs' hs
      · rw [hcb] at hs'
        cases hs'

theorem needsEscape_append {cs ds : List Char} (h : needsEscape (cs ++ ds) = false) :
    needsEscape cs = false ∧ needsEscape ds = false := by
  rw [needsEscape, Bool.or_eq_false_iff, List.any_append, Bool.or_eq_false_iff] at h
  obtain ⟨⟨hcs, hds⟩, hpair⟩ := h
  rw [needsEscape, needsEscape, hcs, hds, hasPair_append_left hpair, hasPair_append_right hpair]
  exact ⟨rfl, rfl⟩

theorem singleAllowed_append {cs ds : List Char} (h : singleAllowed (cs ++ ds) = true) :
    singleAllowed cs = true ∧ singleAllowed ds = true := by
  simp only [singleAllowed, Bool.and_eq_true, Bool.not_eq_true'] at h ⊢
  obtain ⟨hcs, hds⟩ := needsEscape_append h.1
  exact ⟨⟨hcs, hasPair_append_left h.2⟩, ⟨hds, hasPair_append_right h.2⟩⟩

theorem dark_singleBody {cs : List Char}
    (h : ∀ c, cs.head? = some c → isBlankOrBreak c = false) :
    Dark (singleBody indent false cs) := by
  cases cs with
  | nil => exact Dark.nil
  | cons c cs =>
    have hc := h c rfl
    rw [singleBody, (isBlankOrBreak_eq_false.1 hc).2]
    by_cases hquote : c = '\''
    · subst hquote
      exact dark_cons.2 rfl
    · rw [if_neg hquote]
      exact dark_cons.2 hc

/-- In single quotes, blanks are spaces or line ends. -/
theorem laid_singleBody {cs : List Char} (hallowed : singleAllowed cs = true) (hnew : '\n' ∉ cs)
    (hindent : 0 < indent) : Laid true singleChar cs (singleBody indent false cs) := by
  induction hn : cs.length using Nat.strongRecOn generalizing cs with
  | ind n ih =>
    have hescape : needsEscape cs = false := by
      simp only [singleAllowed, Bool.and_eq_true, Bool.not_eq_true'] at hallowed
      exact hallowed.1
    have hshown := shown_of_needsEscape hescape
    have hdark : ∀ c ∈ cs, isSpaceOrBreak c = false → isBlankOrBreak c = false :=
      fun c hc h => (isBlankOrBreak_of_isShown (hshown c hc)).trans h
    obtain ⟨word, hword, rfl | ⟨g, gap, more, rfl, hgap, hmore⟩⟩ := exists_word isSpaceOrBreak cs
    · have hwritten : singleBody indent false (cs ++ []) =
          cs.flatMap singleChar ++ singleBody indent false [] :=
        singleBody_word fun c hc => (isBlankOrBreak_eq_false.1 (hdark c hc (hword c hc))).2
      rw [List.append_nil] at hwritten
      rw [hwritten, singleBody]
      simpa using Laid.word fun c hc => spells_singleChar (hdark c hc (hword c hc))
    · have hmem : ∀ c ∈ word, c ∈ word ++ (g :: gap ++ more) :=
        fun c hc => List.mem_append_left _ hc
      have hgapmem : ∀ c ∈ g :: gap, c ∈ word ++ (g :: gap ++ more) :=
        fun c hc => List.mem_append_right _ (List.mem_append_left _ hc)
      have hmoremem : ∀ c ∈ more, c ∈ word ++ (g :: gap ++ more) :=
        fun c hc => List.mem_append_right _ (List.mem_append_right _ hc)
      have hworddark : ∀ c ∈ word, isBlankOrBreak c = false :=
        fun c hc => hdark c (hmem c hc) (hword c hc)
      have hmoredark : ∀ c, more.head? = some c → isBlankOrBreak c = false :=
        fun c hc => hdark c (hmoremem c (List.mem_of_mem_head? hc)) (hmore c hc)
      obtain ⟨hgapallowed, hmoreallowed⟩ :=
        singleAllowed_append (singleAllowed_append hallowed).2
      have hlaid : Laid true singleChar more (singleBody indent false more) :=
        ih more.length (by rw [← hn]; simp only [List.length_append, List.length_cons]; omega)
          hmoreallowed (fun h => hnew (hmoremem _ h)) rfl
      have hspell : ∀ c ∈ word, Spells true c (singleChar c) :=
        fun c hc => spells_singleChar (hworddark c hc)
      rw [singleBody_word fun c hc => (isBlankOrBreak_eq_false.1 (hworddark c hc)).2]
      simp only [singleAllowed, needsEscape, Bool.and_eq_true, Bool.not_eq_true',
        Bool.or_eq_false_iff] at hgapallowed
      rcases spaces_or_breaks hgap hgapallowed.1.2 hgapallowed.2 with hspaces | hbreaks
      · rw [eq_spaces hspaces, singleBody_spaces]
        exact .blanks hspell (folds_spaces gap.length) (dark_singleBody hmoredark) hlaid
      · have hg : g ≠ '\n' := fun h => hnew (h ▸ hgapmem g List.mem_cons_self)
        have hbreak : ∀ c ∈ g :: gap, isBreak c = true ∧ isShown c = true :=
          fun c hc => ⟨hbreaks c hc, hshown c (hgapmem c hc)⟩
        rw [singleBody_breaks hbreaks
          (fun c hc => (isBlankOrBreak_eq_false.1 (hmoredark c hc)).2) false,
          ← List.append_assoc (g :: gap) (spaces indent)]
        exact .blanks hspell (folds_breaks hbreak hg hindent) (dark_singleBody hmoredark) hlaid

variable {cs : List Char}

theorem scanQuoted_laid {written : List Char} (h : Laid single pen cs written) (m : Mark) (k : Nat)
    (body : List Char) :
    ∃ x, scanQuoted single ⟨quoteMark single :: written ++
        quoteMark single :: '\n' :: (spaces k ++ body), m⟩ = .ok x ∧
      x.text = cs ∧ x.broken = false ∧ NextLine k body (m.line + 1) false x.source := by
  have hlength := h.length_le
  have hfuel : cs.length < (quoteMark single :: written ++
      quoteMark single :: '\n' :: (spaces k ++ body)).length + 1 := by
    simp only [List.length_append, List.length_cons]
    omega
  obtain ⟨m', hline, hread⟩ := @quotedFrom_laid single pen _ m (m.forward 1)
    ('\n' :: (spaces k ++ body)) cs written h rfl (Nat.succ_pos _) hfuel []
  refine ⟨_, hread, rfl, rfl, .ahead ?_⟩
  exact Nat.succ_le_succ hline

end EventPost.Yaml
