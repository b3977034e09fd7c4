import EventPost.Proofs.Yaml.Line

/-!
Plain scalars read back. A plain text has no line end and no colon before a blank, so the scanner
takes it word by word up to the end of the line; the next line is not indented enough to go on with
it.
-/

namespace EventPost.Yaml

variable {fuel k : Nat} {indent : Int} {start m : Mark} {rest body : List Char}

def EndsWord (rest : List Char) : Prop :=
  rest.head?.any isBlankOrBreak = true ∨ ∃ r, rest = ':' :: r ∧ r.head?.any isBlankOrBreak = true

theorem EndsWord.ne_nil (h : EndsWord rest) : rest ≠ [] := by
  rintro rfl
  rcases h with h | ⟨r, h, -⟩
  · cases h
  · cases h

theorem EndsWord.plainRun (h : EndsWord rest) (acc : List Char) :
    plainRun false start fuel acc ⟨rest, m⟩ = .ok (acc, ⟨rest, m⟩) := by
  cases fuel with
  | zero => rfl
  | succ fuel =>
    rcases h with h | ⟨r, rfl, h⟩
    · cases rest with
      | nil => rfl
      | cons c rest =>
        have hc : (isGap c || isBreak c) = true := h
        simp only [Yaml.plainRun, hc, if_true]
    · have hblank : Source.blankAt ⟨':' :: r, m⟩ 1 = true := by
        rw [Source.blankAt_one, h, Bool.or_true]
      simp only [Yaml.plainRun, hblank]
      rfl

theorem plainRun_word {word : List Char} (hword : ∀ c ∈ word, isBlankOrBreak c = false)
    (hcolon : hasPair (· == ':') isBlankOrBreak (word ++ rest.take 1) = false)
    (hrest : EndsWord rest) (hfuel : word.length ≤ fuel) (acc : List Char) :
    plainRun false start fuel acc ⟨word ++ rest, m⟩ =
      .ok (word.reverse ++ acc, ⟨rest, m.forward word.length⟩) := by
  induction word generalizing fuel acc m with
  | nil => exact hrest.plainRun acc
  | cons c word ih =>
    cases fuel with
    | zero => exact absurd hfuel (Nat.not_succ_le_zero _)
    | succ fuel =>
      obtain ⟨hgap, hbreak⟩ := isBlankOrBreak_eq_false.1 (hword c List.mem_cons_self)
      rw [List.cons_append, hasPair_cons, Bool.or_eq_false_iff] at hcolon
      have hblank : (c == ':' && Source.blankAt ⟨c :: (word ++ rest), m⟩ 1) = false := by
        have hhead : (word ++ rest).head? = (word ++ rest.take 1).head? := by
          cases word with
          | nil => cases rest <;> rfl
          | cons d word => rfl
        have hsome : (word ++ rest).isEmpty = false := by
          rw [List.isEmpty_eq_false_iff]
          exact List.append_ne_nil_of_right_ne_nil word hrest.ne_nil
        rw [Source.blankAt_one, hsome, hhead, Bool.false_or]
        exact hcolon.1
      rw [List.cons_append, Yaml.plainRun]
      simp only [hgap, hbreak, hblank, Bool.or_self, Bool.false_and, Bool.false_eq_true, if_false,
        Source.skip_one]
      rw [ih (fun d hd => hword d (List.mem_cons_of_mem c hd)) hcolon.2
        (Nat.le_of_succ_le_succ hfuel)]
      simp only [Mark.forward_forward, List.reverse_cons, List.append_assoc, List.singleton_append,
        List.length_cons, Nat.add_comm 1]

/-- The text of a plain scalar from the start of a word on. -/
structure PlainText (cs : List Char) : Prop where
  line : ∀ c ∈ cs, isBreak c = false
  colon : hasPair (· == ':') isBlankOrBreak (cs ++ ['\n']) = false
  comment : hasPair isBlankOrBreak (· == '#') cs = false
  first : ∀ c, cs.head? = some c → isBlankOrBreak c = false ∧ c ≠ '#'
  last : ∀ c, cs.getLast? = some c → isBlankOrBreak c = false

theorem PlainText.behind {before cs : List Char} {g : Char} (h : PlainText (before ++ g :: cs))
    (hg : isBlankOrBreak g = true) (hne : cs ≠ []) (hdark : Dark cs) : PlainText cs := by
  have hassoc : before ++ g :: cs = (before ++ [g]) ++ cs := by
    rw [List.append_assoc, List.singleton_append]
  refine ⟨?_, ?_, ?_, ?_, ?_⟩
  · intro c hc
    exact h.line c (List.mem_append_right _ (List.mem_cons_of_mem g hc))
  · have hcolon := h.colon
    rw [hassoc, List.append_assoc] at hcolon
    exact hasPair_append_right hcolon
  · have hcomment := h.comment
    rw [hassoc] at hcomment
    exact hasPair_append_right hcomment
  · intro c hc
    refine ⟨hdark c hc, ?_⟩
    obtain ⟨ds, rfl⟩ := List.head?_eq_some_iff.1 hc
    have hpair := hasPair_between h.comment
    rw [hg, Bool.true_and] at hpair
    exact beq_eq_false_iff_ne.1 hpair
  · intro c hc
    refine h.last c ?_
    rw [hassoc, List.getLast?_append, hc]
    rfl

/-- A plain text is a word, alone or with blanks and more such text behind it. -/
theorem PlainText.cases {cs : List Char} (h : PlainText cs) (hne : cs ≠ []) :
    ∃ word, word ≠ [] ∧ (∀ c ∈ word, isBlankOrBreak c = false) ∧
      (cs = word ∨ ∃ gaps more, cs = word ++ (gaps ++ more) ∧ gaps ≠ [] ∧
        (∀ c ∈ gaps, isGap c = true) ∧ more ≠ [] ∧ PlainText more) := by
  obtain ⟨word, rest, rfl, hword, hrest⟩ := exists_span (fun c => !isBlankOrBreak c) cs
  simp only [Bool.not_eq_true', Bool.not_eq_false'] at hword hrest
  have hwne : word ≠ [] := by
    rintro rfl
    obtain ⟨c, cs, rfl⟩ := List.exists_cons_of_ne_nil hne
    have hc := (h.first c rfl).1
    rw [hrest c rfl] at hc
    cases hc
  refine ⟨word, hwne, hword, ?_⟩
  by_cases hr : rest = []
  · left
    rw [hr, List.append_nil]
  · right
    obtain ⟨gaps, more, rfl, hgaps, hmore⟩ := exists_span isGap rest
    have hblank : ∀ c, isBreak c = false → isBlankOrBreak c = isGap c := by
      intro c hc
      rw [isBlankOrBreak, hc, Bool.or_false]
    have hmem : ∀ c ∈ gaps ++ more, isBreak c = false :=
      fun c hc => h.line c (List.mem_append_right _ hc)
    have hgne : gaps ≠ [] := by
      rintro rfl
      obtain ⟨c, cs, hcs⟩ := List.exists_cons_of_ne_nil hr
      have hhead : ([] ++ more).head? = some c := by rw [hcs]; rfl
      have hc := hrest c hhead
      rw [hblank c (hmem c (hcs ▸ List.mem_cons_self)), hmore c hhead] at hc
      cases hc
    -- The blanks end with a character that is neither the last of the text nor stands before `#`.
    obtain ⟨gaps, g, rfl⟩ : ∃ gs g, gaps = gs ++ [g] :=
      ⟨gaps.dropLast, gaps.getLast hgne, (List.dropLast_concat_getLast hgne).symm⟩
    have hg := hgaps g (List.mem_append_right _ (List.mem_singleton_self g))
    have hgb : isBlankOrBreak g = true := by rw [isBlankOrBreak, hg, Bool.true_or]
    have hmne : more ≠ [] := by
      rintro rfl
      have hlast := h.last g (by simp)
      rw [hgb] at hlast
      cases hlast
    have hdark : Dark more := by
      intro c hc
      rw [hblank c (hmem c (List.mem_append_right _ (List.mem_of_mem_head? hc)))]
      exact hmore c hc
    refine ⟨gaps ++ [g], more, rfl, hgne, hgaps, hmne, ?_⟩
    have hsplit : PlainText ((word ++ gaps) ++ g :: more) := by
      simpa only [List.append_assoc, List.singleton_append] using h
    exact hsplit.behind hgb hmne hdark

theorem plainFrom_word {word rest : List Char} (hne : word ≠ [])
    (hword : ∀ c ∈ word, isBlankOrBreak c = false) (hcomment : word.head? ≠ some '#')
    (hcolon : hasPair (· == ':') isBlankOrBreak (word ++ rest.take 1) = false)
    (hrest : rest.head?.any isBlankOrBreak = true) (hcolumn : 0 < m.column) (acc : List Char)
    (f : Fold) (stop : Mark) {g : Fold} {s : Source}
    (hgather : Fold.none.gather (some ((indent + 1).toNat, start)) rest.length
      ⟨rest, m.forward word.length⟩ = .ok (g, s)) :
    plainFrom false indent start (fuel + 1) acc f stop ⟨word ++ rest, m⟩ =
      if (s.mark.column : Int) < indent + 1 then
        .ok ⟨acc.reverse ++ f.text ++ word, m.forward word.length, g.broken, s⟩
      else plainFrom false indent start fuel (word.reverse ++ f.text.reverse ++ acc) g
        (m.forward word.length) s := by
  have hhash : Source.startsWith ⟨word ++ rest, m⟩ '#' = false := by
    obtain ⟨c, cs, rfl⟩ := List.exists_cons_of_ne_nil hne
    exact beq_eq_false_iff_ne.2 hcomment
  have hrun : plainRun false start (word ++ rest).length [] ⟨word ++ rest, m⟩ =
      .ok (word.reverse, ⟨rest, m.forward word.length⟩) := by
    rw [plainRun_word hword hcolon (.inl hrest) (List.length_append ▸ Nat.le_add_right _ _),
      List.append_nil]
  have hblank : (Source.gapHere ⟨rest, m.forward word.length⟩ ||
      Source.breakAt ⟨rest, m.forward word.length⟩ 0) = true := by
    cases rest with
    | nil => cases hrest
    | cons c rest => exact hrest
  have hempty : word.reverse.isEmpty = false := by
    rw [List.isEmpty_reverse, List.isEmpty_eq_false_iff]
    exact hne
  rw [plainFrom, Source.documentMarker_of_column hcolumn, hhash]
  simp only [Bool.or_self, Bool.false_eq_true, if_false, hrun, hempty, hblank, Bool.not_true,
    Bool.not_false, Bool.true_and, decide_eq_true_eq, hgather, List.reverse_append,
    List.reverse_reverse, List.append_assoc]

section Rounds

variable {word : List Char} (hne : word ≠ []) (hword : ∀ c ∈ word, isBlankOrBreak c = false)
  (hcomment : word.head? ≠ some '#') (hcolumn : 0 < m.column)
include hne hword hcomment hcolumn

theorem plainFrom_lastWord (hcolon : hasPair (· == ':') isBlankOrBreak (word ++ ['\n']) = false)
    (hk : k ≤ indent) (hbody : Dark body) (acc : List Char) (f : Fold) (stop : Mark) :
    plainFrom false indent start (fuel + 1) acc f stop ⟨word ++ '\n' :: (spaces k ++ body), m⟩ =
      .ok ⟨acc.reverse ++ f.text ++ word, m.forward word.length, true,
        ⟨body, ((m.forward word.length).newLine 1).forward k⟩⟩ := by
  have hgather : Fold.none.gather (some ((indent + 1).toNat, start))
      ('\n' :: (spaces k ++ body)).length ⟨'\n' :: (spaces k ++ body), m.forward word.length⟩ =
        .ok (⟨[], ['\n'], [], true⟩, ⟨body, ((m.forward word.length).newLine 1).forward k⟩) := by
    refine Fold.gather_line hbody ?_
    rw [List.length_cons, List.length_append, length_spaces]
    omega
  have hline : hasPair (· == ':') isBlankOrBreak
      (word ++ ('\n' :: (spaces k ++ body)).take 1) = false := hcolon
  have hcol : (((m.forward word.length).newLine 1).forward k).column = k := Nat.zero_add k
  rw [plainFrom_word hne hword hcomment hline rfl hcolumn acc f stop hgather]
  refine if_pos ?_
  rw [hcol]
  omega

theorem plainFrom_nextWord {g : Char} {gaps more : List Char}
    (hcolon : hasPair (· == ':') isBlankOrBreak (word ++ [g]) = false)
    (hgaps : ∀ c ∈ g :: gaps, isGap c = true) (hmore : Dark more) (hindent : indent < m.column)
    (acc : List Char) (f : Fold) (stop : Mark) :
    plainFrom false indent start (fuel + 1) acc f stop ⟨word ++ (g :: gaps ++ more), m⟩ =
      plainFrom false indent start fuel (word.reverse ++ f.text.reverse ++ acc)
        { Fold.none with gaps := g :: gaps } (m.forward word.length)
        ⟨more, m.forward (word.length + (g :: gaps).length)⟩ := by
  have hblank : isBlankOrBreak g = true := by
    rw [isBlankOrBreak, hgaps g List.mem_cons_self, Bool.true_or]
  have hgather : Fold.none.gather (some ((indent + 1).toNat, start)) (g :: gaps ++ more).length
      ⟨g :: gaps ++ more, m.forward word.length⟩ = .ok ({ Fold.none with gaps := g :: gaps },
        ⟨more, m.forward (word.length + (g :: gaps).length)⟩) := by
    rw [← Mark.forward_forward]
    exact Fold.gather_gaps rfl hgaps hmore (by rw [List.length_append]; omega)
  have hnext : hasPair (· == ':') isBlankOrBreak (word ++ (g :: gaps ++ more).take 1) = false :=
    hcolon
  have hcol : (m.forward (word.length + (g :: gaps).length)).column =
      m.column + (word.length + (g :: gaps).length) := rfl
  rw [plainFrom_word hne hword hcomment hnext hblank hcolumn acc f stop hgather,
    if_neg (by rw [hcol]; omega)]

end Rounds

/-- A plain text is read to its end. The next line is not to the right of `indent`. -/
theorem plainFrom_text {cs : List Char} (hcs : PlainText cs) (hne : cs ≠ [])
    (hindent : indent < m.column) (hcolumn : 0 < m.column) (hk : k ≤ indent)
    (hbody : Dark body) (hfuel : cs.length ≤ fuel) (acc : List Char) (f : Fold) (stop : Mark) :
    ∃ stop' m', m'.column = k ∧ m'.line = m.line + 1 ∧
      plainFrom false indent start fuel acc f stop ⟨cs ++ '\n' :: (spaces k ++ body), m⟩ =
        .ok ⟨acc.reverse ++ f.text ++ cs, stop', true, ⟨body, m'⟩⟩ := by
  induction fuel generalizing cs m acc f stop with
  | zero => exact absurd (List.length_pos_iff.2 hne) (Nat.not_lt.2 hfuel)
  | succ fuel ih =>
    obtain ⟨word, hwne, hword, hrest⟩ := hcs.cases hne
    have hcomment : word.head? ≠ some '#' := by
      intro hc
      have hhead : cs.head? = some '#' := by
        rcases hrest with rfl | ⟨gaps, more, rfl, -⟩
        · exact hc
        · rw [List.head?_append, hc]
          rfl
      exact (hcs.first _ hhead).2 rfl
    rcases hrest with rfl | ⟨gaps, more, rfl, hgne, hgaps, hmne, hmore⟩
    · exact ⟨m.forward cs.length, ((m.forward cs.length).newLine 1).forward k, Nat.zero_add k, rfl,
        plainFrom_lastWord hwne hword hcomment hcolumn hcs.colon hk hbody acc f stop⟩
    · obtain ⟨g, gs, rfl⟩ := List.exists_cons_of_ne_nil hgne
      have hcolon : hasPair (· == ':') isBlankOrBreak (word ++ [g]) = false := by
        have hassoc : word ++ (g :: gs ++ more) ++ ['\n'] =
            (word ++ [g]) ++ (gs ++ more ++ ['\n']) := by simp
        exact hasPair_append_left (hassoc ▸ hcs.colon)
      have hdark : Dark (more ++ '\n' :: (spaces k ++ body)) := by
        obtain ⟨d, ds, rfl⟩ := List.exists_cons_of_ne_nil hmne
        exact dark_cons.2 (hmore.first d rfl).1
      have hcol : (m.forward (word.length + (g :: gs).length)).column =
          m.column + (word.length + (g :: gs).length) := rfl
      obtain ⟨stop', m', hm', hl', hrec⟩ := ih hmore hmne
        (m := m.forward (word.length + (g :: gs).length)) (by rw [hcol]; omega)
        (by rw [hcol]; omega) (by simp at hfuel ⊢; omega)
        (word.reverse ++ f.text.reverse ++ acc) { Fold.none with gaps := g :: gs }
        (m.forward word.length)
      refine ⟨stop', m', hm', hl', ?_⟩
      rw [List.append_assoc, List.append_assoc,
        plainFrom_nextWord hwne hword hcomment hcolumn hcolon hgaps hdark hindent]
      refine Eq.trans hrec ?_
      simp only [Fold.text, List.reverse_append, List.reverse_reverse, List.append_assoc]
      rfl

theorem plainText_of_allowed {cs : List Char} (h : plainAllowed cs = true) : PlainText cs := by
  simp only [plainAllowed, Bool.and_eq_true, Bool.not_eq_true'] at h
  obtain ⟨⟨⟨⟨hfirst, hlast⟩, hline⟩, hescape⟩, hindicator⟩ := h
  simp only [hasIndicator, Bool.or_eq_false_iff] at hindicator
  obtain ⟨⟨⟨⟨-, hopen⟩, -⟩, hcolon⟩, hcomment⟩ := hindicator
  have hblank : ∀ c ∈ cs, isBlankOrBreak c = isSpaceOrBreak c :=
    fun c hc => isBlankOrBreak_of_isShown (shown_of_needsEscape hescape c hc)
  refine ⟨?_, hcolon, hcomment, ?_, ?_⟩
  · rw [isMultiline, List.any_eq_false] at hline
    intro c hc
    simpa using hline c hc
  · intro c hc
    rw [hc] at hfirst hopen
    refine ⟨(hblank c (List.mem_of_mem_head? hc)).trans hfirst, ?_⟩
    rintro rfl
    exact absurd hopen (by decide)
  · intro c hc
    rw [hc] at hlast
    exact (hblank c (List.mem_of_mem_getLast? hc)).trans hlast

theorem scanPlain_text {cs : List Char} (h : plainAllowed cs = true) (hne : cs ≠ [])
    (hindent : indent < m.column) (hcolumn : 0 < m.column) (hk : k ≤ indent) (hbody : Dark body) :
    ∃ x, scanPlain false indent ⟨cs ++ '\n' :: (spaces k ++ body), m⟩ = .ok x ∧ x.text = cs ∧
      NextLine k body (m.line + 1) x.broken x.source := by
  have hfuel : cs.length ≤ (cs ++ '\n' :: (spaces k ++ body)).length + 1 := by
    rw [List.length_append]
    omega
  obtain ⟨stop, m', hm', hl', hscan⟩ := @plainFrom_text _ k indent m m body cs
    (plainText_of_allowed h) hne hindent hcolumn hk hbody hfuel [] .none m
  exact ⟨_, hscan, rfl, .reached hm' (Nat.le_of_eq hl'.symm)⟩

def keyChars : List Char := "abcdefghijklmnopqrstuvwxyz_".toList

structure KeyWord (word : List Char) : Prop where
  ne_nil : word ≠ []
  chars : ∀ c ∈ word, c ∈ keyChars

theorem KeyWord.dark {word : List Char} (h : KeyWord word) :
    ∀ c ∈ word, isBlankOrBreak c = false := by
  have hdark : ∀ c ∈ keyChars, isBlankOrBreak c = false := forall_mem_of_all (by decide)
  exact fun c hc => hdark c (h.chars c hc)

theorem hasPair_of_none {p q : Char → Bool} {cs : List Char} (h : ∀ c ∈ cs, p c = false)
    (d : Char) : hasPair p q (cs ++ [d]) = false := by
  induction cs with
  | nil => rfl
  | cons c cs ih =>
    rw [List.cons_append, hasPair_cons, h c List.mem_cons_self, Bool.false_and, Bool.false_or]
    exact ih fun d hd => h d (List.mem_cons_of_mem c hd)

theorem scanPlain_key {word : List Char} (h : KeyWord word)
    (hrest : rest.head?.any isBlankOrBreak = true) (indent : Int) (m : Mark) :
    scanPlain false indent ⟨word ++ ':' :: rest, m⟩ =
      .ok ⟨word, m.forward word.length, false, ⟨':' :: rest, m.forward word.length⟩⟩ := by
  have hother : ∀ c ∈ keyChars, c ≠ '-' ∧ c ≠ '.' ∧ c ≠ '#' ∧ c ≠ ':' :=
    forall_mem_of_all (by decide)
  have hcolon : hasPair (· == ':') isBlankOrBreak (word ++ (':' :: rest).take 1) = false :=
    hasPair_of_none (fun c hc => beq_eq_false_iff_ne.2 (hother c (h.chars c hc)).2.2.2) ':'
  have hrun : plainRun false m (word ++ ':' :: rest).length [] ⟨word ++ ':' :: rest, m⟩ =
      .ok (word.reverse, ⟨':' :: rest, m.forward word.length⟩) := by
    rw [plainRun_word h.dark hcolon (.inr ⟨rest, rfl, hrest⟩)
      (List.length_append ▸ Nat.le_add_right _ _), List.append_nil]
  have hempty : word.reverse.isEmpty = false := by
    rw [List.isEmpty_reverse, List.isEmpty_eq_false_iff]
    exact h.ne_nil
  obtain ⟨c, cs, rfl⟩ := List.exists_cons_of_ne_nil h.ne_nil
  obtain ⟨hdash, hdot, hhash, -⟩ := hother c (h.chars c List.mem_cons_self)
  have hstop : (Source.documentMarker ⟨c :: cs ++ ':' :: rest, m⟩ ||
      Source.startsWith ⟨c :: cs ++ ':' :: rest, m⟩ '#') = false := by
    simp [Source.documentMarker, Source.markerAt, Source.startsWith, hdash, hdot, hhash]
  have hnone : (Source.gapHere ⟨':' :: rest, m.forward (c :: cs).length⟩ ||
      Source.breakAt ⟨':' :: rest, m.forward (c :: cs).length⟩ 0) = false := rfl
  rw [scanPlain, plainFrom, hstop]
  simp only [Bool.false_eq_true, if_false, hrun, hempty, hnone, Bool.not_false, if_true]
  simp [Fold.text, Fold.none]

end EventPost.Yaml
