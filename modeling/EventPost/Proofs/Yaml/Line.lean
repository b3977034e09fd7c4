import EventPost.Yaml.ScalarText

/-!
Words, blanks and line ends as a scanner passes over them. A word goes on to the next blank; the
blanks between two words are gathered; behind a scalar the next line begins, somewhere to the right
of the margin.
-/

namespace EventPost.Yaml

theorem forall_mem_of_all {p : Char → Prop} [DecidablePred p] {cs : List Char}
    (h : cs.all (decide <| p ·) = true) : ∀ c ∈ cs, p c :=
  fun c hc => of_decide_eq_true (List.all_eq_true.1 h c hc)

theorem hasPair_cons (p q : Char → Bool) (c : Char) (cs : List Char) :
    hasPair p q (c :: cs) = (p c && cs.head?.any q || hasPair p q cs) := by
  cases cs with
  | nil => simp [hasPair]
  | cons d cs => rfl

theorem hasPair_append_right {p q : Char → Bool} {cs ds : List Char}
    (h : hasPair p q (cs ++ ds) = false) : hasPair p q ds = false := by
  induction cs with
  | nil => exact h
  | cons c cs ih =>
    rw [List.cons_append, hasPair_cons, Bool.or_eq_false_iff] at h
    exact ih h.2

theorem hasPair_append_left {p q : Char → Bool} {cs ds : List Char}
    (h : hasPair p q (cs ++ ds) = false) : hasPair p q cs = false := by
  induction cs with
  | nil => rfl
  | cons c cs ih =>
    rw [List.cons_append, hasPair_cons, Bool.or_eq_false_iff] at h
    rw [hasPair_cons, ih h.2, Bool.or_false]
    cases cs with
    | nil => simp
    | cons d cs => exact h.1

theorem hasPair_take {p q : Char → Bool} {cs : List Char} (h : hasPair p q cs = false) (n : Nat) :
    hasPair p q (cs.take n) = false := by
  rw [← List.take_append_drop n cs] at h
  exact hasPair_append_left h

theorem hasPair_between {p q : Char → Bool} {cs ds : List Char} {c d : Char}
    (h : hasPair p q (cs ++ c :: d :: ds) = false) : (p c && q d) = false := by
  have hpair := hasPair_append_right h
  rw [hasPair_cons, Bool.or_eq_false_iff] at hpair
  exact hpair.1

theorem exists_span (p : Char → Bool) (cs : List Char) : ∃ run rest, cs = run ++ rest ∧
    (∀ c ∈ run, p c = true) ∧ ∀ c, rest.head? = some c → p c = false := by
  refine ⟨cs.takeWhile p, cs.dropWhile p, List.takeWhile_append_dropWhile.symm, ?_, ?_⟩
  · exact List.all_eq_true.1 List.all_takeWhile
  · intro c hc
    have hhead := List.head?_dropWhile_not p cs
    rw [hc] at hhead
    exact hhead

theorem exists_word (p : Char → Bool) (cs : List Char) : ∃ word, (∀ c ∈ word, p c = false) ∧
    (cs = word ∨ ∃ g gap more, cs = word ++ (g :: gap ++ more) ∧ (∀ c ∈ g :: gap, p c = true) ∧
      ∀ c, more.head? = some c → p c = false) := by
  obtain ⟨word, rest, rfl, hword, hrest⟩ := exists_span (fun c => !p c) cs
  simp only [Bool.not_eq_true', Bool.not_eq_false'] at hword hrest
  refine ⟨word, hword, ?_⟩
  cases rest with
  | nil => exact .inl (List.append_nil word)
  | cons g rest =>
    obtain ⟨gap, more, rfl, hgap, hmore⟩ := exists_span p rest
    exact .inr ⟨g, gap, more, rfl, List.forall_mem_cons.2 ⟨hrest g rfl, hgap⟩, hmore⟩

theorem length_spaces (n : Nat) : (spaces n).length = n := List.length_replicate

theorem eq_spaces {cs : List Char} (h : ∀ c ∈ cs, c = ' ') : cs = spaces cs.length :=
  List.eq_replicate_of_mem h

theorem Mark.forward_forward (m : Mark) (i j : Nat) :
    (m.forward i).forward j = m.forward (i + j) := by
  simp only [Mark.forward, Nat.add_assoc]

def Dark (cs : List Char) : Prop := ∀ c, cs.head? = some c → isBlankOrBreak c = false

theorem Dark.nil : Dark [] := fun _ h => by cases h

theorem dark_cons {c : Char} {cs : List Char} : Dark (c :: cs) ↔ isBlankOrBreak c = false := by
  simp [Dark]

theorem Dark.append {cs ds : List Char} (hc : Dark cs) (hd : Dark ds) : Dark (cs ++ ds) := by
  cases cs with
  | nil => exact hd
  | cons c cs => exact hc

theorem Dark.ne_space {cs : List Char} (h : Dark cs) : cs.head? ≠ some ' ' := by
  intro hspace
  cases h ' ' hspace

theorem isBlankOrBreak_eq_false {c : Char} :
    isBlankOrBreak c = false ↔ isGap c = false ∧ isBreak c = false := by
  rw [isBlankOrBreak, Bool.or_eq_false_iff]

theorem Dark.first {cs : List Char} (h : Dark cs) :
    ∀ c, cs.head? = some c → isBreak c = false ∧ c ≠ '\t' := by
  refine fun c hc => ⟨(isBlankOrBreak_eq_false.1 (h c hc)).2, ?_⟩
  rintro rfl
  cases h '\t' hc

theorem not_tab_of_isShown {c : Char} (h : isShown c = true) : c ≠ '\t' := by
  rintro rfl
  exact absurd h (by decide)

theorem isBlankOrBreak_of_isShown {c : Char} (h : isShown c = true) :
    isBlankOrBreak c = isSpaceOrBreak c := by
  have htab : (c == '\t') = false := beq_eq_false_iff_ne.2 (not_tab_of_isShown h)
  rw [isBlankOrBreak, isGap, htab, Bool.or_false, isSpaceOrBreak]

theorem shown_of_needsEscape {cs : List Char} (h : needsEscape cs = false) :
    ∀ c ∈ cs, isShown c = true := by
  intro c hc
  rw [needsEscape, Bool.or_eq_false_iff, List.any_eq_false] at h
  simpa using h.1 c hc

theorem shownBreak_cases {c : Char} (hb : isBreak c = true) (hs : isShown c = true) :
    c = '\n' ∨ c = '\u2028' ∨ c = '\u2029' := by
  simp only [isBreak, Bool.or_eq_true, beq_iff_eq] at hb
  rcases hb with (((rfl | rfl) | rfl) | rfl) | rfl
  · exact .inl rfl
  · exact absurd hs (by decide)
  · exact absurd hs (by decide)
  · exact .inr (.inl rfl)
  · exact .inr (.inr rfl)

namespace Source

theorem breakText_of_shown {c : Char} (hb : isBreak c = true) (hs : isShown c = true)
    (rest : List Char) (m : Mark) : Source.breakText ⟨c :: rest, m⟩ = [c] ∧
      Source.skipLine ⟨c :: rest, m⟩ = ⟨rest, m.newLine 1⟩ := by
  rcases shownBreak_cases hb hs with rfl | rfl | rfl <;> exact ⟨rfl, rfl⟩

theorem skip_append (cs rest : List Char) (m : Mark) :
    Source.skip ⟨cs ++ rest, m⟩ cs.length = ⟨rest, m.forward cs.length⟩ := by
  rw [Source.skip, List.drop_left]

theorem skip_one (c : Char) (rest : List Char) (m : Mark) :
    Source.skip ⟨c :: rest, m⟩ 1 = ⟨rest, m.forward 1⟩ := rfl

theorem blankAt_one (c : Char) (rest : List Char) (m : Mark) :
    Source.blankAt ⟨c :: rest, m⟩ 1 = (rest.isEmpty || rest.head?.any isBlankOrBreak) := by
  cases rest <;> rfl

theorem documentMarker_of_column {s : Source} (h : 0 < s.mark.column) :
    s.documentMarker = false := by
  have hcolumn : (s.mark.column == 0) = false := beq_false_of_ne (Nat.ne_of_gt h)
  simp only [documentMarker, markerAt, hcolumn, Bool.false_and, Bool.or_self]

end Source

section Gathering

variable {indent : Option (Nat × Mark)} {fuel : Nat} {f : Fold} {m : Mark} {rest : List Char}

namespace Fold

theorem gather_dark (h : Dark rest) : f.gather indent fuel ⟨rest, m⟩ = .ok (f, ⟨rest, m⟩) := by
  cases fuel with
  | zero => rfl
  | succ fuel =>
    cases rest with
    | nil => rfl
    | cons c rest =>
      obtain ⟨hgap, hbreak⟩ := isBlankOrBreak_eq_false.1 (dark_cons.1 h)
      simp only [gather, hgap, hbreak, Bool.false_eq_true, if_false]

theorem gather_gaps (hf : f.broken = false) {gaps : List Char} (hg : ∀ c ∈ gaps, isGap c = true)
    (h : Dark rest) (hfuel : gaps.length ≤ fuel) :
    f.gather indent fuel ⟨gaps ++ rest, m⟩ =
      .ok ({ f with gaps := f.gaps ++ gaps }, ⟨rest, m.forward gaps.length⟩) := by
  induction gaps generalizing fuel f m with
  | nil =>
    rw [List.nil_append, List.append_nil]
    exact gather_dark h
  | cons c gaps ih =>
    cases fuel with
    | zero => exact absurd hfuel (Nat.not_succ_le_zero _)
    | succ fuel =>
      have hc := hg c List.mem_cons_self
      rw [List.cons_append, gather]
      simp only [hc, hf, if_true, Bool.false_eq_true, if_false, Source.skip_one]
      rw [ih rfl (fun d hd => hg d (List.mem_cons_of_mem c hd)) (Nat.le_of_succ_le_succ hfuel)]
      simp only [List.append_assoc, List.singleton_append, Mark.forward_forward, List.length_cons,
        Nat.add_comm 1]

theorem gather_spaces (hf : f.broken = true) {n : Nat} (h : Dark rest) (hfuel : n ≤ fuel) :
    f.gather indent fuel ⟨spaces n ++ rest, m⟩ = .ok (f, ⟨rest, m.forward n⟩) := by
  induction n generalizing fuel m with
  | zero => exact gather_dark h
  | succ n ih =>
    cases fuel with
    | zero => exact absurd hfuel (Nat.not_succ_le_zero _)
    | succ fuel =>
      have hspace : isGap ' ' = true := rfl
      have htab : (' ' = '\t') = False := by decide
      have hstep : f.gather indent (fuel + 1) ⟨spaces (n + 1) ++ rest, m⟩ =
          f.gather indent fuel ⟨spaces n ++ rest, m.forward 1⟩ := by
        rw [spaces, List.replicate_succ, List.cons_append, gather]
        cases indent with
        | none =>
          simp only [hspace, hf, if_true]
          rfl
        | some p =>
          simp only [hspace, hf, htab, false_and, if_true, if_false]
          rfl
      rw [hstep, ih (Nat.le_of_succ_le_succ hfuel), Mark.forward_forward, Nat.add_comm 1]

/-- Once a line has ended, further line ends count. -/
theorem gather_breaks (hf : f.broken = true) {breaks : List Char} {k : Nat}
    (hb : ∀ c ∈ breaks, isBreak c = true ∧ isShown c = true) (h : Dark rest)
    (hfuel : breaks.length + k ≤ fuel) (hm : m.column = 0) :
    ∃ m', m'.column = k ∧ m.line ≤ m'.line ∧
      f.gather indent fuel ⟨breaks ++ (spaces k ++ rest), m⟩ =
        .ok ({ f with more := f.more ++ breaks }, ⟨rest, m'⟩) := by
  induction breaks generalizing fuel f m with
  | nil =>
    refine ⟨m.forward k, ?_, Nat.le_refl _, ?_⟩
    · rw [Mark.forward, hm, Nat.zero_add]
    · rw [List.nil_append, List.append_nil]
      exact gather_spaces hf h (Nat.le_trans (Nat.le_add_left k _) hfuel)
  | cons c breaks ih =>
    cases fuel with
    | zero => simp at hfuel
    | succ fuel =>
      obtain ⟨hbreak, hshown⟩ := hb c List.mem_cons_self
      have hgap : isGap c = false := by
        rcases shownBreak_cases hbreak hshown with rfl | rfl | rfl <;> rfl
      obtain ⟨htext, hskip⟩ :=
        Source.breakText_of_shown hbreak hshown (breaks ++ (spaces k ++ rest)) m
      have hlength : breaks.length + k ≤ fuel := by
        simp at hfuel
        omega
      obtain ⟨m', hcolumn, hline, hrec⟩ := ih (m := m.newLine 1)
        (f := { f with more := f.more ++ [c] }) hf (fun d hd => hb d (List.mem_cons_of_mem c hd))
        hlength rfl
      refine ⟨m', hcolumn, Nat.le_trans (Nat.le_succ _) hline, ?_⟩
      rw [List.cons_append, gather]
      simp only [hgap, hbreak, hf, htext, hskip, Bool.false_eq_true, if_false, if_true]
      rw [hf] at hrec
      rw [hrec]
      simp only [List.append_assoc, List.singleton_append]

theorem gather_line {k : Nat} (h : Dark rest) (hfuel : k < fuel) :
    Fold.none.gather indent fuel ⟨'\n' :: (spaces k ++ rest), m⟩ =
      .ok (⟨[], ['\n'], [], true⟩, ⟨rest, (m.newLine 1).forward k⟩) := by
  cases fuel with
  | zero => exact absurd hfuel (Nat.not_lt_zero _)
  | succ fuel =>
    rw [gather]
    exact gather_spaces rfl h (Nat.le_of_lt_succ hfuel)

end Fold

end Gathering

/-- The next line, which is no earlier than `line`, begins with `body` at the column `k`. The source
has reached it (`there`), or stands at the end of the line before it. -/
inductive NextLine (k : Nat) (body : List Char) (line : Nat) : (there : Bool) → Source → Prop
  | reached {m : Mark} : m.column = k → line ≤ m.line → NextLine k body line true ⟨body, m⟩
  | ahead {there : Bool} {m : Mark} : line ≤ m.line + 1 →
    NextLine k body line there ⟨'\n' :: (spaces k ++ body), m⟩

theorem NextLine.mono {k : Nat} {body : List Char} {line line' : Nat} {there : Bool} {s : Source}
    (h : NextLine k body line there s) (hline : line' ≤ line) : NextLine k body line' there s := by
  cases h with
  | reached hcolumn hm => exact .reached hcolumn (Nat.le_trans hline hm)
  | ahead hm => exact .ahead (Nat.le_trans hline hm)

end EventPost.Yaml
