import Mathlib.Data.List.Basic
import EventPost.Proofs.Yaml.Line

/-!
Literal blocks read back. The scanner takes the lines of a block one by one, each with the line ends
behind it; the sign in the header says how many of the last line ends are the text's own.
-/

namespace EventPost.Yaml

variable {given indent k n fuel : Nat} {start stop m : Mark} {cs rest body : List Char}

section Margins

theorem skipIndent_spaces (hm : m.column = 0) (hn : given = 0 ∨ n ≤ given)
    (hrest : rest.head? ≠ some ' ' ∨ n = given ∧ given ≠ 0) :
    skipIndent given ⟨spaces n ++ rest, m⟩ = ⟨rest, m.forward n⟩ := by
  have htake : ((spaces n ++ rest).takeWhile (· == ' ')).length =
      n + (rest.takeWhile (· == ' ')).length := by
    rw [spaces, List.takeWhile_append_of_pos fun c hc => by rw [List.eq_of_mem_replicate hc]; rfl,
      List.length_append, List.length_replicate]
  have hcount : (if given = 0 then n + (rest.takeWhile (· == ' ')).length
      else min (n + (rest.takeWhile (· == ' ')).length) (given - m.column)) = n := by
    rw [hm]
    rcases hrest with hrest | ⟨hn', hgiven⟩
    · have hnone : (rest.takeWhile (· == ' ')).length = 0 := by
        cases rest with
        | nil => rfl
        | cons c rest =>
          rw [List.takeWhile_cons_of_neg]
          · rfl
          · simpa using hrest
      rw [hnone]
      split <;> omega
    · rw [if_neg hgiven]
      omega
  simp only [skipIndent, htake, beq_iff_eq, hcount]
  have hskip := Source.skip_append (spaces n) rest m
  rwa [length_spaces] at hskip

theorem skipIndent_break {c : Char} (hc : isBreak c = true) (hm : m.column = 0) :
    skipIndent given ⟨c :: rest, m⟩ = ⟨c :: rest, m⟩ := by
  refine skipIndent_spaces (n := 0) hm (.inr (Nat.zero_le _)) (.inl fun h => ?_)
  rw [Option.some.inj h] at hc
  cases hc

variable {breaks : List Char} {margin : List Char} {widest : Nat}

theorem scanMargin_breaks (hb : ∀ c ∈ breaks, isBreak c = true ∧ isShown c = true)
    (hm : m.column = 0) (given fuel : Nat) (start stop : Mark) (margin rest : List Char)
    (widest : Nat) :
    ∃ stop' m', m'.column = 0 ∧ m.line ≤ m'.line ∧
      scanMargin given start (fuel + breaks.length) ⟨margin, widest, stop, ⟨breaks ++ rest, m⟩⟩ =
        scanMargin given start fuel ⟨margin ++ breaks, widest, stop', ⟨rest, m'⟩⟩ := by
  induction breaks generalizing margin stop m with
  | nil => exact ⟨stop, m, hm, Nat.le_refl _, by rw [List.append_nil]; rfl⟩
  | cons c breaks ih =>
    obtain ⟨hbreak, hshown⟩ := hb c List.mem_cons_self
    obtain ⟨htext, hskip⟩ := Source.breakText_of_shown hbreak hshown (breaks ++ rest) m
    obtain ⟨stop', m', hcolumn, hline, hrec⟩ := ih (m := m.newLine 1)
      (fun d hd => hb d (List.mem_cons_of_mem c hd)) rfl (m.newLine 1) (margin ++ [c])
    refine ⟨stop', m', hcolumn, Nat.le_trans (Nat.le_succ _) hline, ?_⟩
    have htab : (indentWithin given ⟨c :: (breaks ++ rest), m⟩ &&
        Source.startsWith ⟨c :: (breaks ++ rest), m⟩ '\t') = false := by
      have hc : c ≠ '\t' := by
        rintro rfl
        cases hbreak
      rw [Source.startsWith, List.head?_cons, beq_eq_false_iff_ne.2 fun h => hc (Option.some.inj h),
        Bool.and_false]
    have hhere : Source.breakAt ⟨c :: (breaks ++ rest), m⟩ 0 = true := hbreak
    rw [List.length_cons, ← Nat.add_assoc, List.cons_append, scanMargin]
    simp only [skipIndent_break hbreak hm, htab, hhere, htext, hskip, hm, Nat.max_zero,
      Bool.false_eq_true, if_false, if_true]
    rw [hrec, List.append_assoc, List.singleton_append]

theorem scanMargin_line (hskip : skipIndent given ⟨spaces n ++ rest, m⟩ = ⟨rest, m.forward n⟩)
    (hm : m.column = 0) (hrest : ∀ c, rest.head? = some c → isBreak c = false ∧ c ≠ '\t') :
    scanMargin given start (fuel + 1) ⟨margin, widest, stop, ⟨spaces n ++ rest, m⟩⟩ =
      .ok ⟨margin, max widest n, stop, ⟨rest, m.forward n⟩⟩ := by
  have htab : Source.startsWith ⟨rest, m.forward n⟩ '\t' = false :=
    beq_eq_false_iff_ne.2 fun h => (hrest _ h).2 rfl
  have hhere : Source.breakAt ⟨rest, m.forward n⟩ 0 = false := by
    cases rest with
    | nil => rfl
    | cons c rest => exact (hrest c rfl).1
  have hcolumn : (m.forward n).column = n := by rw [Mark.forward, hm, Nat.zero_add]
  rw [scanMargin]
  simp only [hskip, htab, hhere, hcolumn, Bool.and_false, Bool.false_eq_true, if_false]

theorem marginFrom_eq (hb : ∀ c ∈ breaks, isBreak c = true ∧ isShown c = true)
    (hm : m.column = 0) (hn : given = 0 ∨ n ≤ given)
    (hspace : rest.head? ≠ some ' ' ∨ n = given ∧ given ≠ 0)
    (hrest : ∀ c, rest.head? = some c → isBreak c = false ∧ c ≠ '\t') (start : Mark) :
    ∃ stop m', m'.column = n ∧ m.line ≤ m'.line ∧
      marginFrom given start ⟨breaks ++ (spaces n ++ rest), m⟩ =
        .ok ⟨breaks, n, stop, ⟨rest, m'⟩⟩ := by
  obtain ⟨stop', m', hcolumn, hline, hbreaks⟩ := scanMargin_breaks hb hm given
    (n + rest.length + 1) start m [] (spaces n ++ rest) 0
  refine ⟨stop', m'.forward n, ?_, hline, ?_⟩
  · rw [Mark.forward, hcolumn, Nat.zero_add]
  · have hfuel : (breaks ++ (spaces n ++ rest)).length + 1 = n + rest.length + 1 + breaks.length := by
      rw [List.length_append, List.length_append, length_spaces]
      omega
    rw [marginFrom, hfuel, hbreaks,
      scanMargin_line (skipIndent_spaces hcolumn hn hspace) hcolumn hrest, Nat.zero_max]
    rfl

end Margins

section Lines

/-- Lines that are not empty, each with the line ends behind it. -/
inductive Lined : List Char → Prop
  | nil : Lined []
  | line {line breaks more : List Char} {b : Char} : line ≠ [] → (∀ c ∈ line, isBreak c = false) →
    (∀ c ∈ b :: breaks, isBreak c = true) → Lined more → Lined (line ++ (b :: breaks ++ more))

theorem lined_of_last {cs : List Char} (hfirst : ∀ c, cs.head? = some c → isBreak c = false)
    (hlast : ∀ c, cs.getLast? = some c → isBreak c = true) : Lined cs := by
  induction hn : cs.length using Nat.strongRecOn generalizing cs with
  | ind n ih =>
    obtain ⟨line, hline, rfl | ⟨b, breaks, more, rfl, hbreaks, hmore⟩⟩ := exists_word isBreak cs
    · cases cs with
      | nil => exact .nil
      | cons c cs =>
        have hmem := List.getLast_mem (List.cons_ne_nil c cs)
        have hbreak := hlast _ (List.getLast?_eq_some_getLast (List.cons_ne_nil c cs))
        rw [hline _ hmem] at hbreak
        cases hbreak
    · have hne : line ≠ [] := by
        rintro rfl
        have hb := hbreaks b List.mem_cons_self
        rw [hfirst b rfl] at hb
        cases hb
      refine .line hne hline hbreaks (ih more.length ?_ hmore (fun c hc => hlast c ?_) rfl)
      · rw [← hn]
        simp only [List.length_append, List.length_cons]
        omega
      · rw [List.getLast?_append, List.getLast?_append, hc]
        rfl

theorem Lined.first {cs : List Char} (h : Lined cs) :
    ∀ c, cs.head? = some c → isBreak c = false := by
  cases h with
  | nil => exact fun c hc => by cases hc
  | line hne hline _ _ =>
    intro c hc
    obtain ⟨d, ds, rfl⟩ := List.exists_cons_of_ne_nil hne
    rw [← Option.some.inj hc]
    exact hline d List.mem_cons_self

theorem literalBody_line {line : List Char} (h : ∀ c ∈ line, isBreak c = false)
    (rest : List Char) :
    literalBody indent false (line ++ rest) = line ++ literalBody indent false rest := by
  induction line with
  | nil => rfl
  | cons c line ih =>
    rw [List.cons_append, literalBody, h c List.mem_cons_self,
      ih fun d hd => h d (List.mem_cons_of_mem c hd)]
    rfl

theorem head_literalBody (indent : Nat) {line : List Char} (hne : line ≠ [])
    (h : ∀ c, line.head? = some c → isBreak c = false) (rest : List Char) :
    (literalBody indent false line ++ rest).head? = line.head? := by
  obtain ⟨c, line, rfl⟩ := List.exists_cons_of_ne_nil hne
  rw [literalBody, h c rfl]
  rfl

theorem literalBody_breaks {breaks : List Char} (h : ∀ c ∈ breaks, isBreak c = true)
    (rest : List Char) :
    literalBody indent true (breaks ++ rest) = breaks ++ literalBody indent true rest := by
  induction breaks with
  | nil => rfl
  | cons c breaks ih =>
    rw [List.cons_append, literalBody, if_pos (h c List.mem_cons_self),
      ih fun d hd => h d (List.mem_cons_of_mem c hd)]
    rfl

theorem literalBody_broken (h : ∀ c, rest.head? = some c → isBreak c = false) (hne : rest ≠ []) :
    literalBody indent true rest = spaces indent ++ literalBody indent false rest := by
  cases rest with
  | nil => exact absurd rfl hne
  | cons c rest =>
    rw [literalBody, literalBody, h c rfl]
    rfl

theorem literalBody_concat (broken : Bool) (cs : List Char) :
    literalBody indent broken (cs ++ ['\n']) = literalBody indent broken cs ++ ['\n'] := by
  induction cs generalizing broken with
  | nil => rfl
  | cons c cs ih =>
    rw [List.cons_append, literalBody, literalBody, ih, ih]
    split
    · rfl
    · simp

theorem length_le_literalBody (indent : Nat) (broken : Bool) (cs : List Char) :
    cs.length ≤ (literalBody indent broken cs).length := by
  induction cs generalizing broken with
  | nil => exact Nat.le_refl _
  | cons c cs ih =>
    rw [literalBody]
    split
    · exact Nat.succ_le_succ (ih true)
    · rw [List.length_append, List.length_cons, List.length_cons]
      exact Nat.le_trans (Nat.succ_le_succ (ih false)) (Nat.le_add_left _ _)

theorem literalBody_next {more : List Char} (h : Lined more) :
    literalBody indent true more ++ (spaces k ++ body) =
      if more = [] then spaces k ++ body
      else spaces indent ++ (literalBody indent false more ++ (spaces k ++ body)) := by
  by_cases hmore : more = []
  · rw [if_pos hmore, hmore]
    rfl
  · rw [if_neg hmore, literalBody_broken h.first hmore, List.append_assoc]

theorem literalBody_first {more : List Char} (h : Lined more) (hne : more ≠ [])
    (hshown : ∀ c ∈ more, isShown c = true) (indent : Nat) (rest : List Char) :
    ∀ c, (literalBody indent false more ++ rest).head? = some c → isBreak c = false ∧ c ≠ '\t' := by
  intro c hc
  rw [head_literalBody indent hne h.first rest] at hc
  exact ⟨h.first c hc, not_tab_of_isShown (hshown c (List.mem_of_mem_head? hc))⟩

variable {acc last margin : List Char} {blank : Bool} {widest : Nat}

theorem blockFrom_line {line : List Char} {b : Char} {behind : List Char} {next : Margin}
    (hne : line ≠ []) (hline : ∀ c ∈ line, isBreak c = false)
    (hb : isBreak b = true ∧ isShown b = true) (hm : m.column = indent)
    (hnext : marginFrom indent start ⟨behind, (m.forward line.length).newLine 1⟩ = .ok next) :
    blockFrom true indent start (fuel + 1) acc last blank
        ⟨margin, widest, stop, ⟨line ++ b :: behind, m⟩⟩ =
      blockFrom true indent start fuel (line.reverse ++ (margin.reverse ++ last.reverse ++ acc))
        [b] (Source.gapHere ⟨line ++ b :: behind, m⟩) next := by
  have hhere : ((Source.mk (line ++ b :: behind) m).mark.column == indent &&
      !Source.atEnd ⟨line ++ b :: behind, m⟩) = true := by
    have hend : (line ++ b :: behind).isEmpty = false := by
      rw [List.isEmpty_eq_false_iff]
      exact List.append_ne_nil_of_left_ne_nil hne _
    rw [Source.atEnd, hend, hm, beq_self_eq_true]
    rfl
  have hspan : Source.span (fun c => !isBreak c) ⟨line ++ b :: behind, m⟩ =
      (line, ⟨b :: behind, m.forward line.length⟩) := by
    have htake : (line ++ b :: behind).takeWhile (fun c => !isBreak c) = line := by
      rw [List.takeWhile_append_of_pos fun c hc => by rw [hline c hc]; rfl,
        List.takeWhile_cons_of_neg (by rw [hb.1]; decide), List.append_nil]
    simp only [Source.span, htake, Source.skip_append]
  obtain ⟨htext, hskip⟩ := Source.breakText_of_shown hb.1 hb.2 behind (m.forward line.length)
  rw [blockFrom]
  simp only [hhere, hspan, htext, hskip, hnext, Bool.not_true, Bool.false_and, Bool.false_eq_true,
    if_true, if_false]

theorem blockFrom_stop {next : Margin} (h : next.source.mark.column ≠ indent) :
    blockFrom true indent start fuel acc last blank next = .ok (acc, last, next) := by
  cases fuel with
  | zero => rfl
  | succ fuel =>
    rw [blockFrom]
    simp only [beq_eq_false_iff_ne.2 h, Bool.false_and, Bool.false_eq_true, if_false]

/-- What has been read of a block that makes up the text `cs`: its characters in reverse up to the
line ends behind it, the first of these, and the margin with the others. -/
structure ReadBlock (k : Nat) (body : List Char) (line : Nat) (cs : List Char)
    (r : List Char × List Char × Margin) : Prop where
  text : r.1.reverse ++ (r.2.1 ++ r.2.2.breaks) = cs
  core : ∀ c, r.1.head? = some c → isBreak c = false
  trail : ∀ c ∈ r.2.1 ++ r.2.2.breaks, isBreak c = true
  last : r.1 ≠ [] → r.2.1.length = 1
  next : NextLine k body line true r.2.2.source

/-- The lines of a block are read to the last. -/
theorem blockFrom_lines (h : Lined cs) (hne : cs ≠ []) (hshown : ∀ c ∈ cs, isShown c = true)
    (hm : m.column = indent) (hindent : k < indent) (hbody : Dark body) (hfuel : cs.length < fuel)
    (start : Mark) (acc last : List Char) (blank : Bool) (margin : List Char) (widest : Nat)
    (stop : Mark) :
    ∃ r, blockFrom true indent start fuel acc last blank
        ⟨margin, widest, stop, ⟨literalBody indent false cs ++ (spaces k ++ body), m⟩⟩ = .ok r ∧
      ReadBlock k body m.line (acc.reverse ++ (last ++ (margin ++ cs))) r := by
  induction h generalizing fuel m acc last blank margin widest stop with
  | nil => exact absurd rfl hne
  | @line line breaks more b hlne hline hbreaks hmore ih =>
    cases fuel with
    | zero => exact absurd hfuel (Nat.not_lt_zero _)
    | succ fuel =>
      have hb : isBreak b = true ∧ isShown b = true :=
        ⟨hbreaks b List.mem_cons_self, hshown b (by simp)⟩
      have hbs : ∀ c ∈ breaks, isBreak c = true ∧ isShown c = true := fun c hc =>
        ⟨hbreaks c (List.mem_cons_of_mem b hc), hshown c (by simp [hc])⟩
      have hwritten : literalBody indent false (line ++ (b :: breaks ++ more)) ++
          (spaces k ++ body) =
          line ++ b :: (breaks ++ (literalBody indent true more ++ (spaces k ++ body))) := by
        rw [literalBody_line hline, List.cons_append, literalBody, if_pos hb.1,
          literalBody_breaks fun c hc => (hbs c hc).1]
        simp only [List.append_assoc, List.cons_append]
      rw [hwritten, literalBody_next hmore]
      by_cases hmne : more = []
      · subst hmne
        obtain ⟨stop', m', hcolumn, hl, hmargin⟩ := marginFrom_eq
          (m := (m.forward line.length).newLine 1) hbs rfl (.inr (Nat.le_of_lt hindent))
          (.inl hbody.ne_space) hbody.first start
        refine ⟨(line.reverse ++ (margin.reverse ++ last.reverse ++ acc), [b],
          ⟨breaks, k, stop', ⟨body, m'⟩⟩), ?_, by simp, ?_, hbreaks, fun _ => rfl,
          .reached hcolumn (Nat.le_trans (Nat.le_succ _) hl)⟩
        · rw [if_pos rfl, blockFrom_line hlne hline hb hm hmargin,
            blockFrom_stop fun h => Nat.ne_of_lt hindent (hcolumn.symm.trans h)]
        · intro c hc
          refine hline c (List.mem_of_mem_getLast? ?_)
          rw [List.head?_append, List.head?_reverse, List.getLast?_eq_some_getLast hlne] at hc
          rw [List.getLast?_eq_some_getLast hlne]
          exact hc
      · have hshown' : ∀ c ∈ more, isShown c = true := fun c hc => hshown c (by simp [hc])
        have hfirst := literalBody_first hmore hmne hshown' indent (spaces k ++ body)
        obtain ⟨stop', m', hcolumn, hl, hmargin⟩ := marginFrom_eq
          (m := (m.forward line.length).newLine 1) hbs rfl (.inr (Nat.le_refl indent))
          (.inr ⟨rfl, Nat.ne_of_gt (Nat.lt_of_le_of_lt (Nat.zero_le k) hindent)⟩) hfirst start
        have hmoreFuel : more.length < fuel := by
          simp at hfuel
          omega
        obtain ⟨r, hread, hr⟩ := ih hmne hshown' hcolumn hmoreFuel
          (line.reverse ++ (margin.reverse ++ last.reverse ++ acc)) [b]
          (Source.gapHere ⟨line ++ b :: (breaks ++ (spaces indent ++
            (literalBody indent false more ++ (spaces k ++ body)))), m⟩) breaks indent stop'
        refine ⟨r, ?_, ⟨?_, hr.core, hr.trail, hr.last, hr.next.mono ?_⟩⟩
        · rw [if_neg hmne, blockFrom_line hlne hline hb hm hmargin, hread]
        · rw [hr.text]
          simp
        · exact Nat.le_trans (Nat.le_succ _) hl

end Lines

section Header

def Chomping.sign : Chomping → List Char
  | .strip => ['-']
  | .clip => []
  | .keep => ['+']

def Chomping.kept : Chomping → List Char → List Char
  | .strip, _ => []
  | .clip, trail => trail.take 1
  | .keep, trail => trail

def hint (cs : List Char) : List Char := if cs.head?.any isSpaceOrBreak then ['2'] else []

/-- What is kept of the line ends behind a text: none if it ends with something else, one if there
is one and something before it, and otherwise all. -/
def chompingOf (cs : List Char) : Chomping :=
  match cs.reverse with
  | [] => .strip
  | c :: rest =>
    if !isBreak c then .strip
    else match rest with
      | [] => .keep
      | d :: _ => if isBreak d then .keep else .clip

theorem literalHeader_eq (cs : List Char) : literalHeader cs = hint cs ++ (chompingOf cs).sign := by
  rw [literalHeader, chompingOf]
  refine congrArg (hint cs ++ ·) ?_
  cases cs.reverse with
  | nil => rfl
  | cons c rest =>
    cases rest with
    | nil => cases hc : isBreak c <;> simp [hc, Chomping.sign]
    | cons d rest =>
      cases hc : isBreak c <;> cases hd : isBreak d <;> simp [hc, hd, Chomping.sign]

theorem chompingOf_concat (front : List Char) (c : Char) : chompingOf (front ++ [c]) =
    if !isBreak c then .strip else match front.reverse with
      | [] => .keep
      | d :: _ => if isBreak d then .keep else .clip := by
  rw [chompingOf, List.reverse_concat]

def closed (cs : List Char) : List Char := if cs.getLast?.any isBreak then cs else cs ++ ['\n']

theorem closed_eq_append {core breaks : List Char} {b : Char} (h : closed cs = core ++ b :: breaks)
    (hb : ∀ c ∈ b :: breaks, isBreak c = true) :
    cs = core ++ b :: breaks ∨ cs = core ∧ breaks = [] ∧ cs.getLast?.any isBreak = false := by
  rw [closed] at h
  split at h
  · exact .inl h
  · rename_i hlast
    rw [Bool.not_eq_true] at hlast
    rcases List.eq_nil_or_concat' breaks with rfl | ⟨bs, x, rfl⟩
    · exact .inr ⟨(List.append_inj' h rfl).1, rfl, hlast⟩
    · exfalso
      have hassoc : core ++ b :: (bs ++ [x]) = (core ++ b :: bs) ++ [x] := by simp
      obtain ⟨hfront, -⟩ := List.append_inj' (h.trans hassoc) rfl
      have hbreak := hb _ (List.mem_append_left [x] (List.getLast_mem (List.cons_ne_nil b bs)))
      rw [hfront, List.getLast?_append, List.getLast?_eq_some_getLast (List.cons_ne_nil b bs),
        Option.some_or, Option.any_some, hbreak] at hlast
      cases hlast

theorem kept_chompingOf {core breaks : List Char} {b : Char} (hne : cs ≠ [])
    (hcs : closed cs = core ++ b :: breaks) (hb : ∀ c ∈ b :: breaks, isBreak c = true)
    (hcore : ∀ c, core.getLast? = some c → isBreak c = false) :
    cs = core ++ (chompingOf cs).kept (b :: breaks) ∧ (core = [] → chompingOf cs = .keep) := by
  rcases closed_eq_append hcs hb with rfl | ⟨rfl, rfl, hlast⟩
  · rcases List.eq_nil_or_concat' breaks with rfl | ⟨bs, x, rfl⟩
    · rw [chompingOf_concat, hb b List.mem_cons_self]
      rcases List.eq_nil_or_concat' core with rfl | ⟨ds, d, rfl⟩
      · exact ⟨rfl, fun _ => rfl⟩
      · rw [List.reverse_concat]
        simp only [hcore d List.getLast?_concat, Bool.not_true, Bool.false_eq_true, if_false]
        exact ⟨rfl, fun h => absurd h (by simp)⟩
    · obtain ⟨es, e, hes⟩ : ∃ es e, b :: bs = es ++ [e] :=
        ⟨_, _, (List.dropLast_concat_getLast (List.cons_ne_nil b bs)).symm⟩
      have hassoc : core ++ b :: (bs ++ [x]) = (core ++ es ++ [e]) ++ [x] := by
        rw [List.append_assoc core es, ← hes]
        simp
      have hmem : e ∈ b :: bs := hes ▸ List.mem_append_right es (List.mem_singleton_self e)
      have he : isBreak e = true := hb e (List.mem_append_left [x] hmem)
      have hkeep : chompingOf (core ++ b :: (bs ++ [x])) = .keep := by
        rw [hassoc, chompingOf_concat, hb x (by simp), List.reverse_concat]
        simp only [he, Bool.not_true, Bool.false_eq_true, if_false, if_true]
      rw [hkeep]
      exact ⟨rfl, fun _ => rfl⟩
  · obtain ⟨front, c, rfl⟩ : ∃ front c, cs = front ++ [c] :=
      ⟨_, _, (List.dropLast_concat_getLast hne).symm⟩
    rw [List.getLast?_concat, Option.any_some] at hlast
    rw [chompingOf_concat, hlast]
    exact ⟨(List.append_nil _).symm, fun h => absurd h (by simp)⟩

theorem scanHeader_eq (start : Mark) (cs : List Char) (ch : Chomping) (rest : List Char)
    (m : Mark) : ∃ m', m'.line = m.line ∧ scanHeader start ⟨hint cs ++ ch.sign ++ '\n' :: rest, m⟩ =
      .ok (⟨ch, if cs.head?.any isSpaceOrBreak then some 2 else none⟩, ⟨'\n' :: rest, m'⟩) := by
  rw [hint]
  split
  · cases ch with
    | strip => exact ⟨m.forward 2, rfl, rfl⟩
    | clip => exact ⟨m.forward 1, rfl, rfl⟩
    | keep => exact ⟨m.forward 2, rfl, rfl⟩
  · cases ch with
    | strip => exact ⟨m.forward 1, rfl, rfl⟩
    | clip => exact ⟨m, rfl, rfl⟩
    | keep => exact ⟨m.forward 1, rfl, rfl⟩

end Header

theorem shown_closed (h : ∀ c ∈ cs, isShown c = true) : ∀ c ∈ closed cs, isShown c = true := by
  rw [closed]
  split
  · exact h
  · intro c hc
    rcases List.mem_append.1 hc with hc | hc
    · exact h c hc
    · rw [List.mem_singleton.1 hc]
      rfl

theorem last_closed (cs : List Char) : ∀ c, (closed cs).getLast? = some c → isBreak c = true := by
  rw [closed]
  split
  · rename_i hlast
    intro c hc
    rwa [hc] at hlast
  · intro c hc
    rw [List.getLast?_concat] at hc
    rw [← Option.some.inj hc]
    rfl

theorem closed_ne_nil (h : cs ≠ []) : closed cs ≠ [] := by
  rw [closed]
  split
  · exact h
  · exact List.append_ne_nil_of_left_ne_nil h _

variable {parent : Nat}

def readLines (given parent : Nat) (start : Mark) (s : Source) :
    Except Problem (List Char × List Char × Margin) :=
  match marginFrom given start s with
  | .error e => .error e
  | .ok m =>
    blockFrom true (if given = 0 then max m.widest (max ((parent : Int) + 1) 1).toNat else given)
      start (s.rest.length + 1) [] [] false m

theorem exists_lead {cs : List Char} (hlast : ∀ c, cs.getLast? = some c → isBreak c = true) :
    ∃ lead lines, cs = lead ++ lines ∧ (∀ c ∈ lead, isBreak c = true) ∧ Lined lines := by
  obtain ⟨lead, lines, rfl, hlead, hlines⟩ := exists_span isBreak cs
  refine ⟨lead, lines, rfl, hlead, lined_of_last hlines fun c hc => hlast c ?_⟩
  rw [List.getLast?_append, hc]
  rfl

section Read

variable {lead lines : List Char} (hlead : ∀ c ∈ lead, isBreak c = true ∧ isShown c = true)
  (hk : k ≤ parent) (hbody : Dark body) (hm : m.column = 0)
include hlead hk hbody hm

theorem readLines_breaks (start : Mark) :
    ∃ r, readLines (parent + 2) parent start
        ⟨literalBody (parent + 2) true lead ++ (spaces k ++ body), m⟩ = .ok r ∧
      ReadBlock k body m.line lead r := by
  obtain ⟨stop, m', hcolumn, hl, hmargin⟩ := marginFrom_eq hlead hm
    (.inr (Nat.le_add_right_of_le hk : k ≤ parent + 2)) (.inl hbody.ne_space) hbody.first start
  have hwritten : literalBody (parent + 2) true (lead ++ []) = lead ++ [] :=
    literalBody_breaks (fun c hc => (hlead c hc).1) []
  rw [List.append_nil] at hwritten
  have hne : m'.column ≠ parent + 2 := by omega
  refine ⟨([], [], ⟨lead, k, stop, ⟨body, m'⟩⟩), ?_, ⟨by simp, fun c hc => (by cases hc),
    fun c hc => (hlead c hc).1, fun h => absurd rfl h, .reached hcolumn hl⟩⟩
  rw [hwritten, readLines]
  simp only [hmargin, if_neg (Nat.succ_ne_zero _)]
  exact blockFrom_stop hne

/-- Lines are read with the line ends before them. The indentation is given, or that of the first
line. -/
theorem readLines_lines (hlines : Lined lines) (hne : lines ≠ [])
    (hshown : ∀ c ∈ lines, isShown c = true)
    (hgiven : given = parent + 2 ∨ given = 0 ∧ lines.head? ≠ some ' ') (start : Mark) :
    ∃ r, readLines given parent start
        ⟨literalBody (parent + 2) true (lead ++ lines) ++ (spaces k ++ body), m⟩ = .ok r ∧
      ReadBlock k body m.line (lead ++ lines) r := by
  have hspace : (literalBody (parent + 2) false lines ++ (spaces k ++ body)).head? ≠ some ' ' ∨
      parent + 2 = given ∧ given ≠ 0 := by
    rw [head_literalBody (parent + 2) hne hlines.first]
    rcases hgiven with rfl | ⟨-, hspace⟩
    · exact .inr ⟨rfl, Nat.succ_ne_zero _⟩
    · exact .inl hspace
  have hwidth : given = 0 ∨ parent + 2 ≤ given := by omega
  obtain ⟨stop, m', hcolumn, hl, hmargin⟩ := marginFrom_eq hlead hm hwidth hspace
    (literalBody_first hlines hne hshown (parent + 2) (spaces k ++ body)) start
  have hwritten : literalBody (parent + 2) true (lead ++ lines) ++ (spaces k ++ body) = lead ++
      (spaces (parent + 2) ++ (literalBody (parent + 2) false lines ++ (spaces k ++ body))) := by
    rw [literalBody_breaks fun c hc => (hlead c hc).1, List.append_assoc, literalBody_next hlines,
      if_neg hne]
  have hindent : (if given = 0 then max (parent + 2) (max ((parent : Int) + 1) 1).toNat
      else given) = parent + 2 := by
    split <;> omega
  have hfuel : lines.length < (lead ++ (spaces (parent + 2) ++
      (literalBody (parent + 2) false lines ++ (spaces k ++ body)))).length + 1 := by
    have hle := length_le_literalBody (parent + 2) false lines
    simp only [List.length_append]
    omega
  obtain ⟨r, hread, hr⟩ := blockFrom_lines hlines hne hshown hcolumn
    (show k < parent + 2 by omega) hbody hfuel start [] [] false lead (parent + 2) stop
  refine ⟨r, ?_, ⟨hr.text, hr.core, hr.trail, hr.last, hr.next.mono hl⟩⟩
  rw [hwritten, readLines]
  simp only [hmargin, hindent]
  exact hread

end Read

/-- The lines of a text that ends with a line end are read. Where the indentation is not given, the
text does not begin with a blank. -/
theorem readLines_text (hlast : ∀ c, cs.getLast? = some c → isBreak c = true)
    (hshown : ∀ c ∈ cs, isShown c = true) (hk : k ≤ parent) (hbody : Dark body)
    (hgiven : given = parent + 2 ∨ given = 0 ∧ ∃ c r, cs = c :: r ∧ isSpaceOrBreak c = false)
    (hm : m.column = 0) (start : Mark) :
    ∃ r, readLines given parent start
        ⟨literalBody (parent + 2) true cs ++ (spaces k ++ body), m⟩ = .ok r ∧
      ReadBlock k body m.line cs r := by
  obtain ⟨lead, lines, rfl, hlead, hlines⟩ := exists_lead hlast
  have hlead' : ∀ c ∈ lead, isBreak c = true ∧ isShown c = true :=
    fun c hc => ⟨hlead c hc, hshown c (List.mem_append_left _ hc)⟩
  -- A text that begins with a line end is given its indentation.
  have hfirst : given = parent + 2 ∨ given = 0 ∧ lead = [] ∧ lines.head? ≠ some ' ' ∧
      lines ≠ [] := by
    refine hgiven.imp_right ?_
    rintro ⟨hzero, c, r, hcs, hc⟩
    cases lead with
    | nil =>
      rw [List.nil_append] at hcs
      rw [hcs]
      refine ⟨hzero, rfl, ?_, List.cons_ne_nil c r⟩
      rintro ⟨⟩
      cases hc
    | cons d lead =>
      have hbreak := hlead d List.mem_cons_self
      rw [(List.cons.inj hcs).1] at hbreak
      rw [isSpaceOrBreak, hbreak, Bool.or_true] at hc
      cases hc
  by_cases hne : lines = []
  · subst hne
    obtain rfl : given = parent + 2 := hfirst.resolve_right fun h => h.2.2.2 rfl
    rw [List.append_nil]
    exact readLines_breaks hlead' hk hbody hm start
  · exact readLines_lines hlead' hk hbody hm hlines hne
      (fun c hc => hshown c (List.mem_append_right _ hc))
      (hfirst.imp_right fun h => ⟨h.1, h.2.2.1⟩) start

def Chomping.tail (ch : Chomping) (last : List Char) (next : Margin) : List Char :=
  match ch with
  | .strip => []
  | .clip => last
  | .keep => last ++ next.breaks

theorem ReadBlock.trail_ne_nil {line : Nat} {r : List Char × List Char × Margin}
    (h : ReadBlock k body line cs r) (hne : cs ≠ [])
    (hlast : ∀ c, cs.getLast? = some c → isBreak c = true) : r.2.1 ++ r.2.2.breaks ≠ [] := by
  intro hnil
  have htext := h.text
  rw [hnil, List.append_nil] at htext
  have hcore : r.1 ≠ [] := by
    intro hr
    rw [hr] at htext
    exact hne htext.symm
  obtain ⟨c, core, hc⟩ := List.exists_cons_of_ne_nil hcore
  have hbreak := hlast c (by rw [← htext, hc]; simp)
  rw [h.core c (by rw [hc]; rfl)] at hbreak
  cases hbreak

theorem ReadBlock.tail_eq {line : Nat} {r : List Char × List Char × Margin} {ch : Chomping}
    (h : ReadBlock k body line cs r) (hcore : r.1 = [] → ch = .keep) :
    ch.tail r.2.1 r.2.2 = ch.kept (r.2.1 ++ r.2.2.breaks) := by
  cases ch with
  | strip => rfl
  | keep => rfl
  | clip =>
    have hlast := h.last fun hr => by cases hcore hr
    rw [Chomping.kept, List.take_append_of_le_length (Nat.le_of_eq hlast.symm),
      List.take_of_length_le (Nat.le_of_eq hlast)]
    rfl

theorem scanBlock_eq {ch : Chomping} {increment : Option Nat} {behind : List Char} {m₁ : Mark}
    {r : List Char × List Char × Margin}
    (hheader : scanHeader m ⟨rest, m.forward 1⟩ = .ok (⟨ch, increment⟩, ⟨'\n' :: behind, m₁⟩))
    (hread : readLines (increment.elim 0 (parent + ·)) parent m ⟨behind, m₁.newLine 1⟩ = .ok r) :
    scanBlock true parent ⟨'|' :: rest, m⟩ =
      .ok ⟨r.1.reverse ++ ch.tail r.2.1 r.2.2, r.2.2.stop, true, r.2.2.source⟩ := by
  have hline : Source.lineEnds (Source.skipComment (Source.skipGaps ⟨'\n' :: behind, m₁⟩)) = true :=
    rfl
  have hskip : Source.skipLine (Source.skipComment (Source.skipGaps ⟨'\n' :: behind, m₁⟩)) =
      ⟨behind, m₁.newLine 1⟩ := rfl
  have hmax : (max (parent : Int) 0).toNat = parent := by omega
  rw [readLines] at hread
  rw [scanBlock, Source.skip_one]
  simp only [hheader, hline, hskip, hmax, Bool.not_true, Bool.false_eq_true, if_false]
  cases increment <;>
  · split at hread
    · cases hread
    · rename_i next hmargin
      rw [Option.elim] at hmargin hread
      rw [hmargin]
      dsimp only
      rw [hread]
      cases ch <;> rfl

/-- A text that may stand as a literal block is read back from its lines. -/
theorem scanBlock_text (h : literalAllowed cs = true) (hne : cs ≠ []) (hk : k ≤ parent)
    (hbody : Dark body) :
    ∃ x, scanBlock true parent ⟨'|' :: literalHeader cs ++
        '\n' :: (literalBody (parent + 2) true (closed cs) ++ (spaces k ++ body)), m⟩ = .ok x ∧
      x.text = cs ∧ x.broken = true ∧ NextLine k body (m.line + 1) true x.source := by
  have hescape : needsEscape cs = false := by
    simp only [literalAllowed, Bool.and_eq_true, Bool.not_eq_true'] at h
    exact h.1
  obtain ⟨m₁, hline₁, hheader⟩ := scanHeader_eq m cs (chompingOf cs)
    (literalBody (parent + 2) true (closed cs) ++ (spaces k ++ body)) (m.forward 1)
  have hgiven : (if cs.head?.any isSpaceOrBreak then some 2 else none).elim 0 (parent + ·) =
        parent + 2 ∨
      (if cs.head?.any isSpaceOrBreak then some 2 else none).elim 0 (parent + ·) = 0 ∧
        ∃ c r, closed cs = c :: r ∧ isSpaceOrBreak c = false := by
    split
    · exact .inl rfl
    · rename_i hhead
      obtain ⟨c, r, rfl⟩ := List.exists_cons_of_ne_nil hne
      refine .inr ⟨rfl, c, (closed (c :: r)).tail, ?_, by simpa using hhead⟩
      rw [closed]
      split <;> rfl
  obtain ⟨r, hread, hr⟩ := readLines_text (m := m₁.newLine 1) (last_closed cs)
    (shown_closed (shown_of_needsEscape hescape)) hk hbody hgiven rfl m
  obtain ⟨b, breaks, htrail⟩ :=
    List.exists_cons_of_ne_nil (hr.trail_ne_nil (closed_ne_nil hne) (last_closed cs))
  have hcore : ∀ c, r.1.reverse.getLast? = some c → isBreak c = false := by
    intro c hc
    rw [List.getLast?_reverse] at hc
    exact hr.core c hc
  obtain ⟨hkept, hnone⟩ := kept_chompingOf hne (htrail ▸ hr.text.symm) (htrail ▸ hr.trail) hcore
  have htail := hr.tail_eq fun h => hnone (by rw [h, List.reverse_nil])
  refine ⟨⟨r.1.reverse ++ (chompingOf cs).tail r.2.1 r.2.2, r.2.2.stop, true, r.2.2.source⟩,
    scanBlock_eq ?_ hread, ?_, rfl, hr.next.mono ?_⟩
  · rw [literalHeader_eq]
    exact hheader
  · rw [htail, htrail]
    exact hkept.symm
  · rw [Mark.newLine, hline₁]
    exact Nat.le_refl _

end EventPost.Yaml
