import EventPost.Proofs.Yaml.Scalar

/-!
One step of the scanner: what it fetches where it stands. Between two lines it passes over the line
end and the spaces before the next line, and closes the blocks that the next line is not in.
-/

namespace EventPost.Yaml

namespace Scanner

def fetchHere (s : Scanner) : Except Problem Scanner :=
  match s.source.rest with
  | [] => s.fetchEnd
  | c :: _ =>
    if s.mark.column == 0 && c == '%' then s.fetchDirective
    else if s.source.markerAt '-' then s.fetchMarker .documentStart
    else if s.source.markerAt '.' then s.fetchMarker .documentEnd
    else if c == '[' then s.fetchFlowStart .flowSequenceStart
    else if c == '\x7b' then s.fetchFlowStart .flowMappingStart
    else if c == ']' then s.fetchFlowEnd .flowSequenceEnd
    else if c == '\x7d' then s.fetchFlowEnd .flowMappingEnd
    else if c == ',' then s.fetchFlowEntry
    else if c == '-' && s.source.blankAt 1 then s.fetchBlockEntry
    else if c == '?' && (s.flow || s.source.blankAt 1) then s.fetchKey
    else if c == ':' && (s.flow || s.source.blankAt 1) then s.fetchValue
    else if c == '*' then s.fetchName .alias
    else if c == '&' then s.fetchName .anchor
    else if c == '!' then s.fetchTag
    else if c == '|' && !s.flow then s.fetchBlockScalar true
    else if c == '>' && !s.flow then s.fetchBlockScalar false
    else if c == '\'' then s.fetchQuoted true
    else if c == '"' then s.fetchQuoted false
    else if s.startsPlain c then s.fetchPlain
    else .error (s.source.problem "while scanning for the next token" s.mark
      "found character that cannot start any token")

theorem fetchNext_eq {s s₁ s₂ : Scanner} (hs : s.started = true)
    (hskip : skipBlank (s.source.rest.length + 1) s = s₁) (hdrop : s₁.dropStale = .ok s₂) :
    s.fetchNext = (s₂.closeTo s₂.mark.column).fetchHere := by
  rw [fetchNext, hs, hskip, hdrop]
  rfl

end Scanner

variable {s : Scanner} {rest : List Char} {m : Mark} {c : Char}

theorem Source.markerAt_of_ne {c d : Char} (h : c ≠ d) :
    Source.markerAt ⟨c :: rest, m⟩ d = false := by
  have htake : ((c :: rest).take 3 == [d, d, d]) = false := by
    rw [beq_eq_false_iff_ne]
    exact fun he => h (List.cons.inj he).1
  rw [markerAt, htake, Bool.and_false, Bool.false_and]

namespace Scanner

theorem fetchHere_quote (single : Bool) (h : s.source = ⟨quoteMark single :: rest, m⟩) :
    s.fetchHere = s.fetchQuoted single := by
  cases single <;>
    simp [fetchHere, h, quoteMark, Source.markerAt_of_ne]

theorem fetchHere_bar (h : s.source = ⟨'|' :: rest, m⟩) (hflow : s.flow = false) :
    s.fetchHere = s.fetchBlockScalar true := by
  simp [fetchHere, h, hflow, Source.markerAt_of_ne]

theorem fetchHere_entry (h : s.source = ⟨'-' :: ' ' :: rest, m⟩) :
    s.fetchHere = s.fetchBlockEntry := by
  simp [fetchHere, h, Source.markerAt, Source.blankAt_one, isBlankOrBreak, isGap]

theorem fetchHere_colon (h : s.source = ⟨':' :: rest, m⟩)
    (hrest : rest.head?.any isBlankOrBreak = true) : s.fetchHere = s.fetchValue := by
  simp [fetchHere, h, Source.markerAt_of_ne, Source.blankAt_one, hrest]

theorem fetchHere_open (h : s.source = ⟨'[' :: rest, m⟩) :
    s.fetchHere = s.fetchFlowStart .flowSequenceStart := by
  simp [fetchHere, h, Source.markerAt_of_ne]

theorem fetchHere_close (h : s.source = ⟨']' :: rest, m⟩) :
    s.fetchHere = s.fetchFlowEnd .flowSequenceEnd := by
  simp [fetchHere, h, Source.markerAt_of_ne]

def signs : List Char := ['-', '?', ':']

theorem isIndicator_cases {c : Char} (h : isIndicator c = true) :
    c ∈ signs ∨ c ∈ openingIndicators := by
  have htable : ∀ c ∈ "-?:,[]\x7b\x7d#&*!|>'\"%@`".toList, c ∈ signs ∨ c ∈ openingIndicators :=
    forall_mem_of_all (by decide +kernel)
  exact htable c (List.contains_iff_mem.1 h)

/-- A character with which a plain scalar begins: no indicator, and no sign before a blank. -/
def StartsPlain (c : Char) (rest : List Char) : Prop :=
  c ∉ openingIndicators ∧ isBlankOrBreak c = false ∧
    (c ∈ signs → ∃ d r, rest = d :: r ∧ isBlankOrBreak d = false)

theorem fetchHere_plain (h : s.source = ⟨c :: rest, m⟩) (hflow : s.flow = false)
    (hstart : StartsPlain c rest) (hdash : s.source.markerAt '-' = false)
    (hdot : s.source.markerAt '.' = false) : s.fetchHere = s.fetchPlain := by
  obtain ⟨hopening, hdark, hsign⟩ := hstart
  have hblank : c ∈ signs → s.source.blankAt 1 = false := by
    intro hc
    obtain ⟨d, r, rfl, hd⟩ := hsign hc
    rw [h, Source.blankAt_one, List.isEmpty_cons, List.head?_cons, Option.any_some, hd]
    rfl
  have hstarts : s.startsPlain c = true := by
    by_cases hc : c ∈ signs
    · have hgap : s.source.testAt 1 isGap = false := by
        obtain ⟨d, r, rfl, hd⟩ := hsign hc
        rw [h]
        exact (isBlankOrBreak_eq_false.1 hd).1
      have hcases := hc
      simp only [signs, List.mem_cons, List.not_mem_nil, or_false] at hcases
      rcases hcases with rfl | rfl | rfl <;> simp [startsPlain, hgap, hflow, hblank hc]
    · have hnot : isIndicator c = false := by
        rw [← Bool.not_eq_true]
        exact fun hi => (isIndicator_cases hi).elim hc hopening
      have hhere : s.source.blankAt 0 = false := by
        rw [h]
        exact hdark
      simp [startsPlain, hnot, hhere]
  have hsigns : (c == '-' && s.source.blankAt 1) = false ∧
      (c == '?' && (s.flow || s.source.blankAt 1)) = false ∧
      (c == ':' && (s.flow || s.source.blankAt 1)) = false := by
    rw [hflow, Bool.false_or]
    by_cases hc : c ∈ signs
    · rw [hblank hc, Bool.and_false, Bool.and_false, Bool.and_false]
      exact ⟨rfl, rfl, rfl⟩
    · simp only [signs, List.mem_cons, List.not_mem_nil, or_false, not_or] at hc
      rw [beq_eq_false_iff_ne.2 hc.1, beq_eq_false_iff_ne.2 hc.2.1, beq_eq_false_iff_ne.2 hc.2.2]
      exact ⟨rfl, rfl, rfl⟩
  simp only [openingIndicators, List.mem_cons, List.not_mem_nil, or_false, not_or] at hopening
  have hrest : s.source.rest = c :: rest := by rw [h]
  rw [fetchHere, hrest]
  simp [hdash, hdot, hsigns, hopening, hstarts]

theorem startsPlain_text {cs : List Char} (h : plainAllowed (c :: cs) = true) (rest : List Char) :
    StartsPlain c (cs ++ '\n' :: rest) := by
  have htext := plainText_of_allowed h
  simp only [plainAllowed, Bool.and_eq_true, Bool.not_eq_true', hasIndicator,
    Bool.or_eq_false_iff] at h
  obtain ⟨-, ⟨⟨⟨-, hopening⟩, hdash⟩, hcolon⟩, -⟩ := h
  refine ⟨?_, (htext.first c rfl).1, ?_⟩
  · intro hc
    rw [List.head?_cons, Option.any_some, List.contains_iff_mem.2 hc] at hopening
    cases hopening
  · intro hc
    have hnext : ∀ d r, cs ++ '\n' :: rest = d :: r → hasPair (· == c) isBlankOrBreak [c, d] = false →
        ∃ d r, cs ++ '\n' :: rest = d :: r ∧ isBlankOrBreak d = false := by
      intro d r hd hpair
      refine ⟨d, r, hd, ?_⟩
      simpa [hasPair] using hpair
    simp only [signs, List.mem_cons, List.not_mem_nil, or_false] at hc
    cases cs with
    | nil =>
      exfalso
      rcases hc with rfl | rfl | rfl
      · exact absurd hdash (by decide)
      · exact absurd hdash (by decide)
      · exact absurd hcolon (by decide)
    | cons d cs =>
      refine ⟨d, cs ++ '\n' :: rest, rfl, ?_⟩
      rcases hc with rfl | rfl | rfl
      · simpa [hasPair] using hdash
      · simpa [hasPair] using hdash
      · simp only [List.cons_append, hasPair, Bool.or_eq_false_iff] at hcolon
        simpa using hcolon.1

theorem startsPlain_key {word : List Char} (h : KeyWord (c :: word)) (rest : List Char) :
    StartsPlain c rest := by
  have hkey : ∀ c ∈ keyChars, c ∉ openingIndicators ∧ isBlankOrBreak c = false ∧ c ∉ signs :=
    forall_mem_of_all (by decide)
  obtain ⟨hopening, hdark, hsign⟩ := hkey c (h.chars c List.mem_cons_self)
  exact ⟨hopening, hdark, fun hc => absurd hc hsign⟩

def Fresh (cs : List Char) : Prop :=
  ∀ c, cs.head? = some c → isBlankOrBreak c = false ∧ c ≠ '#' ∧ c ≠ '\uFEFF'

theorem fresh_cons {cs : List Char} : Fresh (c :: cs) ↔
    isBlankOrBreak c = false ∧ c ≠ '#' ∧ c ≠ '\uFEFF' := by
  simp [Fresh]

theorem Fresh.nil : Fresh [] := fun _ h => by cases h

theorem Fresh.dark {cs : List Char} (h : Fresh cs) : Dark cs := fun c hc => (h c hc).1

theorem fresh_key {word : List Char} (h : KeyWord word) (rest : List Char) :
    Fresh (word ++ rest) := by
  have hkey : ∀ c ∈ keyChars, isBlankOrBreak c = false ∧ c ≠ '#' ∧ c ≠ '\uFEFF' :=
    forall_mem_of_all (by decide)
  obtain ⟨c, word, rfl⟩ := List.exists_cons_of_ne_nil h.ne_nil
  exact fresh_cons.2 (hkey c (h.chars c List.mem_cons_self))

theorem fresh_plain {cs : List Char} (h : plainAllowed cs = true) (hne : cs ≠ [])
    (rest : List Char) : Fresh (cs ++ rest) := by
  have hfirst := (plainText_of_allowed h).first
  obtain ⟨c, cs, rfl⟩ := List.exists_cons_of_ne_nil hne
  obtain ⟨hdark, hhash⟩ := hfirst c rfl
  simp only [plainAllowed, Bool.and_eq_true, Bool.not_eq_true'] at h
  refine fresh_cons.2 ⟨hdark, hhash, ?_⟩
  rintro rfl
  exact absurd (shown_of_needsEscape h.1.2 _ List.mem_cons_self) (by decide)

theorem fresh_scalarLine {indent : Nat} {cs written : List Char} {style : ScalarStyle}
    (h : ScalarLine indent cs style written) (rest : List Char) : Fresh (written ++ rest) := by
  cases h with
  | plain hallowed hne =>
    rw [List.append_assoc]
    exact fresh_plain hallowed hne _
  | single => exact fresh_cons.2 ⟨rfl, by decide, by decide⟩
  | double => exact fresh_cons.2 ⟨rfl, by decide, by decide⟩
  | literal => exact fresh_cons.2 ⟨rfl, by decide, by decide⟩

/-- A scanner outside all brackets, with the place of a possible key if there is one. -/
abbrev outside (source : Source) (queue : List Token) (taken : Nat) (indent : Int)
    (indents : List Int) (keyAllowed : Bool) (place : Option KeyPlace) : Scanner :=
  ⟨source, queue, taken, true, indent, indents, keyAllowed, [place]⟩

section Blanks

variable {q : List Token} {n k fuel line : Nat} {i : Int} {is : List Int} {ka : Bool}
  {place : Option KeyPlace} {body : List Char} {src : Source}

theorem skipBlank_spaces (h : Fresh rest) :
    skipBlank (fuel + 1) (outside ⟨spaces k ++ rest, m⟩ q n i is ka place) =
      outside ⟨rest, m.forward k⟩ q n i is ka place := by
  have hmark : Source.startsWith ⟨spaces k ++ rest, m⟩ '\uFEFF' = false := by
    refine beq_eq_false_iff_ne.2 fun hhead => ?_
    cases k with
    | zero => exact (h _ hhead).2.2 rfl
    | succ k => cases hhead
  have hspan : ∀ p : Char → Bool, p ' ' = true → (∀ c, isGap c = false → p c = false) →
      Source.span p ⟨spaces k ++ rest, m⟩ = (spaces k, ⟨rest, m.forward k⟩) := by
    intro p hp hgap
    have htake : (spaces k ++ rest).takeWhile p = spaces k := by
      rw [List.takeWhile_append_of_pos fun c hc => by rw [List.eq_of_mem_replicate hc, hp]]
      cases rest with
      | nil => rw [List.takeWhile_nil, List.append_nil]
      | cons c rest =>
        have hc := hgap c (isBlankOrBreak_eq_false.1 (h c rfl).1).1
        rw [List.takeWhile_cons_of_neg (by rw [hc]; decide), List.append_nil]
    rw [Source.span, htake, Source.skip_append, length_spaces]
  have hcomment : Source.skipComment ⟨rest, m.forward k⟩ = ⟨rest, m.forward k⟩ := by
    have hstart : Source.startsWith ⟨rest, m.forward k⟩ '#' = false :=
      beq_eq_false_iff_ne.2 fun hhead => (h _ hhead).2.1 rfl
    rw [Source.skipComment, hstart]
    rfl
  have hbreak : Source.breakAt ⟨rest, m.forward k⟩ 0 = false := by
    cases rest with
    | nil => rfl
    | cons c rest => exact (isBlankOrBreak_eq_false.1 (h c rfl).1).2
  rw [skipBlank]
  simp only [mark, hmark, Bool.and_false, Bool.false_eq_true, if_false]
  rw [hspan _ rfl fun c hc => ?_]
  · simp only [hcomment, hbreak, Bool.false_eq_true, if_false]
  · rw [isGap, Bool.or_eq_false_iff] at hc
    rw [hc.1, hc.2, Bool.and_false]
    rfl

theorem skipBlank_next (h : NextLine k body line ka src) (hbody : Fresh body) (q : List Token)
    (n : Nat) (i : Int) (is : List Int) (place : Option KeyPlace) :
    ∃ m', m'.column = k ∧ line ≤ m'.line ∧
      skipBlank (src.rest.length + 1) (outside src q n i is ka place) =
        outside ⟨body, m'⟩ q n i is true place := by
  cases h with
  | @reached m hcolumn hline =>
    have hskip : skipBlank (body.length + 1) (outside ⟨body, m⟩ q n i is true place) =
        outside ⟨body, m⟩ q n i is true place := skipBlank_spaces (k := 0) hbody
    exact ⟨m, hcolumn, hline, hskip⟩
  | @ahead _ m hline =>
    refine ⟨(m.newLine 1).forward k, Nat.zero_add k, hline, ?_⟩
    have hstep : skipBlank (('\n' :: (spaces k ++ body)).length + 1)
        (outside ⟨'\n' :: (spaces k ++ body), m⟩ q n i is ka place) =
        skipBlank ((spaces k ++ body).length + 1)
          (outside ⟨spaces k ++ body, m.newLine 1⟩ q n i is (ka || true) place) := by
      have hmark : Source.startsWith ⟨'\n' :: (spaces k ++ body), m⟩ '\uFEFF' = false := rfl
      have hspan : ∀ tabs, Source.skipComment (Source.span
          (fun c => c == ' ' || (tabs && c == '\t')) ⟨'\n' :: (spaces k ++ body), m⟩).2 =
          ⟨'\n' :: (spaces k ++ body), m⟩ := by
        intro tabs
        cases tabs <;> rfl
      have hbreak : Source.breakAt ⟨'\n' :: (spaces k ++ body), m⟩ 0 = true := rfl
      rw [skipBlank]
      simp only [mark, hmark, Bool.and_false, Bool.false_eq_true, if_false, hspan, hbreak, if_true]
      rfl
    rw [hstep, Bool.or_true]
    exact skipBlank_spaces hbody

theorem dropStale_gone
    (h : ∀ p, place = some p → p.required = false ∧ KeyPlace.isStale p src.mark = true)
    (q : List Token) (n : Nat) (i : Int) (is : List Int) (ka : Bool) :
    dropStale (outside src q n i is ka place) = .ok (outside src q n i is ka none) := by
  cases place with
  | none => rfl
  | some p =>
    obtain ⟨hrequired, hstale⟩ := h p rfl
    simp [dropStale, dropStaleIn, mark, hstale, hrequired, Except.map]

theorem dropStale_live {p : KeyPlace} (h : KeyPlace.isStale p src.mark = false) :
    dropStale (outside src q n i is ka (some p)) = .ok (outside src q n i is ka (some p)) := by
  simp [dropStale, dropStaleIn, mark, h, Except.map]

theorem isStale_of_line {p : KeyPlace} (h : p.mark.line < m.line) :
    KeyPlace.isStale p m = true := by
  rw [KeyPlace.isStale, decide_eq_true h, Bool.true_or]

theorem isStale_forward {p : KeyPlace} {length : Nat} (hlength : length ≤ 1024)
    (hmark : p.mark = m) : KeyPlace.isStale p (m.forward length) = false := by
  simp only [KeyPlace.isStale, hmark, Mark.forward, Bool.or_eq_false_iff, decide_eq_false_iff_not]
  omega

theorem closeTo_inside {column : Int} (h : i ≤ column) :
    closeTo (outside src q n i is ka place) column = outside src q n i is ka place := by
  cases is with
  | nil => rfl
  | cons o is => exact if_neg (Int.not_lt.2 h)

theorem closeTo_outer {column o : Int} (h : column < i) (ho : o ≤ column) :
    closeTo (outside ⟨rest, m⟩ q n i (o :: is) ka place) column =
      outside ⟨rest, m⟩ (q ++ [⟨.blockEnd, m, m⟩]) n o is ka place :=
  (if_pos h).trans (closeTo_inside ho)

theorem fetchNext_next (h : NextLine k body line ka src) (hbody : Fresh body)
    (hplace : ∀ p, place = some p → p.required = false ∧ p.mark.line < line) (q : List Token)
    (n : Nat) (i : Int) (is : List Int) :
    ∃ m', m'.column = k ∧ fetchNext (outside src q n i is ka place) =
      ((outside ⟨body, m'⟩ q n i is true none).closeTo k).fetchHere := by
  obtain ⟨m', hcolumn, hline, hskip⟩ := skipBlank_next h hbody q n i is place
  refine ⟨m', hcolumn, ?_⟩
  have hdrop : dropStale (outside ⟨body, m'⟩ q n i is true place) =
      .ok (outside ⟨body, m'⟩ q n i is true none) := dropStale_gone (fun p hp =>
    ⟨(hplace p hp).1, isStale_of_line (Nat.lt_of_lt_of_le (hplace p hp).2 hline)⟩) q n i is true
  rw [fetchNext_eq rfl hskip hdrop]
  exact congrArg (fun c : Nat => fetchHere (closeTo _ c)) hcolumn

theorem fetchNext_space (hrest : Fresh rest) (hi : i ≤ m.column) (q : List Token) (n : Nat)
    (is : List Int) (ka : Bool) :
    fetchNext (outside ⟨' ' :: rest, m⟩ q n i is ka none) =
      (outside ⟨rest, m.forward 1⟩ q n i is ka none).fetchHere := by
  have hskip : skipBlank ((' ' :: rest).length + 1) (outside ⟨' ' :: rest, m⟩ q n i is ka none) =
      outside ⟨rest, m.forward 1⟩ q n i is ka none := skipBlank_spaces (k := 1) hrest
  rw [fetchNext_eq rfl hskip rfl]
  refine congrArg fetchHere (closeTo_inside (Int.le_trans hi ?_))
  exact Int.ofNat_le.2 (Nat.le_succ _)

end Blanks

section Scalars

variable {q : List Token} {n k parent : Nat} {is : List Int} {ka : Bool} {cs written body : List Char}

theorem notePlace_outside {src : Source} {i : Int} :
    notePlace (outside src q n i is ka none) = .ok (outside src q n i is ka
      (if ka then some ⟨n + q.length, src.mark, i == (src.mark.column : Int)⟩ else none)) := by
  cases ka <;> rfl

def scalarPlace (ka : Bool) (number : Nat) (m : Mark) : Option KeyPlace :=
  if ka then some ⟨number, m, false⟩ else none

theorem notePlace_scalar (hcolumn : parent < m.column) :
    notePlace (outside ⟨rest, m⟩ q n parent is ka none) =
      .ok (outside ⟨rest, m⟩ q n parent is ka (scalarPlace ka (n + q.length) m)) := by
  have hrequired : ((parent : Int) == (m.column : Int)) = false :=
    beq_eq_false_iff_ne.2 fun h => Nat.ne_of_lt hcolumn (Int.ofNat.inj h)
  rw [notePlace_outside, hrequired]
  rfl

theorem fetchPlain_eq {src : Source} {x : Scanned} (hscan : scanPlain false parent src = .ok x)
    (hcolumn : parent < src.mark.column) :
    fetchPlain (outside src q n parent is ka none) =
      .ok (outside x.source (q ++ [⟨.scalar x.text .plain, src.mark, x.stop⟩]) n parent is x.broken
        (scalarPlace ka (n + q.length) src.mark)) := by
  have hflow : ∀ place, flow (outside src q n parent is ka place) = false := fun _ => rfl
  simp only [fetchPlain, notePlace_scalar hcolumn, bind, Except.bind, hflow, hscan]
  rfl

theorem fetchQuoted_eq {single : Bool} {src : Source} {x : Scanned}
    (hscan : scanQuoted single src = .ok x) (hbroken : x.broken = false)
    (hcolumn : parent < src.mark.column) :
    fetchQuoted (outside src q n parent is ka none) single =
      .ok (outside x.source (q ++ [⟨.scalar x.text (if single then .singleQuoted else .doubleQuoted),
        src.mark, x.stop⟩]) n parent is x.broken (scalarPlace ka (n + q.length) src.mark)) := by
  simp only [fetchQuoted, notePlace_scalar hcolumn, bind, Except.bind, hscan, hbroken]
  rfl

theorem fetchBlockScalar_eq {src : Source} {x : Scanned} (hscan : scanBlock true parent src = .ok x)
    (hbroken : x.broken = true) :
    fetchBlockScalar (outside src q n parent is ka none) true =
      .ok (outside x.source (q ++ [⟨.scalar x.text .literal, src.mark, x.stop⟩]) n parent is x.broken
        none) := by
  have hdrop : dropPlace (outside src q n parent is ka none) =
      .ok (outside src q n parent is ka none) := rfl
  simp only [fetchBlockScalar, hdrop, bind, Except.bind, hscan, hbroken]
  rfl

theorem fetchHere_plainText (h : plainAllowed cs = true) (hne : cs ≠ [])
    (hcolumn : parent < m.column) (hk : k ≤ parent) (hbody : Dark body) (q : List Token) (n : Nat)
    (is : List Int) (ka : Bool) :
    ∃ x : Scanned, NextLine k body (m.line + 1) x.broken x.source ∧
      fetchHere (outside ⟨cs ++ '\n' :: (spaces k ++ body), m⟩ q n parent is ka none) =
        .ok (outside x.source (q ++ [⟨.scalar cs .plain, m, x.stop⟩]) n parent is x.broken
          (scalarPlace ka (n + q.length) m)) := by
  have hpos : 0 < m.column := Nat.lt_of_le_of_lt (Nat.zero_le _) hcolumn
  obtain ⟨x, hscan, rfl, hnext⟩ := scanPlain_text h hne (Int.ofNat_lt.2 hcolumn) hpos
    (Int.ofNat_le.2 hk) hbody
  refine ⟨x, hnext, ?_⟩
  obtain ⟨c, cs, hcs⟩ := List.exists_cons_of_ne_nil hne
  rw [hcs] at h hscan ⊢
  have hmark : ∀ d, Source.markerAt ⟨c :: cs ++ '\n' :: (spaces k ++ body), m⟩ d = false := by
    intro d
    have hzero : (m.column == 0) = false := beq_eq_false_iff_ne.2 (Nat.ne_of_gt hpos)
    simp only [Source.markerAt, hzero, Bool.false_and]
  rw [fetchHere_plain rfl rfl (startsPlain_text h _) (hmark '-') (hmark '.'),
    fetchPlain_eq hscan hcolumn, hcs]

theorem fetchHere_quoted {single : Bool} {pen : Char → List Char} (h : Laid single pen cs written)
    (hcolumn : parent < m.column) (k : Nat) (body : List Char) (q : List Token) (n : Nat)
    (is : List Int) (ka : Bool) :
    ∃ x : Scanned, NextLine k body (m.line + 1) x.broken x.source ∧
      fetchHere (outside ⟨quoteMark single :: written ++ [quoteMark single, '\n'] ++
          (spaces k ++ body), m⟩ q n parent is ka none) =
        .ok (outside x.source (q ++ [⟨.scalar cs (if single then .singleQuoted else .doubleQuoted),
          m, x.stop⟩]) n parent is x.broken (scalarPlace ka (n + q.length) m)) := by
  obtain ⟨x, hscan, rfl, hbroken, hnext⟩ := scanQuoted_laid h m k body
  have hsource : quoteMark single :: written ++ [quoteMark single, '\n'] ++ (spaces k ++ body) =
      quoteMark single :: (written ++ quoteMark single :: '\n' :: (spaces k ++ body)) := by simp
  refine ⟨x, hbroken ▸ hnext, ?_⟩
  rw [hsource, fetchHere_quote single rfl]
  exact fetchQuoted_eq hscan hbroken hcolumn

theorem fetchHere_scalarLine {style : ScalarStyle} (h : ScalarLine (parent + 2) cs style written)
    (hcolumn : parent < m.column) (hk : k ≤ parent) (hbody : Dark body) (q : List Token) (n : Nat)
    (is : List Int) (ka : Bool) :
    ∃ (x : Scanned) (place : Option KeyPlace),
      NextLine k body (m.line + 1) x.broken x.source ∧
      (place = none ∨ place = scalarPlace ka (n + q.length) m) ∧
      fetchHere (outside ⟨written ++ (spaces k ++ body), m⟩ q n parent is ka none) =
        .ok (outside x.source (q ++ [⟨.scalar cs style, m, x.stop⟩]) n parent is x.broken place) := by
  cases h with
  | plain hallowed hne =>
    obtain ⟨x, hnext, hfetch⟩ := fetchHere_plainText hallowed hne hcolumn hk hbody q n is ka
    refine ⟨x, _, hnext, .inr rfl, ?_⟩
    rw [List.append_assoc]
    exact hfetch
  | single hallowed hnew =>
    obtain ⟨x, hnext, hfetch⟩ := fetchHere_quoted (laid_singleBody hallowed hnew
      (Nat.succ_pos (parent + 1))) hcolumn k body q n is ka
    exact ⟨x, _, hnext, .inr rfl, hfetch⟩
  | double =>
    obtain ⟨x, hnext, hfetch⟩ := fetchHere_quoted (laid_escapeChar cs) hcolumn k body q n is ka
    exact ⟨x, _, hnext, .inr rfl, hfetch⟩
  | literal hallowed hne =>
    obtain ⟨x, hscan, rfl, hbroken, hnext⟩ := scanBlock_text (m := m) hallowed hne hk hbody
    refine ⟨x, none, hbroken ▸ hnext, .inl rfl, ?_⟩
    rw [List.append_assoc, List.cons_append, List.cons_append, fetchHere_bar rfl rfl]
    exact fetchBlockScalar_eq hscan hbroken

end Scalars

section Keys

variable {n : Nat} {i : Int} {is : List Int} {word : List Char} {t : Token}

theorem fetchHere_key {q : List Token} (h : KeyWord word)
    (hrest : rest.head?.any isBlankOrBreak = true) :
    fetchHere (outside ⟨word ++ ':' :: rest, m⟩ q n i is true none) =
      .ok (outside ⟨':' :: rest, m.forward word.length⟩
        (q ++ [⟨.scalar word .plain, m, m.forward word.length⟩]) n i is false
        (some ⟨n + q.length, m, i == (m.column : Int)⟩)) := by
  have hscan := scanPlain_key h hrest i m
  obtain ⟨c, word, rfl⟩ := List.exists_cons_of_ne_nil h.ne_nil
  have hother : ∀ c ∈ keyChars, c ≠ '-' ∧ c ≠ '.' := forall_mem_of_all (by decide)
  obtain ⟨hdash, hdot⟩ := hother c (h.chars c List.mem_cons_self)
  have hflow : ∀ place, flow (outside ⟨c :: word ++ ':' :: rest, m⟩ q n i is true place) = false :=
    fun _ => rfl
  rw [fetchHere_plain rfl rfl (startsPlain_key h _) (Source.markerAt_of_ne hdash)
    (Source.markerAt_of_ne hdot)]
  simp only [fetchPlain, notePlace_outside, bind, Except.bind, hflow, hscan]
  rfl

theorem fetchValue_open {p : KeyPlace} (hp : p.number = n) (hi : i < p.mark.column) :
    fetchValue (outside ⟨':' :: rest, m⟩ [t] n i is false (some p)) =
      .ok (outside ⟨rest, m.forward 1⟩ [⟨.blockMappingStart, p.mark, p.mark⟩,
        ⟨.key, p.mark, p.mark⟩, t, ⟨.value, m, m.forward 1⟩] n p.mark.column (i :: is) false
        none) := by
  have hnumber : p.number - n = 0 := by omega
  have hopen : ∀ src q ka place, openBlock (outside src q n i is ka place) p.mark.column
      (some p.number) .blockMappingStart p.mark =
      insertAt (outside src q n p.mark.column (i :: is) ka place) p.number
        ⟨.blockMappingStart, p.mark, p.mark⟩ := by
    intro src q ka place
    rw [openBlock, if_pos]
    simpa [flow] using hi
  simp only [fetchValue, place?, insertAt, List.head?_cons, Option.join_some, hnumber,
    List.take_zero, List.drop_zero, List.nil_append]
  rw [hopen]
  simp only [insertAt, hnumber, List.take_zero, List.drop_zero, List.nil_append]
  rfl

theorem fetchValue_next {p : KeyPlace} (hp : p.number = n) (hi : i = p.mark.column) :
    fetchValue (outside ⟨':' :: rest, m⟩ [t] n i is false (some p)) =
      .ok (outside ⟨rest, m.forward 1⟩ [⟨.key, p.mark, p.mark⟩, t, ⟨.value, m, m.forward 1⟩] n i is
        false none) := by
  have hnumber : p.number - n = 0 := by omega
  have hopen : ∀ src q ka place, openBlock (outside src q n i is ka place) p.mark.column
      (some p.number) .blockMappingStart p.mark = outside src q n i is ka place := by
    intro src q ka place
    rw [openBlock, if_neg]
    simp [hi]
  simp only [fetchValue, place?, insertAt, List.head?_cons, Option.join_some, hnumber,
    List.take_zero, List.drop_zero, List.nil_append]
  rw [hopen]
  rfl

theorem fetchNext_colon {q : List Token} {p : KeyPlace}
    (hrest : rest.head?.any isBlankOrBreak = true) (hi : i ≤ m.column)
    (hstale : KeyPlace.isStale p m = false) :
    fetchNext (outside ⟨':' :: rest, m⟩ q n i is false (some p)) =
      fetchValue (outside ⟨':' :: rest, m⟩ q n i is false (some p)) := by
  have hfresh : Fresh (':' :: rest) := by
    rintro c ⟨⟩
    exact ⟨rfl, by decide, by decide⟩
  have hskip : skipBlank ((':' :: rest).length + 1) (outside ⟨':' :: rest, m⟩ q n i is false
      (some p)) = outside ⟨':' :: rest, m⟩ q n i is false (some p) := skipBlank_spaces (k := 0) hfresh
  rw [fetchNext_eq rfl hskip (dropStale_live hstale)]
  exact (congrArg fetchHere (closeTo_inside hi)).trans (fetchHere_colon rfl hrest)

end Keys

section Collections

variable {q : List Token} {n : Nat} {i : Int} {is : List Int}

theorem fetchHere_dash (hi : i = m.column) (rest : List Char) (q : List Token) (n : Nat)
    (is : List Int) :
    fetchHere (outside ⟨'-' :: ' ' :: rest, m⟩ q n i is true none) =
      .ok (outside ⟨' ' :: rest, m.forward 1⟩ (q ++ [⟨.blockEntry, m, m.forward 1⟩]) n i is true
        none) := by
  have hopen : openBlock (outside ⟨'-' :: ' ' :: rest, m⟩ q n i is true none) m.column none
      .blockSequenceStart m = outside ⟨'-' :: ' ' :: rest, m⟩ q n i is true none := by
    rw [openBlock, if_neg]
    simp [hi]
  rw [fetchHere_entry rfl]
  simp only [fetchBlockEntry, Bool.not_true, Bool.and_false, Bool.false_eq_true, if_false, mark,
    hopen]
  rfl

theorem fetchHere_end (hm : m.column = 0) :
    fetchHere (outside ⟨[], m⟩ q n 0 [-1] true none) =
      .ok (outside ⟨[], m⟩ (q ++ [⟨.blockEnd, m, m⟩, ⟨.streamEnd, m, m⟩]) n (-1) [] false none) := by
  have hcolumn : (m.column == 0) = true := beq_iff_eq.2 hm
  have hclose : closeTo (outside ⟨[], m⟩ q n 0 [-1] true none) (-1) =
      outside ⟨[], m⟩ (q ++ [⟨.blockEnd, m, m⟩]) n (-1) [] true none :=
    closeTo_outer (by decide) (by decide)
  simp only [fetchHere, fetchEnd, mark, hcolumn, if_true, hclose]
  exact congrArg Except.ok (congrArg (outside ⟨[], m⟩ · n (-1) [] false none)
    (List.append_assoc q [_] [_]))

theorem fetchHere_bracket :
    fetchHere (outside ⟨'[' :: rest, m⟩ q n i is false none) =
      .ok ⟨⟨rest, m.forward 1⟩, q ++ [⟨.flowSequenceStart, m, m.forward 1⟩], n, true, i, is, true,
        [none, none]⟩ := by
  rw [fetchHere_open rfl]
  rfl

theorem fetchNext_bracket (rest : List Char) (m : Mark) (q : List Token) (n : Nat) (i : Int)
    (is : List Int) :
    fetchNext ⟨⟨']' :: rest, m⟩, q, n, true, i, is, true, [none, none]⟩ =
      .ok (outside ⟨rest, m.forward 1⟩ (q ++ [⟨.flowSequenceEnd, m, m.forward 1⟩]) n i is false
        none) := by
  have hskip : skipBlank ((']' :: rest).length + 1)
      ⟨⟨']' :: rest, m⟩, q, n, true, i, is, true, [none, none]⟩ =
      ⟨⟨']' :: rest, m⟩, q, n, true, i, is, true, [none, none]⟩ := by
    have hmark : Source.startsWith ⟨']' :: rest, m⟩ '\uFEFF' = false := rfl
    rw [skipBlank]
    simp only [mark, hmark, Bool.and_false, Bool.false_eq_true, if_false]
    rfl
  rw [fetchNext_eq rfl hskip rfl, fetchHere_close rfl]
  rfl

end Collections

end Scanner

end EventPost.Yaml
