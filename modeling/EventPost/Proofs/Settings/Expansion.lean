import Mathlib.Data.List.Forall2
import Mathlib.Data.List.TakeWhile
import EventPost.CommandLine.Entry
import EventPost.Proofs.Text.Blank
import EventPost.Settings.Expansion

/-!
Paths and their references. How a reference is written is said apart from the reader, and a path falls
into characters and references in one way. Either each piece is replaced, in its place and by a text
that is taken as it is, or the path stays as it was; only the path's own tilde gives way to the home
directory.
-/

namespace EventPost.Settings

def fallbackSign : List Char := [':', '-']

/-- What a pair of braces holds: a name, and what follows the first sign of a fallback. A sign with
no name before it is part of the name. -/
inductive Braced : List Char → List Char → Option (List Char) → Prop
  | named {name text : List Char} : name ≠ [] → ¬fallbackSign <:+: name ++ [':'] →
    Braced (name ++ ':' :: '-' :: text) name (some text)
  | nameless {text : List Char} : Braced (':' :: '-' :: text) (':' :: '-' :: text) none
  | plain {inner : List Char} : ¬fallbackSign <:+: inner → Braced inner inner none

def Unled (rest : List Char) : Prop :=
  ∀ c, rest.head? = some c → isNameChar c = false ∧ c ≠ '$' ∧ (c = '{' → '}' ∉ rest)

/-- The characters and the references of a path, from left to right. -/
inductive References : List Char → List Piece → Prop
  | done : References [] []
  | literal {c : Char} {rest : List Char} {ps : List Piece} : c ≠ '$' → References rest ps →
    References (c :: rest) (.literal c :: ps)
  | bare {name rest : List Char} {ps : List Piece} : name ≠ [] →
    (∀ c ∈ name, isNameChar c = true) → (∀ c, rest.head? = some c → isNameChar c = false) →
    References rest ps → References ('$' :: (name ++ rest)) (.variable name none :: ps)
  | braced {inner name rest : List Char} {fallback : Option (List Char)} {ps : List Piece} :
    '}' ∉ inner → Braced inner name fallback → References rest ps →
    References ('$' :: '{' :: (inner ++ '}' :: rest)) (.variable name fallback :: ps)
  | doubled {rest : List Char} {ps : List Piece} : References rest ps →
    References ('$' :: '$' :: rest) (.literal '$' :: ps)
  | alone {rest : List Char} {ps : List Piece} : Unled rest → References rest ps →
    References ('$' :: rest) (.literal '$' :: ps)

/-- The text that takes a piece's place: a value as it is, or what to fall back on without one. -/
inductive Replaces (lookup : String → Option String) : Piece → List Char → Prop
  | literal {c : Char} : Replaces lookup (.literal c) [c]
  | value {name : List Char} {fallback : Option (List Char)} {s : String} :
    lookup (String.ofList name) = some s → Replaces lookup (.variable name fallback) s.toList
  | fallback {name text : List Char} :
    lookup (String.ofList name) = none → Replaces lookup (.variable name (some text)) text

/-- The variable is not set, and there is nothing to fall back on. -/
def Lacks (lookup : String → Option String) (p : Piece) : Prop :=
  ∃ name, p = .variable name none ∧ lookup (String.ofList name) = none

/-- A tilde at the start, alone or before a slash, gives way to the home directory. -/
inductive Homed (home : String) : List Char → List Char → Prop
  | tilde {rest : List Char} : rest = [] ∨ rest.head? = some '/' →
    Homed home ('~' :: rest) (home.toList ++ rest)
  | other {cs : List Char} : (∀ rest, cs = '~' :: rest → rest ≠ [] ∧ rest.head? ≠ some '/') →
    Homed home cs cs

theorem closeBrace?_eq_splitOnce (cs : List Char) :
    closeBrace? cs = CommandLine.splitOnce '}' cs := by
  induction cs with
  | nil => rfl
  | cons c cs ih => rw [closeBrace?, CommandLine.splitOnce, ih]

theorem closeBrace?_eq_some {cs inner rest : List Char} :
    closeBrace? cs = some (inner, rest) ↔ cs = inner ++ '}' :: rest ∧ '}' ∉ inner := by
  rw [closeBrace?_eq_splitOnce, CommandLine.splitOnce_eq_some_iff]

theorem closeBrace?_eq_none {cs : List Char} : closeBrace? cs = none ↔ '}' ∉ cs := by
  rw [closeBrace?_eq_splitOnce, CommandLine.splitOnce_eq_none]

theorem splitFallback?_eq_none {cs : List Char} :
    splitFallback? cs = none ↔ ¬fallbackSign <:+: cs := by
  fun_induction splitFallback? cs with
  | case1 cs =>
    have hsign : fallbackSign <:+: ':' :: '-' :: cs := ⟨[], cs, rfl⟩
    simp [hsign]
  | case2 c cs hnot ih =>
    have hlead : ¬fallbackSign <+: c :: cs := by
      rintro ⟨rest, hrest⟩
      obtain ⟨hc, hcs⟩ := List.cons.inj hrest
      exact hnot rest hc.symm hcs.symm
    rw [Option.map_eq_none_iff, ih, List.infix_cons_iff, not_or]
    exact ⟨fun h => ⟨hlead, h⟩, fun h => h.2⟩
  | case3 => simp [fallbackSign]

theorem splitFallback?_first {name : List Char} (h : ¬fallbackSign <:+: name ++ [':'])
    (text : List Char) : splitFallback? (name ++ ':' :: '-' :: text) = some (name, text) := by
  induction name with
  | nil => rfl
  | cons c name ih =>
    rw [List.cons_append, List.infix_cons_iff, not_or] at h
    have hnot : ∀ rest, c = ':' → name ++ ':' :: '-' :: text = '-' :: rest → False := by
      rintro rest rfl hrest
      cases name with
      | nil => exact absurd (List.cons.inj hrest).1 (by decide)
      | cons d name =>
        obtain rfl := (List.cons.inj hrest).1
        exact h.1 ⟨name ++ [':'], rfl⟩
    rw [List.cons_append, splitFallback?.eq_2 _ _ hnot, ih h.2]
    rfl

theorem Braced.piece {inner name : List Char} {fallback : Option (List Char)}
    (h : Braced inner name fallback) : Settings.braced inner = .variable name fallback := by
  cases h with
  | @named _ text hname hfirst =>
    obtain ⟨c, name, rfl⟩ := List.exists_cons_of_ne_nil hname
    rw [Settings.braced, splitFallback?_first hfirst]
  | nameless => rfl
  | plain hnone => rw [Settings.braced, splitFallback?_eq_none.2 hnone]

theorem splitFallback?_eq_some {cs name text : List Char} :
    splitFallback? cs = some (name, text) ↔
      cs = name ++ ':' :: '-' :: text ∧ ¬fallbackSign <:+: name ++ [':'] := by
  constructor
  · intro h
    fun_induction splitFallback? cs generalizing name with
    | case1 cs =>
      obtain ⟨rfl, rfl⟩ := Prod.mk.inj (Option.some.inj h)
      exact ⟨rfl, by decide⟩
    | case2 c cs hnot ih =>
      obtain ⟨⟨name, text⟩, hsplit, heq⟩ := Option.map_eq_some_iff.1 h
      obtain ⟨rfl, rfl⟩ := Prod.mk.inj heq
      obtain ⟨rfl, hfirst⟩ := ih hsplit
      refine ⟨rfl, fun hsign => ?_⟩
      rcases List.infix_cons_iff.1 hsign with hlead | hinner
      · obtain ⟨rest, hrest⟩ := hlead
        obtain ⟨rfl, hname⟩ := List.cons.inj hrest
        cases name with
        | nil => exact absurd (List.cons.inj hname).1 (by decide)
        | cons d name =>
          obtain rfl := (List.cons.inj hname).1
          exact hnot _ rfl rfl
      · exact hfirst hinner
    | case3 => cases h
  · rintro ⟨rfl, hfirst⟩
    exact splitFallback?_first hfirst text

theorem exists_braced (inner : List Char) : ∃ name fallback, Braced inner name fallback := by
  cases hsplit : splitFallback? inner with
  | none => exact ⟨inner, none, .plain (splitFallback?_eq_none.1 hsplit)⟩
  | some parts =>
    obtain ⟨name, text⟩ := parts
    obtain ⟨rfl, hfirst⟩ := splitFallback?_eq_some.1 hsplit
    cases name with
    | nil => exact ⟨_, none, .nameless⟩
    | cons c name => exact ⟨c :: name, some text, .named (List.cons_ne_nil c name) hfirst⟩

theorem isNameChar_marks : isNameChar '{' = false ∧ isNameChar '$' = false := by decide

theorem unled_cons {c : Char} {rest : List Char} (hname : isNameChar c = false) (hsign : c ≠ '$')
    (hbrace : c = '{' → '}' ∉ c :: rest) : Unled (c :: rest) := by
  intro d hd
  obtain rfl := Option.some.inj hd
  exact ⟨hname, hsign, hbrace⟩

/-- What is found in a path is how the path is written. -/
theorem references_pieces (cs : List Char) : References cs (pieces cs) := by
  fun_induction pieces cs with
  | case1 => exact .done
  | case2 c cs hc ih => exact .literal hc ih
  | case3 c hc =>
    obtain rfl := Decidable.not_not.1 hc
    exact .alone (fun c hc => nomatch hc) .done
  | case4 c hc ds hopen ih =>
    obtain rfl := Decidable.not_not.1 hc
    refine .alone (unled_cons isNameChar_marks.1 (by decide) fun _ hclose => ?_) ih
    exact closeBrace?_eq_none.1 hopen ((List.mem_cons.1 hclose).resolve_left (by decide))
  | case5 c hc ds inner rest hclose ih =>
    obtain rfl := Decidable.not_not.1 hc
    obtain ⟨rfl, hinner⟩ := closeBrace?_eq_some.1 hclose
    obtain ⟨name, fallback, hbraced⟩ := exists_braced inner
    rw [hbraced.piece]
    exact .braced hinner hbraced ih
  | case6 c hc d ds _ hd ih =>
    obtain rfl := Decidable.not_not.1 hc
    have hname : ∀ e ∈ d :: ds.takeWhile isNameChar, isNameChar e = true :=
      List.forall_mem_cons.2 ⟨hd, fun _ h => List.mem_takeWhile_imp h⟩
    have hend : ∀ e, (ds.dropWhile isNameChar).head? = some e → isNameChar e = false := by
      intro e he
      have hhead := List.head?_dropWhile_not isNameChar ds
      rwa [he] at hhead
    have hbare := References.bare (List.cons_ne_nil d _) hname hend ih
    rwa [List.cons_append, List.takeWhile_append_dropWhile] at hbare
  | case7 c hc ds _ _ ih =>
    obtain rfl := Decidable.not_not.1 hc
    exact .doubled ih
  | case8 c hc d ds hbrace hname hsign ih =>
    obtain rfl := Decidable.not_not.1 hc
    exact .alone (unled_cons (eq_false_of_ne_true hname) hsign (absurd · hbrace)) ih

theorem pieces_bare {c : Char} (hc : isNameChar c = true) (rest : List Char) :
    pieces ('$' :: c :: rest) = .variable (c :: rest.takeWhile isNameChar) none ::
      pieces (rest.dropWhile isNameChar) := by
  have hbrace : c ≠ '{' := by
    rintro rfl
    exact absurd hc (Bool.eq_false_iff.1 isNameChar_marks.1)
  rw [pieces.eq_def]
  simp only [ne_eq, not_true_eq_false, if_false, hbrace, hc, if_true]

theorem pieces_braced {cs inner rest : List Char} (h : closeBrace? cs = some (inner, rest)) :
    pieces ('$' :: '{' :: cs) = braced inner :: pieces rest := by
  rw [pieces.eq_def]
  simp only [ne_eq, not_true_eq_false, if_false, if_true]
  split
  · simp_all
  · simp_all

theorem pieces_doubled (rest : List Char) : pieces ('$' :: '$' :: rest) = .literal '$' :: pieces rest := by
  rw [pieces.eq_def]
  simp [isNameChar_marks.2]

theorem pieces_alone {rest : List Char} (h : Unled rest) :
    pieces ('$' :: rest) = .literal '$' :: pieces rest := by
  cases rest with
  | nil => rw [pieces.eq_def, pieces.eq_def]; simp
  | cons c rest =>
    obtain ⟨hname, hsign, hbrace⟩ := h c rfl
    rw [pieces.eq_def]
    by_cases hc : c = '{'
    · subst hc
      have hopen : closeBrace? rest = none :=
        closeBrace?_eq_none.2 fun hclose => hbrace rfl (List.mem_cons_of_mem _ hclose)
      simp only [ne_eq, not_true_eq_false, if_false, if_true]
      split
      · rfl
      · simp_all
    · simp [hc, hname, hsign]

theorem References.pieces_eq {cs : List Char} {ps : List Piece} (h : References cs ps) :
    pieces cs = ps := by
  induction h with
  | done => rw [pieces]
  | literal hc _ ih => rw [pieces.eq_def]; simp only [hc, ih, ne_eq, not_false_eq_true, if_true]
  | @bare name rest ps hne hname hend _ ih =>
    obtain ⟨c, name, rfl⟩ := List.exists_cons_of_ne_nil hne
    obtain ⟨hc, hname⟩ := List.forall_mem_cons.1 hname
    have hdrop : rest.dropWhile isNameChar = rest := Text.dropWhile_of_head hend
    have htake : rest.takeWhile isNameChar = [] := by
      have hsplit := List.takeWhile_append_dropWhile (p := isNameChar) (l := rest)
      rw [hdrop] at hsplit
      exact List.append_left_eq_self.1 hsplit
    rw [List.cons_append, pieces_bare hc, List.takeWhile_append_of_pos hname,
      List.dropWhile_append_of_pos hname, hdrop, htake, List.append_nil, ih]
  | @braced inner name rest fallback ps hinner hbraced _ ih =>
    rw [pieces_braced (closeBrace?_eq_some.2 ⟨rfl, hinner⟩), hbraced.piece, ih]
  | doubled _ ih => rw [pieces_doubled, ih]
  | alone hunled _ ih => rw [pieces_alone hunled, ih]

variable {lookup : String → Option String} {cs : List Char}

theorem expand?_eq_some {p : Piece} {text : List Char} :
    p.expand? lookup = some text ↔ Replaces lookup p text := by
  constructor
  · intro h
    rcases p with c | ⟨name, fallback⟩
    · obtain rfl := Option.some.inj h
      exact .literal
    · cases hvalue : lookup (String.ofList name) with
      | some s =>
        simp only [Piece.expand?, hvalue, Option.some.injEq] at h
        exact h ▸ .value hvalue
      | none =>
        simp only [Piece.expand?, hvalue] at h
        exact h ▸ .fallback hvalue
  · intro h
    cases h with
    | literal => rfl
    | value h => simp only [Piece.expand?, h]
    | fallback h => simp only [Piece.expand?, h]

theorem expand?_eq_none {p : Piece} : p.expand? lookup = none ↔ Lacks lookup p := by
  rcases p with c | ⟨name, fallback⟩
  · simp [Piece.expand?, Lacks]
  · cases hvalue : lookup (String.ofList name) <;>
      simp +contextual [Piece.expand?, Lacks, hvalue]

theorem mapM_eq_some {ps : List Piece} {texts : List (List Char)} :
    ps.mapM (Piece.expand? lookup) = some texts ↔ List.Forall₂ (Replaces lookup) ps texts := by
  induction ps generalizing texts with
  | nil => simp [eq_comm]
  | cons p ps ih =>
    rw [List.mapM_cons, Option.bind_eq_bind, Option.bind_eq_some_iff, List.forall₂_cons_left_iff]
    simp only [Option.bind_eq_bind, Option.bind_eq_some_iff, Option.pure_def, Option.some.injEq,
      expand?_eq_some, ih, eq_comm (b := texts), exists_and_left]

theorem mapM_eq_none {ps : List Piece} :
    ps.mapM (Piece.expand? lookup) = none ↔ ∃ p ∈ ps, Lacks lookup p := by
  induction ps with
  | nil => simp
  | cons p ps ih =>
    rw [List.mapM_cons, List.exists_mem_cons_iff, ← expand?_eq_none, ← ih]
    cases p.expand? lookup <;> cases ps.mapM (Piece.expand? lookup) <;> simp

theorem expandVariables?_eq_some {out : List Char} : expandVariables? lookup cs = some out ↔
    ∃ texts, List.Forall₂ (Replaces lookup) (pieces cs) texts ∧ texts.flatten = out := by
  simp only [expandVariables?, Option.map_eq_some_iff, mapM_eq_some]

theorem expandVariables?_eq_none :
    expandVariables? lookup cs = none ↔ ∃ p ∈ pieces cs, Lacks lookup p := by
  rw [expandVariables?, Option.map_eq_none_iff, mapM_eq_none]

theorem references_literals (h : '$' ∉ cs) : References cs (cs.map .literal) := by
  induction cs with
  | nil => exact .done
  | cons c cs ih =>
    rw [List.mem_cons, not_or] at h
    exact .literal (Ne.symm h.1) (ih h.2)

theorem expandVariables?_literals (h : '$' ∉ cs) : expandVariables? lookup cs = some cs := by
  rw [expandVariables?_eq_some, (references_literals h).pieces_eq]
  refine ⟨cs.map fun c => [c], ?_, List.flatMap_singleton' cs⟩
  rw [List.forall₂_map_left_iff, List.forall₂_map_right_iff, List.forall₂_same]
  exact fun _ _ => .literal

theorem homed_expandTilde (home : String) (cs : List Char) :
    Homed home cs (expandTilde (some home) cs) := by
  unfold expandTilde
  split
  · rename_i rest
    split
    · rename_i hlead
      exact .tilde (hlead.imp List.isEmpty_iff.1 id)
    · rename_i hlead
      rw [not_or] at hlead
      refine .other fun rest' heq => ?_
      obtain rfl := (List.cons.inj heq).2
      exact ⟨fun hnil => hlead.1 (List.isEmpty_iff.2 hnil), hlead.2⟩
  · rename_i hnot
    exact .other fun rest heq => absurd heq (hnot rest)

theorem Homed.of_head {home : String} {cs out : List Char} (h : Homed home cs out)
    (hhead : cs.head? ≠ some '~') : out = cs := by
  cases h with
  | tilde => exact absurd rfl hhead
  | other => rfl

theorem expandChars_of_some {home : String} {out : List Char}
    (h : expandVariables? lookup cs = some out) :
    (cs.head? = some '~' → Homed home out (expandChars lookup (some home) cs)) ∧
      (cs.head? ≠ some '~' → expandChars lookup (some home) cs = out) := by
  simp only [expandChars, h]
  refine ⟨fun hhead => ?_, fun hhead => ?_⟩
  · rw [if_neg fun hnot => hnot.1 hhead]
    exact homed_expandTilde home out
  · split
    · rfl
    · rename_i hnot
      exact (homed_expandTilde home out).of_head fun hout => hnot ⟨hhead, hout⟩

theorem expandVariables?_congr {lookup' : String → Option String}
    (h : ∀ name fallback, .variable name fallback ∈ pieces cs →
      lookup' (String.ofList name) = lookup (String.ofList name)) :
    expandVariables? lookup' cs = expandVariables? lookup cs := by
  have hpieces : ∀ ps : List Piece, (∀ p ∈ ps, p.expand? lookup' = p.expand? lookup) →
      ps.mapM (Piece.expand? lookup') = ps.mapM (Piece.expand? lookup) := by
    intro ps hps
    induction ps with
    | nil => rfl
    | cons p ps ih =>
      rw [List.mapM_cons, List.mapM_cons, hps p List.mem_cons_self,
        ih fun q hq => hps q (List.mem_cons_of_mem p hq)]
  rw [expandVariables?, expandVariables?, hpieces]
  intro p hp
  rcases p with c | ⟨name, fallback⟩
  · rfl
  · simp only [Piece.expand?, h name fallback hp]

/-- A path expands as a whole or not at all. Its references are replaced where they stand, each by a
text in which nothing is looked for any more: only the variables that the path itself names matter,
and only a tilde that the path itself begins with stands for the home directory. -/
theorem expand_once {env : Environment} {home : String} (hhome : env.home? = some home)
    (path : String) :
    ('$' ∉ path.toList → path.toList.head? ≠ some '~' → expand env path = path) ∧
    ∃ ps, References path.toList ps ∧ (∀ qs, References path.toList qs → qs = ps) ∧
      ((∃ p ∈ ps, Lacks env.get? p) → expand env path = path) ∧
      ((∀ p ∈ ps, ¬Lacks env.get? p) → ∃ texts,
        List.Forall₂ (Replaces env.get?) ps texts ∧
        (path.toList.head? = some '~' → Homed home texts.flatten (expand env path).toList) ∧
        (path.toList.head? ≠ some '~' → (expand env path).toList = texts.flatten)) ∧
      ∀ env' : Environment, env'.home? = some home →
        (∀ name fallback, .variable name fallback ∈ ps →
          env'.get? (String.ofList name) = env.get? (String.ofList name)) →
        expand env' path = expand env path := by
  refine ⟨fun hsign hhead => ?_, pieces path.toList, references_pieces _,
    fun qs hqs => hqs.pieces_eq.symm, fun hlacks => ?_, fun hfull => ?_, fun env' hhome' hsame => ?_⟩
  · rw [expand, hhome, (expandChars_of_some (expandVariables?_literals hsign)).2 hhead,
      String.ofList_toList]
  · rw [expand, expandChars, expandVariables?_eq_none.2 hlacks]
    exact String.ofList_toList
  · cases hout : expandVariables? env.get? path.toList with
    | none =>
      obtain ⟨p, hp, hlacks⟩ := expandVariables?_eq_none.1 hout
      exact absurd hlacks (hfull p hp)
    | some out =>
      obtain ⟨texts, htexts, rfl⟩ := expandVariables?_eq_some.1 hout
      refine ⟨texts, htexts, ?_⟩
      rw [expand, String.toList_ofList, hhome]
      exact expandChars_of_some hout
  · rw [expand, expand, expandChars, expandChars, expandVariables?_congr hsame, hhome, hhome']

/-- A sign in a value is not followed, nor is one in a text to fall back on. -/
theorem expand_once_nested :
    let env : Environment := [("HOME", "/root"), ("A", "$B"), ("B", "~")]
    let env' : Environment := [("HOME", "/root"), ("A", "$B"), ("B", "/etc")]
    let path := "~/$A${C:-$B}"
    env.home? = some "/root" ∧ expand env path = "/root/$B$B" ∧
      expand env' path = expand env path := by
  intro env env' path
  have hhome : env.home? = some "/root" := by decide +kernel
  have hhome' : env'.home? = some "/root" := by decide +kernel
  have hpieces : pieces path.toList = [.literal '~', .literal '/', .variable ['A'] none,
      .variable ['C'] (some ['$', 'B'])] := by decide +kernel
  obtain ⟨-, ps, hps, -, -, -, hsame⟩ := expand_once hhome path
  rw [← hps.pieces_eq, hpieces] at hsame
  refine ⟨hhome, by decide +kernel, hsame env' hhome' fun name fallback hmem => ?_⟩
  simp only [List.mem_cons, reduceCtorEq, Piece.variable.injEq, List.not_mem_nil, or_false,
    false_or] at hmem
  rcases hmem with ⟨rfl, -⟩ | ⟨rfl, -⟩
  · decide +kernel
  · decide +kernel

end EventPost.Settings
