import EventPost.Proofs.Yaml.Fetching
import EventPost.Yaml.Writer

/-!
Runs of the scanner over the lines of a block: what tokens it gives for a key, for a value, for an
item, and at the end of the text. A scalar behind a dash could still become a key when it is read,
so it waits for what comes next.
-/

namespace EventPost.Yaml

/-- A key that is written as it is, with its value on the same line or below. -/
structure WrittenKey (word : List Char) : Prop where
  keyWord : KeyWord word
  short : word.length ≤ 1024
  plain : styleOf word = .plain
  simple : isSimpleKey word = true

namespace Scanner

variable {s s' s'' : Scanner} {t : Token} {q : List Token} {n k fuel line parent : Nat} {i : Int}
  {is : List Int} {ka : Bool} {place : Option KeyPlace} {body cs written word rest : List Char}
  {src : Source} {m : Mark} {ks ks' : List TokenKind}

/-- The first token of the queue is certain, once `s` has given up the places that no key took. -/
structure Sure (s s' : Scanner) : Prop where
  queue : s.queue ≠ []
  drop : s.dropStale = .ok s'
  places : (s'.places.any fun p => p.any (·.number == s'.taken)) = false

/-- It takes so many fetches until the first token of the queue is certain. -/
inductive Fills : (fetches : Nat) → Scanner → Scanner → Prop
  | sure {s s' : Scanner} : Sure s s' → Fills 0 s s'
  | first {s s₁ s' : Scanner} {n : Nat} : s.queue = [] → s.fetchNext = .ok s₁ → Fills n s₁ s' →
    Fills (n + 1) s s'
  | further {s s₀ s₁ s' : Scanner} {n : Nat} : s.queue ≠ [] → s.dropStale = .ok s₀ →
    (s₀.places.any fun p => p.any (·.number == s₀.taken)) = true → s₀.fetchNext = .ok s₁ →
    Fills n s₁ s' → Fills (n + 1) s s'

theorem fill_of_fills (h : Fills n s s') (hfuel : n < fuel) : fill fuel s = .ok s' := by
  induction h generalizing fuel with
  | sure h =>
    cases fuel with
    | zero => exact absurd hfuel (Nat.not_lt_zero _)
    | succ fuel =>
      rw [fill, List.isEmpty_eq_false_iff.2 h.queue, h.drop]
      simp only [h.places, Bool.false_eq_true, if_false]
  | first hqueue hfetch _ ih =>
    cases fuel with
    | zero => exact absurd hfuel (Nat.not_lt_zero _)
    | succ fuel =>
      rw [fill, List.isEmpty_iff.2 hqueue, if_pos rfl, hfetch]
      exact ih (Nat.lt_of_succ_lt_succ hfuel)
  | further hqueue hdrop hplaces hfetch _ ih =>
    cases fuel with
    | zero => exact absurd hfuel (Nat.not_lt_zero _)
    | succ fuel =>
      rw [fill, List.isEmpty_eq_false_iff.2 hqueue, hdrop]
      simp only [hplaces, hfetch, Bool.false_eq_true, if_false, if_true]
      exact ih (Nat.lt_of_succ_lt_succ hfuel)

/-- The scanner gives tokens of these kinds and goes on as `s'`. -/
def Gives (s : Scanner) (ks : List TokenKind) (s' : Scanner) : Prop :=
  ∃ ts : List Token, ts.map (·.kind) = ks ∧
    ∀ fuel, s.run (ts.length + fuel) = (ts ++ (s'.run fuel).1, (s'.run fuel).2)

/-- The scanner gives tokens of these kinds and comes to the end. -/
def Finishes (s : Scanner) (ks : List TokenKind) : Prop :=
  ∃ ts : List Token, ts.map (·.kind) = ks ∧ ∀ fuel, s.run (ts.length + fuel) = (ts, none)

theorem Gives.trans (h : Gives s ks s') (h' : Gives s' ks' s'') : Gives s (ks ++ ks') s'' := by
  obtain ⟨ts, hks, hrun⟩ := h
  obtain ⟨ts', hks', hrun'⟩ := h'
  refine ⟨ts ++ ts', by rw [List.map_append, hks, hks'], fun fuel => ?_⟩
  rw [List.length_append, Nat.add_assoc, hrun, hrun', List.append_assoc]

theorem Gives.finishes (h : Gives s ks s') (h' : Finishes s' ks') : Finishes s (ks ++ ks') := by
  obtain ⟨ts, hks, hrun⟩ := h
  obtain ⟨ts', hks', hrun'⟩ := h'
  refine ⟨ts ++ ts', by rw [List.map_append, hks, hks'], fun fuel => ?_⟩
  rw [List.length_append, Nat.add_assoc, hrun, hrun']

theorem run_of_fills {places : List (Option KeyPlace)} {started : Bool} {fetches : Nat}
    (h : Fills fetches s ⟨src, t :: q, n, started, i, is, ka, places⟩) (hfetches : fetches < 3)
    (fuel : Nat) : s.run (fuel + 1) = if t.kind = .streamEnd then ([t], none) else
      (t :: (run fuel ⟨src, q, n + 1, started, i, is, ka, places⟩).1,
        (run fuel ⟨src, q, n + 1, started, i, is, ka, places⟩).2) := by
  rw [run, fill_of_fills h (Nat.lt_of_lt_of_le hfetches (Nat.le_add_left _ _))]

theorem gives_of_fills {places : List (Option KeyPlace)} {started : Bool} {fetches : Nat}
    (h : Fills fetches s ⟨src, t :: q, n, started, i, is, ka, places⟩) (hfetches : fetches < 3)
    (ht : t.kind ≠ .streamEnd) :
    Gives s [t.kind] ⟨src, q, n + 1, started, i, is, ka, places⟩ := by
  refine ⟨[t], rfl, fun fuel => ?_⟩
  rw [List.length_singleton, Nat.add_comm, run_of_fills h hfetches, if_neg ht]
  rfl

theorem run_eq_of_fills {fetches : Nat} (h : Fills fetches s s') (hfetches : fetches < 3)
    (hsure : Sure s' s') (fuel : Nat) : s.run fuel = s'.run fuel := by
  cases fuel with
  | zero => rfl
  | succ fuel =>
    rw [run, run, fill_of_fills h (Nat.lt_of_lt_of_le hfetches (Nat.le_add_left _ _)),
      fill_of_fills (.sure hsure) (Nat.succ_pos _)]

theorem sure_outside (hq : q ≠ []) :
    Sure (outside src q n i is ka none) (outside src q n i is ka none) :=
  ⟨hq, rfl, rfl⟩

theorem gives_queue (hq : ∀ t ∈ q, t.kind ≠ .streamEnd) :
    Gives (outside src q n i is ka none) (q.map (·.kind))
      (outside src [] (n + q.length) i is ka none) := by
  induction q generalizing n with
  | nil => exact ⟨[], rfl, fun fuel => by rw [List.length_nil, Nat.zero_add]; rfl⟩
  | cons t q ih =>
    have hfirst : Gives (outside src (t :: q) n i is ka none) [t.kind]
        (outside src q (n + 1) i is ka none) :=
      gives_of_fills (.sure (sure_outside (List.cons_ne_nil t q))) (Nat.succ_pos 2)
        (hq t List.mem_cons_self)
    have hrest := ih (n := n + 1) fun u hu => hq u (List.mem_cons_of_mem t hu)
    rw [Nat.add_assoc, Nat.add_comm 1] at hrest
    exact hfirst.trans hrest

theorem finishes_queue (hq : q.map (·.kind) = ks ++ [.streamEnd]) (hks : .streamEnd ∉ ks) :
    Finishes (outside src q n i is ka none) (ks ++ [.streamEnd]) := by
  induction ks generalizing q n with
  | nil =>
    obtain ⟨t, rfl, ht⟩ := List.map_eq_singleton_iff.1 hq
    refine ⟨[t], hq, fun fuel => ?_⟩
    rw [List.length_singleton, Nat.add_comm,
      run_of_fills (.sure (sure_outside (List.cons_ne_nil t []))) (Nat.succ_pos 2), if_pos ht]
  | cons k ks ih =>
    obtain ⟨t, q, rfl, rfl, hrest⟩ := List.map_eq_cons_iff.1 hq
    have hfirst : Gives (outside src (t :: q) n i is ka none) [t.kind]
        (outside src q (n + 1) i is ka none) :=
      gives_of_fills (.sure (sure_outside (List.cons_ne_nil t q))) (Nat.succ_pos 2)
        fun h => hks (h ▸ List.mem_cons_self)
    exact hfirst.finishes (ih hrest fun h => hks (List.mem_cons_of_mem _ h))

theorem Gives.of_run (h : Gives s' ks s'') (hrun : ∀ fuel, s.run fuel = s'.run fuel) :
    Gives s ks s'' := by
  obtain ⟨ts, hks, hts⟩ := h
  exact ⟨ts, hks, fun fuel => (hrun _).trans (hts fuel)⟩

theorem Gives.to_run (h : Gives s ks s') (hrun : ∀ fuel, s'.run fuel = s''.run fuel) :
    Gives s ks s'' := by
  obtain ⟨ts, hks, hts⟩ := h
  exact ⟨ts, hks, fun fuel => by rw [hts, hrun]⟩

theorem Finishes.of_run (h : Finishes s' ks) (hrun : ∀ fuel, s.run fuel = s'.run fuel) :
    Finishes s ks := by
  obtain ⟨ts, hks, hts⟩ := h
  exact ⟨ts, hks, fun fuel => (hrun _).trans (hts fuel)⟩

theorem gives_fetched {fetches : Nat} (h : Fills fetches s (outside src q n i is ka none))
    (hfetches : fetches < 3) (hne : q ≠ []) (hq : ∀ t ∈ q, t.kind ≠ .streamEnd) :
    Gives s (q.map (·.kind)) (outside src [] (n + q.length) i is ka none) :=
  (gives_queue hq).of_run (run_eq_of_fills h hfetches (sure_outside hne))

section Transitions

variable {P Q R : Scanner → Prop}

/-- From every state of the first kind to one of the second, giving tokens of these kinds. -/
def Moves (P : Scanner → Prop) (ks : List TokenKind) (Q : Scanner → Prop) : Prop :=
  ∀ s, P s → ∃ s', Gives s ks s' ∧ Q s'

def Ends (P : Scanner → Prop) (ks : List TokenKind) : Prop := ∀ s, P s → Finishes s ks

theorem Moves.trans (h : Moves P ks Q) (h' : Moves Q ks' R) : Moves P (ks ++ ks') R := by
  intro s hs
  obtain ⟨s', hgives, hs'⟩ := h s hs
  obtain ⟨s'', hgives', hs''⟩ := h' s' hs'
  exact ⟨s'', hgives.trans hgives', hs''⟩

theorem Moves.ends (h : Moves P ks Q) (h' : Ends Q ks') : Ends P (ks ++ ks') := by
  intro s hs
  obtain ⟨s', hgives, hs'⟩ := h s hs
  exact hgives.finishes (h' s' hs')

/-- The next line begins with `body` at the column `k`, and no key is waiting. -/
def Before (k : Nat) (body : List Char) (i : Int) (is : List Int) (s : Scanner) : Prop :=
  ∃ line ka src n, NextLine k body line ka src ∧ s = outside src [] n i is ka none

/-- Behind the colon of a key of the block in the column `k`. -/
def Behind (rest : List Char) (k : Nat) (is : List Int) (s : Scanner) : Prop :=
  ∃ m n, k ≤ m.column ∧ s = outside ⟨rest, m⟩ [] n k is false none

end Transitions

theorem no_place {P : KeyPlace → Prop} : ∀ p, none = some p → P p := fun _ h => by cases h

section Keys

variable {p : KeyPlace}

theorem fills_colon (hrest : rest.head?.any isBlankOrBreak = true) (hlength : word.length ≤ 1024)
    (hi : i ≤ m.column) (hp : p.number = n) (hmark : p.mark = m)
    (hvalue : fetchValue (outside ⟨':' :: rest, m.forward word.length⟩ [t] n i is false (some p)) =
      .ok s) (hsure : Sure s s) :
    Fills 1 (outside ⟨':' :: rest, m.forward word.length⟩ [t] n i is false (some p)) s := by
  have hstale := isStale_forward hlength hmark
  refine .further (List.cons_ne_nil _ _) (dropStale_live hstale) ?_
    ((fetchNext_colon hrest ?_ hstale).trans hvalue) (.sure hsure)
  · simp [hp]
  · exact Int.le_trans hi (Int.ofNat_le.2 (Nat.le_add_right _ _))

theorem moves_firstKey (hkey : WrittenKey word) (hi : i < k)
    (hrest : rest.head?.any isBlankOrBreak = true) :
    Moves (Before k (word ++ ':' :: rest) i is)
      [.blockMappingStart, .key, .scalar word .plain, .value] (Behind rest k (i :: is)) := by
  rintro _ ⟨line, ka, src, n, h, rfl⟩
  obtain ⟨m, rfl, hfetch⟩ := fetchNext_next h (fresh_key hkey.keyWord _) no_place [] n i is
  rw [closeTo_inside (Int.le_of_lt hi), fetchHere_key hkey.keyWord hrest] at hfetch
  have hfills := Fills.first rfl hfetch (fills_colon hrest hkey.short (Int.le_of_lt hi) rfl rfl
    (fetchValue_open rfl hi) (sure_outside (List.cons_ne_nil _ _)))
  exact ⟨_, gives_fetched hfills (by decide) (List.cons_ne_nil _ _) (by simp), _, _,
    Nat.le_trans (Nat.le_add_right _ _) (Nat.le_add_right _ 1), rfl⟩

theorem moves_nextKey (hkey : WrittenKey word)
    (hrest : rest.head?.any isBlankOrBreak = true) :
    Moves (Before k (word ++ ':' :: rest) k is) [.key, .scalar word .plain, .value]
      (Behind rest k is) := by
  rintro _ ⟨line, ka, src, n, h, rfl⟩
  obtain ⟨m, rfl, hfetch⟩ := fetchNext_next h (fresh_key hkey.keyWord _) no_place [] n k is
  rw [closeTo_inside (Int.le_refl _), fetchHere_key hkey.keyWord hrest] at hfetch
  have hfills := Fills.first rfl hfetch (fills_colon hrest hkey.short (Int.le_refl _) rfl rfl
    (fetchValue_next rfl rfl) (sure_outside (List.cons_ne_nil _ _)))
  exact ⟨_, gives_fetched hfills (by decide) (List.cons_ne_nil _ _) (by simp), _, _,
    Nat.le_trans (Nat.le_add_right _ _) (Nat.le_add_right _ 1), rfl⟩

theorem moves_outerKey (hkey : WrittenKey word) (hi : k < i)
    (hrest : rest.head?.any isBlankOrBreak = true) :
    Moves (Before k (word ++ ':' :: rest) i (k :: is))
      [.blockEnd, .key, .scalar word .plain, .value] (Behind rest k is) := by
  rintro _ ⟨line, ka, src, n, h, rfl⟩
  obtain ⟨m, rfl, hfetch⟩ := fetchNext_next h (fresh_key hkey.keyWord _) no_place [] n i (k :: is)
  rw [closeTo_outer hi (Int.le_refl _), fetchHere_key hkey.keyWord hrest] at hfetch
  -- The end of the block is certain before the colon is read.
  have hend := gives_of_fills (.first rfl hfetch (.sure ⟨List.cons_ne_nil _ _,
    dropStale_live (isStale_forward hkey.short rfl), by simp⟩)) (by decide) (by simp)
  have hvalue := @fetchValue_next rest (m.forward word.length) (n + 1) m.column is
    ⟨.scalar word .plain, m, m.forward word.length⟩ ⟨n + 1, m, (m.column : Int) == (m.column : Int)⟩
    rfl rfl
  have hfills := fills_colon hrest hkey.short (Int.le_refl _) rfl rfl hvalue
    (sure_outside (List.cons_ne_nil _ _))
  exact ⟨_, hend.trans (gives_fetched hfills (by decide) (List.cons_ne_nil _ _) (by simp)), _, _,
    Nat.le_trans (Nat.le_add_right _ _) (Nat.le_add_right _ 1), rfl⟩

theorem moves_block : Moves (Behind ('\n' :: (spaces k ++ body)) parent is) []
    (Before k body parent is) := by
  rintro _ ⟨m, n, -, rfl⟩
  exact ⟨_, ⟨[], rfl, fun fuel => by rw [List.length_nil, Nat.zero_add]; rfl⟩, m.line + 1, false, _,
    n, .ahead (Nat.le_refl _), rfl⟩

end Keys

section Values

theorem moves_text (cs : List Char) (hk : k ≤ parent) (hbody : Dark body) :
    Moves (Behind (' ' :: (scalarLine (parent + 2) cs ++ (spaces k ++ body))) parent is)
      [.scalar cs (styleOf cs)] (Before k body parent is) := by
  rintro _ ⟨m, n, hcolumn, rfl⟩
  have h := scalarLine_spec (parent + 2) cs
  have hspace := fetchNext_space (fresh_scalarLine h (spaces k ++ body)) (Int.ofNat_le.2 hcolumn)
    [] n is false
  obtain ⟨x, place, hnext, hplace, hfetch⟩ := fetchHere_scalarLine (m := m.forward 1) h
    (Nat.lt_succ_of_le hcolumn) hk hbody [] n is false
  have hnone : place = none := hplace.elim id id
  rw [hnone] at hfetch
  have hfills := Fills.first rfl (hspace.trans hfetch) (.sure (sure_outside (List.cons_ne_nil _ _)))
  exact ⟨_, gives_of_fills hfills (by decide) (by simp), _, _, _, _, hnext, rfl⟩

theorem moves_plainText (h : plainAllowed cs = true) (hne : cs ≠ []) (hk : k ≤ parent)
    (hbody : Dark body) :
    Moves (Behind (' ' :: (cs ++ '\n' :: (spaces k ++ body))) parent is) [.scalar cs .plain]
      (Before k body parent is) := by
  rintro _ ⟨m, n, hcolumn, rfl⟩
  have hspace := fetchNext_space (fresh_plain h hne ('\n' :: (spaces k ++ body)))
    (Int.ofNat_le.2 hcolumn) [] n is false
  obtain ⟨x, hnext, hfetch⟩ := fetchHere_plainText (m := m.forward 1) h hne
    (Nat.lt_succ_of_le hcolumn) hk hbody [] n is false
  have hfills := Fills.first rfl (hspace.trans hfetch) (.sure (sure_outside (List.cons_ne_nil _ _)))
  exact ⟨_, gives_of_fills hfills (by decide) (by simp), _, _, _, _, hnext, rfl⟩

theorem moves_brackets : Moves (Behind (' ' :: '[' :: ']' :: '\n' :: (spaces k ++ body)) parent is)
    [.flowSequenceStart, .flowSequenceEnd] (Before k body parent is) := by
  rintro _ ⟨m, n, hcolumn, rfl⟩
  have hspace := fetchNext_space
    (fresh_cons.2 ⟨rfl, by decide, by decide⟩ : Fresh ('[' :: ']' :: '\n' :: (spaces k ++ body)))
    (Int.ofNat_le.2 hcolumn) [] n is false
  have hopen := gives_of_fills (.first rfl (hspace.trans fetchHere_bracket)
    (.sure ⟨List.cons_ne_nil _ _, rfl, rfl⟩)) (by decide) (by simp)
  have hclose := gives_of_fills (.first rfl (fetchNext_bracket ('\n' :: (spaces k ++ body))
    ((m.forward 1).forward 1) [] (n + 1) parent is)
    (.sure (sure_outside (List.cons_ne_nil _ _)))) (by decide) (by simp)
  exact ⟨_, hopen.trans hclose, m.line + 1, false, ⟨'\n' :: (spaces k ++ body),
    ((m.forward 1).forward 1).forward 1⟩, n + 2, .ahead (Nat.le_refl _), rfl⟩

end Values

theorem ends_text : Ends (Before 0 [] 0 [-1]) [.blockEnd, .streamEnd] := by
  rintro _ ⟨line, ka, src, n, h, rfl⟩
  obtain ⟨m, hcolumn, hfetch⟩ := fetchNext_next h Fresh.nil no_place [] n 0 [-1]
  rw [closeTo_inside (show (0 : Int) ≤ ((0 : Nat) : Int) from Int.le_refl _),
    fetchHere_end hcolumn] at hfetch
  refine Finishes.of_run ?_ (run_eq_of_fills (.first rfl hfetch
    (.sure (sure_outside (List.cons_ne_nil _ _)))) (by decide) (sure_outside (List.cons_ne_nil _ _)))
  exact finishes_queue rfl (by simp : TokenKind.streamEnd ∉ [TokenKind.blockEnd])

section Items

theorem gives_waiting {P : Source → Prop} {i' : Int} {is' : List Int} {ka' : Bool}
    (hqueue : s.queue = []) (hfetch : s.fetchNext = .ok (outside src [t] n i is ka place))
    (ht : t.kind ≠ .streamEnd)
    (hplace : ∀ p, place = some p → p.number = n ∧ p.required = false ∧ p.mark.line < line)
    (h : NextLine k body line ka src) (hbody : Fresh body)
    (hnext : ∀ (m : Mark) (q : List Token) (n : Nat), m.column = k → ∃ ts src', ts ≠ [] ∧
      ts.map (·.kind) = ks ∧ P src' ∧
      ((outside ⟨body, m⟩ q n i is true none).closeTo k).fetchHere =
        .ok (outside src' (q ++ ts) n i' is' ka' none)) :
    ∃ ts src', ts ≠ [] ∧ ts.map (·.kind) = ks ∧ P src' ∧
      Gives s [t.kind] (outside src' ts (n + 1) i' is' ka' none) := by
  by_cases hlive : ∃ p, place = some p ∧ KeyPlace.isStale p src.mark = false
  · obtain ⟨p, rfl, hstale⟩ := hlive
    obtain ⟨hnumber, hp⟩ := hplace p rfl
    obtain ⟨m', hcolumn, hahead⟩ := fetchNext_next h hbody
      (fun p' hp' => (hplace p' hp').2) [t] n i is
    obtain ⟨ts, src', hne, hks, hsrc, hhere⟩ := hnext m' [t] n hcolumn
    refine ⟨ts, src', hne, hks, hsrc, gives_of_fills (.first hqueue hfetch
      (.further (List.cons_ne_nil _ _) (dropStale_live hstale) (by simp [hnumber])
        (hahead.trans hhere) (.sure (sure_outside (List.cons_ne_nil _ _))))) (by decide) ht⟩
  · have hgone : ∀ p, place = some p → p.required = false ∧ KeyPlace.isStale p src.mark = true := by
      refine fun p hp => ⟨(hplace p hp).2.1, ?_⟩
      rw [← Bool.not_eq_false]
      exact fun hstale => hlive ⟨p, hp, hstale⟩
    have hdrop := dropStale_gone hgone [t] n i is ka
    obtain ⟨m', hcolumn, hahead⟩ := fetchNext_next h hbody no_place [] (n + 1) i is
    obtain ⟨ts, src', hne, hks, hsrc, hhere⟩ := hnext m' [] (n + 1) hcolumn
    have hfirst : Gives s [t.kind] (outside src [] (n + 1) i is ka none) :=
      gives_of_fills (.first hqueue hfetch (.sure ⟨List.cons_ne_nil _ _, hdrop, rfl⟩)) (by decide) ht
    exact ⟨ts, src', hne, hks, hsrc, hfirst.to_run (run_eq_of_fills
      (.first rfl (hahead.trans hhere) (.sure (sure_outside hne))) (by decide) (sure_outside hne))⟩

def itemLines (css : List (List Char)) : List Char :=
  css.flatMap fun cs => '-' :: ' ' :: scalarLine 2 cs

def itemTokens (css : List (List Char)) : List TokenKind :=
  css.flatMap fun cs => [.blockEntry, .scalar cs (styleOf cs)]

theorem fresh_itemLines (css : List (List Char)) : Fresh (itemLines css) := by
  cases css with
  | nil => exact Fresh.nil
  | cons cs css => exact fresh_cons.2 ⟨rfl, by decide, by decide⟩

theorem gives_dash (ht : t.kind = .blockEntry) :
    Gives (outside src [t] n i is ka none) [.blockEntry] (outside src [] (n + 1) i is ka none) := by
  rw [← ht]
  exact gives_queue (by simp [ht])

theorem gives_item (cs : List Char) (css : List (List Char)) (m : Mark) (n : Nat)
    (P : Source → Prop) (ks : List TokenKind) (i' : Int) (is' : List Int) (ka' : Bool)
    (hnext : ∀ (m : Mark) (q : List Token) (n : Nat), m.column = 0 → ∃ ts src', ts ≠ [] ∧
      ts.map (·.kind) = ks ∧ P src' ∧
      fetchHere (outside ⟨itemLines css, m⟩ q n 0 [-1] true none) =
        .ok (outside src' (q ++ ts) n i' is' ka' none)) :
    ∃ ts src', ts ≠ [] ∧ ts.map (·.kind) = ks ∧ P src' ∧
      Gives (outside ⟨' ' :: (scalarLine 2 cs ++ itemLines css), m⟩ [] n 0 [-1] true none)
        [.scalar cs (styleOf cs)] (outside src' ts (n + 1) i' is' ka' none) := by
  have hline := scalarLine_spec 2 cs
  have hspace := fetchNext_space (fresh_scalarLine hline (itemLines css))
    (Int.ofNat_le.2 (Nat.zero_le m.column)) [] n [-1] true
  obtain ⟨x, place, hnextLine, hplace, hfetch⟩ := fetchHere_scalarLine hline
    (show 0 < (m.forward 1).column from Nat.succ_pos m.column) (Nat.le_refl 0)
    (fresh_itemLines css).dark [] n [-1] true
  have hgone : ∀ p, place = some p →
      p.number = n ∧ p.required = false ∧ p.mark.line < (m.forward 1).line + 1 := by
    rintro p rfl
    rcases hplace with hplace | hplace
    · cases hplace
    · cases hplace
      exact ⟨rfl, rfl, Nat.lt_succ_self _⟩
  obtain ⟨ts, src', hne, hks, hsrc, hgives⟩ := gives_waiting rfl (hspace.trans hfetch) (by simp)
    hgone hnextLine (fresh_itemLines css) fun m q n hm => by
      rw [closeTo_inside (Int.le_refl _)]
      exact hnext m q n hm
  exact ⟨ts, src', hne, hks, hsrc, hgives⟩

theorem finishes_items (css : List (List Char)) (cs : List Char) {t : Token}
    (ht : t.kind = .blockEntry) :
    Finishes (outside ⟨' ' :: (scalarLine 2 cs ++ itemLines css), m⟩ [t] n 0 [-1] true none)
      (itemTokens (cs :: css) ++ [.blockEnd, .streamEnd]) := by
  induction css generalizing n m cs t with
  | nil =>
    obtain ⟨ts, src', -, hks, -, hgives⟩ := gives_item cs [] m (n + 1) (fun _ => True)
      [.blockEnd, .streamEnd] (-1) [] false fun m q n hm =>
        ⟨[⟨.blockEnd, m, m⟩, ⟨.streamEnd, m, m⟩], ⟨[], m⟩, by simp, rfl, trivial, fetchHere_end hm⟩
    have hend : Finishes (outside src' ts (n + 1 + 1) (-1) [] false none) [.blockEnd, .streamEnd] :=
      finishes_queue hks (by simp : TokenKind.streamEnd ∉ [TokenKind.blockEnd])
    exact ((gives_dash ht).trans hgives).finishes hend
  | cons c css ih =>
    obtain ⟨ts, src', -, hks, ⟨m', rfl⟩, hgives⟩ := gives_item cs (c :: css) m (n + 1)
      (fun src => ∃ m, src = ⟨' ' :: (scalarLine 2 c ++ itemLines css), m⟩) [.blockEntry] 0 [-1] true
      fun m q n hm => ⟨[⟨.blockEntry, m, m.forward 1⟩], _, by simp, rfl, ⟨m.forward 1, rfl⟩,
        fetchHere_dash (by rw [hm]; rfl) _ q n [-1]⟩
    obtain ⟨t', rfl, ht'⟩ := List.map_eq_singleton_iff.1 hks
    exact ((gives_dash ht).trans hgives).finishes (ih c ht')

theorem ends_list (cs : List Char) (css : List (List Char)) :
    Ends (Before 0 (itemLines (cs :: css)) 0 [-1])
      (itemTokens (cs :: css) ++ [.blockEnd, .streamEnd]) := by
  rintro _ ⟨line, ka, src, n, h, rfl⟩
  obtain ⟨m, hcolumn, hfetch⟩ := fetchNext_next h (fresh_itemLines _) no_place [] n 0 [-1]
  rw [closeTo_inside (show (0 : Int) ≤ ((0 : Nat) : Int) from Int.le_refl _)] at hfetch
  have hzero : (0 : Int) = m.column := by rw [hcolumn]; rfl
  have hdash := fetchHere_dash hzero (scalarLine 2 cs ++ itemLines css) [] n [-1]
  have hitems := finishes_items (n := n) (m := m.forward 1) css cs
    (t := ⟨.blockEntry, m, m.forward 1⟩) rfl
  exact hitems.of_run (run_eq_of_fills (.first rfl (hfetch.trans hdash)
    (.sure (sure_outside (List.cons_ne_nil _ _)))) (by decide) (sure_outside (List.cons_ne_nil _ _)))

end Items

theorem finishes_ofText (h : Ends (Before 0 cs (-1) []) ks) :
    Finishes (ofText cs) (.streamStart :: ks) := by
  have hfetch : (ofText cs).fetchNext =
      .ok (outside ⟨cs, .start⟩ [⟨.streamStart, .start, .start⟩] 0 (-1) [] true none) := rfl
  have hstart := gives_of_fills (.first rfl hfetch (.sure (sure_outside (List.cons_ne_nil _ _))))
    (by decide) (by simp)
  exact hstart.finishes (h _ ⟨0, _, _, _, .reached rfl (Nat.le_refl _), rfl⟩)

end Scanner

theorem tokens_of_finishes {cs : List Char} {ks : List TokenKind}
    (h : Scanner.Finishes (.ofText cs) ks) (hallowed : firstForbidden? 0 cs = none)
    (hlength : ks.length ≤ 4 * cs.length + 8) :
    ∃ ts : List Token, ts.map (·.kind) = ks ∧ tokens cs = (ts, none) := by
  obtain ⟨ts, hks, hrun⟩ := h
  refine ⟨ts, hks, ?_⟩
  have hts : ts.length ≤ 4 * cs.length + 8 := by
    rw [← hks, List.length_map] at hlength
    exact hlength
  rw [tokens, hallowed]
  dsimp only
  rw [← Nat.add_sub_cancel' hts]
  exact hrun _

end EventPost.Yaml
