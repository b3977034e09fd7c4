import EventPost.Yaml.Document

/-!
The structure of a block, from its tokens to the items of its document. What the grammar makes of
tokens depends on their kinds only; the marks of the events and the items are those of the tokens.
-/

namespace EventPost.Yaml

/-- Where the grammar stands: the kinds of the tokens to come, the state, and the states to go back
to. -/
structure Stage where
  kinds : List TokenKind
  state : State
  pending : List State

namespace Grammar

variable {g g' g'' : Grammar} {es es' : List EventKind} {a b c : Stage} {ks : List TokenKind}
  {p : List State} {cs : List Char} {style : ScalarStyle}

/-- All tokens have come, and these are the ones left. -/
structure At (g : Grammar) (a : Stage) : Prop where
  problem : g.problem = none
  kinds : g.tokens.map (·.kind) = a.kinds
  state : g.state = a.state
  pending : g.pending = a.pending

/-- The grammar gives events of these kinds and goes on as `g'`. -/
def Emits (g : Grammar) (es : List EventKind) (g' : Grammar) : Prop :=
  ∃ evs : List (EventKind × Mark), evs.map (·.1) = es ∧
    ∀ fuel, g.run (evs.length + fuel) = (evs ++ (g'.run fuel).1, (g'.run fuel).2)

theorem Emits.trans (h : Emits g es g') (h' : Emits g' es' g'') : Emits g (es ++ es') g'' := by
  obtain ⟨evs, hes, hrun⟩ := h
  obtain ⟨evs', hes', hrun'⟩ := h'
  refine ⟨evs ++ evs', by rw [List.map_append, hes, hes'], fun fuel => ?_⟩
  rw [List.length_append, Nat.add_assoc, hrun, hrun', List.append_assoc]

theorem emits_step {e : EventKind} {m : Mark} (h : g.step = some (.ok (e, m, g'))) :
    Emits g [e] g' := by
  refine ⟨[(e, m)], rfl, fun fuel => ?_⟩
  rw [List.length_singleton, Nat.add_comm, run, h]
  rfl

def Reads (a : Stage) (es : List EventKind) (b : Stage) : Prop :=
  ∀ g : Grammar, g.At a → ∃ g', Emits g es g' ∧ g'.At b

theorem Reads.trans (h : Reads a es b) (h' : Reads b es' c) : Reads a (es ++ es') c := by
  intro g hg
  obtain ⟨g', hemits, hg'⟩ := h g hg
  obtain ⟨g'', hemits', hg''⟩ := h' g' hg'
  exact ⟨g'', hemits.trans hemits', hg''⟩

theorem reads_intro (h : ∀ ts opened handles, ts.map Token.kind = a.kinds →
      ∃ g', Emits ⟨ts, none, a.state, a.pending, opened, handles⟩ es g' ∧ g'.At b) :
    Reads a es b := by
  rintro ⟨ts, problem, state, pending, opened, handles⟩ ⟨hproblem, hkinds, hstate, hpending⟩
  obtain rfl : problem = none := hproblem
  obtain rfl : state = a.state := hstate
  obtain rfl : pending = a.pending := hpending
  exact h ts opened handles hkinds

theorem exists_token {ts : List Token} {kind : TokenKind} (h : ts.map Token.kind = kind :: ks) :
    ∃ start stop ts', ts = ⟨kind, start, stop⟩ :: ts' ∧ ts'.map Token.kind = ks := by
  obtain ⟨⟨_, start, stop⟩, ts', rfl, rfl, hts'⟩ := List.map_eq_cons_iff.1 h
  exact ⟨start, stop, ts', rfl, hts'⟩

def scalarEvent (cs : List Char) (style : ScalarStyle) : EventKind :=
  .scalar ⟨none, none, cs, style⟩

theorem reads_start : Reads ⟨.streamStart :: .blockMappingStart :: ks, .streamStart, []⟩
    [.streamStart, .documentStart, .mappingStart none none]
    ⟨.blockMappingStart :: ks, .blockKey true, [.documentEnd]⟩ := by
  refine reads_intro fun ts opened handles hkinds => ?_
  obtain ⟨_, _, _, rfl, hkinds₁⟩ := exists_token hkinds
  obtain ⟨_, _, _, rfl, hkinds₂⟩ := exists_token hkinds₁
  exact ⟨_, ((emits_step rfl).trans (emits_step rfl)).trans (emits_step rfl), rfl, hkinds₁, rfl, rfl⟩

theorem reads_firstKey : Reads
    ⟨.blockMappingStart :: .key :: .scalar cs style :: ks, .blockKey true, p⟩
    [scalarEvent cs style] ⟨ks, .blockValue, p⟩ := by
  refine reads_intro fun ts opened handles hkinds => ?_
  obtain ⟨_, _, _, rfl, hkinds₁⟩ := exists_token hkinds
  obtain ⟨_, _, _, rfl, hkinds₂⟩ := exists_token hkinds₁
  obtain ⟨_, _, _, rfl, hkinds₃⟩ := exists_token hkinds₂
  exact ⟨_, emits_step rfl, rfl, hkinds₃, rfl, rfl⟩

theorem reads_nextKey : Reads ⟨.key :: .scalar cs style :: ks, .blockKey false, p⟩
    [scalarEvent cs style] ⟨ks, .blockValue, p⟩ := by
  refine reads_intro fun ts opened handles hkinds => ?_
  obtain ⟨_, _, _, rfl, hkinds₁⟩ := exists_token hkinds
  obtain ⟨_, _, _, rfl, hkinds₂⟩ := exists_token hkinds₁
  exact ⟨_, emits_step rfl, rfl, hkinds₂, rfl, rfl⟩

theorem reads_scalar : Reads ⟨.value :: .scalar cs style :: ks, .blockValue, p⟩
    [scalarEvent cs style] ⟨ks, .blockKey false, p⟩ := by
  refine reads_intro fun ts opened handles hkinds => ?_
  obtain ⟨_, _, _, rfl, hkinds₁⟩ := exists_token hkinds
  obtain ⟨_, _, _, rfl, hkinds₂⟩ := exists_token hkinds₁
  exact ⟨_, emits_step rfl, rfl, hkinds₂, rfl, rfl⟩

theorem reads_inner : Reads ⟨.value :: .blockMappingStart :: ks, .blockValue, p⟩
    [.mappingStart none none] ⟨.blockMappingStart :: ks, .blockKey true, .blockKey false :: p⟩ := by
  refine reads_intro fun ts opened handles hkinds => ?_
  obtain ⟨_, _, _, rfl, hkinds₁⟩ := exists_token hkinds
  obtain ⟨_, _, _, rfl, hkinds₂⟩ := exists_token hkinds₁
  exact ⟨_, emits_step rfl, rfl, hkinds₁, rfl, rfl⟩

theorem reads_blockEnd {s : State} : Reads ⟨.blockEnd :: ks, .blockKey false, s :: p⟩
    [.mappingEnd] ⟨ks, s, p⟩ := by
  refine reads_intro fun ts opened handles hkinds => ?_
  obtain ⟨_, _, _, rfl, hkinds₁⟩ := exists_token hkinds
  exact ⟨_, emits_step rfl, rfl, hkinds₁, rfl, rfl⟩

theorem reads_brackets : Reads
    ⟨.value :: .flowSequenceStart :: .flowSequenceEnd :: ks, .blockValue, p⟩
    [.sequenceStart none none, .sequenceEnd] ⟨ks, .blockKey false, p⟩ := by
  refine reads_intro fun ts opened handles hkinds => ?_
  obtain ⟨_, _, _, rfl, hkinds₁⟩ := exists_token hkinds
  obtain ⟨_, _, _, rfl, hkinds₂⟩ := exists_token hkinds₁
  obtain ⟨_, _, _, rfl, hkinds₃⟩ := exists_token hkinds₂
  exact ⟨_, (emits_step rfl).trans (emits_step rfl), rfl, hkinds₃, rfl, rfl⟩

theorem reads_list : Reads ⟨.value :: .blockEntry :: ks, .blockValue, p⟩
    [.sequenceStart none none] ⟨.blockEntry :: ks, .indentlessEntry, .blockKey false :: p⟩ := by
  refine reads_intro fun ts opened handles hkinds => ?_
  obtain ⟨_, _, _, rfl, hkinds₁⟩ := exists_token hkinds
  obtain ⟨_, _, _, rfl, hkinds₂⟩ := exists_token hkinds₁
  exact ⟨_, emits_step rfl, rfl, hkinds₁, rfl, rfl⟩

theorem reads_item : Reads ⟨.blockEntry :: .scalar cs style :: ks, .indentlessEntry, p⟩
    [scalarEvent cs style] ⟨ks, .indentlessEntry, p⟩ := by
  refine reads_intro fun ts opened handles hkinds => ?_
  obtain ⟨_, _, _, rfl, hkinds₁⟩ := exists_token hkinds
  obtain ⟨_, _, _, rfl, hkinds₂⟩ := exists_token hkinds₁
  exact ⟨_, emits_step rfl, rfl, hkinds₂, rfl, rfl⟩

theorem reads_listEnd {s : State} : Reads ⟨.blockEnd :: ks, .indentlessEntry, s :: p⟩
    [.sequenceEnd] ⟨.blockEnd :: ks, s, p⟩ := by
  refine reads_intro fun ts opened handles hkinds => ?_
  obtain ⟨_, _, _, rfl, hkinds₁⟩ := exists_token hkinds
  exact ⟨_, emits_step rfl, rfl, hkinds, rfl, rfl⟩

theorem reads_end : Reads ⟨[.streamEnd], .documentEnd, []⟩ [.documentEnd, .streamEnd]
    ⟨[], .ended, []⟩ := by
  refine reads_intro fun ts opened handles hkinds => ?_
  obtain ⟨_, _, _, rfl, hkinds₁⟩ := exists_token hkinds
  obtain rfl := List.map_eq_nil_iff.1 hkinds₁
  exact ⟨_, (emits_step rfl).trans (emits_step rfl), rfl, rfl, rfl, rfl⟩

end Grammar

theorem events_of_reads {cs : List Char} {ts : List Token} {es : List EventKind}
    (htokens : tokens cs = (ts, none))
    (h : Grammar.Reads ⟨ts.map (·.kind), .streamStart, []⟩ es ⟨[], .ended, []⟩)
    (hlength : es.length ≤ 8 * ts.length + 16) :
    ∃ evs : List (EventKind × Mark), evs.map (·.1) = es ∧ events cs = (evs, none) := by
  obtain ⟨g, ⟨evs, hes, hrun⟩, hg⟩ := h ⟨ts, none, .streamStart, [], [], []⟩ ⟨rfl, rfl, rfl, rfl⟩
  refine ⟨evs, hes, ?_⟩
  have hend : ∀ fuel, g.run fuel = ([], none) := by
    intro fuel
    cases fuel with
    | zero => rfl
    | succ fuel => rw [Grammar.run, Grammar.step, hg.state]
  have hevs : evs.length ≤ 8 * ts.length + 16 := by
    rw [← hes, List.length_map] at hlength
    exact hlength
  rw [events, htokens]
  dsimp only
  rw [← Nat.add_sub_cancel' hevs, hrun, hend, List.append_nil]

def itemOf? : EventKind → Option Item
  | .scalar s => if s.anchor = none then some (.scalar s) else none
  | .sequenceStart none tag => some (.sequenceStart tag)
  | .sequenceEnd => some .sequenceEnd
  | .mappingStart none tag => some (.mappingStart tag)
  | .mappingEnd => some .mappingEnd
  | _ => none

theorem gather_item {problem : Option Problem} {first : Bool} {g : Gathering} {e : EventKind}
    {m : Mark} {item : Item} (h : itemOf? e = some item) (rest : List (EventKind × Mark)) :
    gather problem first g ((e, m) :: rest) = gather problem first (g.add item m) rest := by
  unfold itemOf? at h
  split at h
  · rename_i s
    split at h
    · rename_i hanchor
      cases h
      rw [gather, hanchor]
      rfl
    · cases h
  all_goals first
    | cases h; rfl
    | cases h

theorem gather_items {problem : Option Problem} {first : Bool} {evs : List (EventKind × Mark)}
    {items : List Item} (h : (evs.map (·.1)).map itemOf? = items.map some) (g : Gathering)
    (rest : List (EventKind × Mark)) :
    ∃ (its : Items) (count : Nat), its.map (·.1) = items ∧
      gather problem first g (evs ++ rest) =
        gather problem first { g with items := its.reverse ++ g.items, count := count } rest := by
  induction evs generalizing items g with
  | nil =>
    cases items with
    | nil => exact ⟨[], g.count, rfl, rfl⟩
    | cons item items => cases h
  | cons e evs ih =>
    obtain ⟨e, m⟩ := e
    cases items with
    | nil => cases h
    | cons item items =>
      obtain ⟨hitem, hitems⟩ := List.cons.inj h
      obtain ⟨its, count, hits, hgather⟩ := ih hitems (g.add item m)
      refine ⟨(item, m) :: its, count, by rw [List.map_cons, hits], ?_⟩
      rw [List.cons_append, gather_item hitem, hgather, List.reverse_cons, List.append_assoc]
      rfl

theorem load_of_events {cs : List Char} {evs : List (EventKind × Mark)} {es : List EventKind}
    {items : List Item} (hevents : events cs = (evs, none))
    (hes : evs.map (·.1) =
      .streamStart :: .documentStart :: (es ++ [.documentEnd, .streamEnd]))
    (hitems : es.map itemOf? = items.map some) :
    ∃ its : Items, its.map (·.1) = items ∧ load cs = ⟨⟨its, [], none⟩, false⟩ := by
  obtain ⟨⟨_, m₁⟩, evs₁, rfl, rfl, hes₁⟩ := List.map_eq_cons_iff.1 hes
  obtain ⟨⟨_, m₂⟩, evs₂, rfl, rfl, hes₂⟩ := List.map_eq_cons_iff.1 hes₁
  obtain ⟨inner, ends, rfl, hinner, hends⟩ := List.map_eq_append_iff.1 hes₂
  obtain ⟨⟨_, m₃⟩, evs₃, rfl, rfl, hes₃⟩ := List.map_eq_cons_iff.1 hends
  obtain ⟨⟨_, m₄⟩, rfl, rfl⟩ := List.map_eq_singleton_iff.1 hes₃
  rw [← hinner] at hitems
  obtain ⟨its, count, hits, hgather⟩ := @gather_items none true inner items hitems .start
    [(.documentEnd, m₃), (.streamEnd, m₄)]
  refine ⟨its, hits, ?_⟩
  have hfirst : gather none true .start ((.streamStart, m₁) :: (.documentStart, m₂) ::
      (inner ++ [(.documentEnd, m₃), (.streamEnd, m₄)])) =
      some (⟨its, [], none⟩, [(.streamEnd, m₄)]) := by
    rw [gather, gather, hgather, gather, Gathering.finish, List.reverse_append, List.reverse_reverse]
    rfl
  have hmore : gather none false .start [(.streamEnd, m₄)] = none := rfl
  rw [load, hevents]
  simp only [hfirst, hmore]
  rfl

end EventPost.Yaml
