import EventPost.Proofs.Json.Field

/-!
A text falls into its parts in one way. Where a value ends is settled by its bytes, so the entries
between two brackets can be told apart one after the other, and an object has one list of members.
-/

namespace EventPost.Json

open Text (Bytes bytesOf)

def Open.Part (o : Open) (text : Bytes) : Prop := ∃ value, o.Entry text value ∧ Value IsNumber value

theorem Open.Part.solid {o : Open} {text : Bytes} (h : o.Part text) : Solid text := by
  obtain ⟨value, hentry, hvalue⟩ := h
  exact hentry.solid hvalue.solid

theorem append_cancel {text text' r r' : Bytes} (h : text ++ r = text' ++ r') (hr : r = r') :
    text = text' := by
  subst hr
  exact List.append_cancel_right h

theorem Open.Part.cut {o : Open} {text text' r r' : Bytes} (h : o.Part text) (h' : o.Part text')
    (hr : Stops r) (hr' : Stops r') (heq : text ++ r = text' ++ r') : text = text' ∧ r = r' := by
  obtain ⟨value, hentry, hvalue⟩ := h
  obtain ⟨value', hentry', hvalue'⟩ := h'
  obtain ⟨ws, hws, hbefore⟩ := Open.beforeValue_entry hentry Blanks.nil
  obtain ⟨ws', hws', hbefore'⟩ := Open.beforeValue_entry hentry' Blanks.nil
  have hsame := hbefore r
  rw [heq, hbefore' r'] at hsame
  have hskip : skipValue (ws ++ (value ++ r)) = .ok r :=
    (skipValue_eq_ok hr).2 ⟨ws, value, hws, hvalue, rfl⟩
  rw [← Except.ok.inj hsame, (skipValue_eq_ok hr').2 ⟨ws', value', hws', hvalue', rfl⟩] at hskip
  have hrest := (Except.ok.inj hskip).symm
  exact ⟨append_cancel heq hrest, hrest⟩

theorem Entries.unique {o : Open} {first : Bool} {body body' rest rest' : Bytes}
    {texts texts' : List Bytes} (h : Entries first body texts) (h' : Entries first body' texts')
    (hp : ∀ text ∈ texts, o.Part text) (hp' : ∀ text ∈ texts', o.Part text)
    (heq : body ++ o.closer :: rest = body' ++ o.closer :: rest') : texts = texts' := by
  induction h generalizing body' texts' with
  | @done first ws hws =>
    cases h' with
    | done => rfl
    | more hlead hmore =>
      have hnext := nextEntry_done (o := o) hws first rest
      rw [heq, List.append_assoc, List.append_assoc,
        nextEntry_more hlead (hp' _ List.mem_cons_self).solid] at hnext
      cases hnext
  | @more first lead text body texts hlead hmore ih =>
    have htext := hp text List.mem_cons_self
    have hnext := nextEntry_more (o := o) hlead htext.solid (body ++ o.closer :: rest)
    rw [← List.append_assoc text, ← List.append_assoc lead, heq] at hnext
    cases h' with
    | done hws =>
      rw [nextEntry_done hws] at hnext
      cases hnext
    | @more _ lead' text' body' texts' hlead' hmore' =>
      have htext' := hp' text' List.mem_cons_self
      rw [List.append_assoc, List.append_assoc, nextEntry_more hlead' htext'.solid] at hnext
      have hsame := (Sum.inr.inj (Option.some.inj hnext)).symm
      rw [List.append_assoc] at hsame
      obtain ⟨rfl, hbody⟩ := htext.cut htext' (hmore.stops rest) (hmore'.stops rest') hsame
      rw [ih hmore' (fun t ht => hp t (List.mem_cons_of_mem _ ht))
        (fun t ht => hp' t (List.mem_cons_of_mem _ ht)) hbody]

theorem Open.Entry.unique {o : Open} {text value value' : Bytes} (h : o.Entry text value)
    (h' : o.Entry text value') (hv : Solid value) (hv' : Solid value') : value = value' := by
  obtain ⟨ws, hws, hbefore⟩ := Open.beforeValue_entry h Blanks.nil
  obtain ⟨ws', hws', hbefore'⟩ := Open.beforeValue_entry h' Blanks.nil
  have hsame := hbefore []
  rw [hbefore' [], List.append_nil, List.append_nil] at hsame
  obtain ⟨b, bs, rfl, hb, -⟩ := hv
  obtain ⟨b', bs', rfl, hb', -⟩ := hv'
  have hblanks := congrArg skipBlanks (Except.ok.inj hsame)
  rw [skipBlanks_append hws, skipBlanks_append hws', skipBlanks_cons hb,
    skipBlanks_cons hb'] at hblanks
  exact hblanks.symm

theorem Named.unique {text : Bytes} {m m' : String × Bytes} (h : Named text m) (h' : Named text m')
    (hv : Solid m.2) (hv' : Solid m'.2) : m = m' := by
  have hvalue := h.entry.unique h'.entry hv hv'
  obtain ⟨raw, hraw, ws, ws', -, -, rfl⟩ := h
  obtain ⟨raw', hraw', ws₁, ws₂, -, -, hbytes⟩ := h'
  have hread := readText_chars hraw (ws ++ 0x3a :: (ws' ++ m.2))
  rw [(List.cons.inj hbytes).2, readText_chars hraw'] at hread
  exact Prod.ext (Prod.mk.inj (Except.ok.inj hread)).1.symm hvalue

theorem forall₂_unique {α β : Type} {R : α → β → Prop} {P : β → Prop}
    (hR : ∀ {a b b'}, R a b → R a b' → P b → P b' → b = b') {as : List α} {bs bs' : List β}
    (h : List.Forall₂ R as bs) (h' : List.Forall₂ R as bs') (hb : ∀ b ∈ bs, P b)
    (hb' : ∀ b ∈ bs', P b) : bs = bs' := by
  induction h generalizing bs' with
  | nil =>
    cases h'
    rfl
  | cons hr _ ih =>
    cases h' with
    | cons hr' hrs' =>
      obtain ⟨hb, hbs⟩ := List.forall_mem_cons.1 hb
      obtain ⟨hb', hbs'⟩ := List.forall_mem_cons.1 hb'
      rw [hR hr hr' hb hb', ih hrs' hbs hbs']

theorem Value.mono {number number' : Bytes → Prop} (hn : ∀ text, number text → number' text)
    {text : Bytes} (h : Value number text) : Value number' text := by
  induction h with
  | word h => exact .word h
  | number h => exact .number (hn _ h)
  | text h => exact .text h
  | nest hrow hentries _ ih => exact .nest hrow hentries ih

theorem Open.opener_head (o : Open) : literal? o.opener = none ∧ startsNumber o.opener = false ∧
    o.opener ≠ 0x22 := by
  cases o <;> decide

theorem Open.opener_injective {o o' : Open} (h : o.opener = o'.opener) : o = o' := by
  cases o <;> cases o' <;> first | rfl | exact absurd h (by decide)

/-- The text is a list of these items, or an object that has these values. -/
def Open.Holds (o : Open) (number : Bytes → Prop) (text : Bytes) (values : List Bytes) : Prop :=
  ∃ inner texts, Row inner texts ∧ List.Forall₂ o.Entry texts values ∧
    (∀ value ∈ values, Value number value) ∧ text = o.opener :: (inner ++ [o.closer])

theorem Value.holds {number : Bytes → Prop} (hn : ∀ text, number text → IsNumber text) {o : Open}
    {r : Bytes} (h : Value number (o.opener :: r)) : ∃ values, o.Holds number (o.opener :: r) values := by
  obtain ⟨hword, hstart, hquote⟩ := o.opener_head
  generalize hbytes : o.opener :: r = text at h
  cases h with
  | word hw =>
    rw [← hbytes, ← literal?_eq_some, hword] at hw
    cases hw
  | number ht =>
    obtain ⟨b, bs, rfl, hb, -⟩ := (hn _ ht).steady
    rw [← (List.cons.inj hbytes).1, hstart] at hb
    cases hb
  | text => exact absurd (List.cons.inj hbytes).1 hquote
  | @nest o' inner texts values hrow hentries hvalues =>
    obtain rfl := Open.opener_injective (List.cons.inj hbytes).1
    exact ⟨values, inner, texts, hrow, hentries, hvalues, rfl⟩

theorem Open.Holds.values {o : Open} {number : Bytes → Prop} {text : Bytes} {values : List Bytes}
    (h : o.Holds number text values) : ∀ value ∈ values, Value number value := by
  obtain ⟨inner, texts, -, -, hvalues, -⟩ := h
  exact hvalues

theorem Open.Holds.mono {number number' : Bytes → Prop} (hn : ∀ text, number text → number' text)
    {o : Open} {text : Bytes} {values : List Bytes} (h : o.Holds number text values) :
    o.Holds number' text values := by
  obtain ⟨inner, texts, hrow, hentries, hvalues, hbytes⟩ := h
  exact ⟨inner, texts, hrow, hentries, fun value hm => (hvalues value hm).mono hn, hbytes⟩

theorem Open.Holds.unique {o : Open} {text : Bytes} {values values' : List Bytes}
    (h : o.Holds IsNumber text values) (h' : o.Holds IsNumber text values') : values = values' := by
  have hparts : ∀ {texts values : List Bytes}, List.Forall₂ o.Entry texts values →
      (∀ value ∈ values, Value IsNumber value) → ∀ text ∈ texts, o.Part text := by
    intro texts values hentries hvalues text ht
    obtain ⟨value, hvalue, hentry⟩ := exists_of_forall₂ hentries ht
    exact ⟨value, hentry, hvalues value hvalue⟩
  obtain ⟨inner, texts, hrow, hentries, hvalues, rfl⟩ := h
  obtain ⟨inner', texts', hrow', hentries', hvalues', hbytes⟩ := h'
  obtain rfl := hrow.unique hrow' (hparts hentries hvalues) (hparts hentries' hvalues')
    (List.cons.inj hbytes).2
  exact forall₂_unique Open.Entry.unique hentries hentries' (fun value hm => (hvalues value hm).solid)
    fun value hm => (hvalues' value hm).solid

theorem IsObject.holds {number : Bytes → Prop} {text : Bytes} {ms : List (String × Bytes)}
    (h : IsObject number text ms) : Open.object.Holds number text (ms.map Prod.snd) := by
  obtain ⟨inner, texts, hrow, hnamed, hvalues, rfl⟩ := h
  refine ⟨inner, texts, hrow, forall₂_entry hnamed, fun value hvalue => ?_, rfl⟩
  obtain ⟨m, hm, rfl⟩ := List.mem_map.1 hvalue
  exact hvalues m hm

theorem Value.number_of_numeral {number : Bytes → Prop} {text : Bytes} {n : Number}
    (h : Value number text) (hn : IsNumeral text n) : number text := by
  obtain ⟨b, bs, hbytes, hb⟩ := hn.head
  obtain ⟨-, hword, hquote, -⟩ := head_of_startsNumber hb
  cases h with
  | word hw =>
    rw [hbytes, ← literal?_eq_some, hword] at hw
    cases hw
  | number ht => exact ht
  | text => exact absurd (List.cons.inj hbytes).1.symm hquote
  | @nest o =>
    rw [← (List.cons.inj hbytes).1, o.opener_head.2.1] at hb
    cases hb

/-- The text is a whole number of 64 bits. -/
def Whole64 (text : Bytes) : Prop := ∃ i, IsInteger text i

theorem Whole64.numeral {text : Bytes} (h : Whole64 text) :
    ∃ i hfits, IsNumeral text (.integer i hfits) := by
  obtain ⟨i, hi⟩ := h
  have hfits : Fits i := by
    cases hi with
    | positive _ hfits => exact hfits
    | negative _ _ hfits => exact hfits
  exact ⟨i, hfits, (isNumeral_integer hfits).2 hi⟩

theorem Whole64.isNumber {text : Bytes} (h : Whole64 text) : IsNumber text := by
  obtain ⟨i, hfits, hn⟩ := h.numeral
  exact hn.isNumber

theorem Scalar.integral {text : Bytes} {v : Json} (h : Scalar text v) (hi : Value Whole64 text) :
    v.Integral := by
  cases h with
  | word h =>
    simp only [words, List.mem_cons, Prod.mk.injEq, List.not_mem_nil, or_false] at h
    rcases h with ⟨-, rfl⟩ | ⟨-, rfl⟩ | ⟨-, rfl⟩
    · exact integral_null
    · exact integral_boolean true
    · exact integral_boolean false
  | number hn =>
    obtain ⟨i, hfits, hinteger⟩ := (hi.number_of_numeral hn).numeral
    rw [hn.unique hinteger]
    exact integral_integer hfits
  | text => exact integral_text _

theorem values_of_list {number : Bytes → Prop} (hn : ∀ text, number text → IsNumber text)
    {inner : Bytes} {texts : List Bytes} (hrow : Row inner texts)
    (hvalues : ∀ text ∈ texts, Value IsNumber text) (h : Value number (0x5b :: (inner ++ [0x5d]))) :
    ∀ text ∈ texts, Value number text := by
  obtain ⟨values, hholds⟩ := Value.holds (o := .list) hn h
  have hlist : Open.list.Holds IsNumber (0x5b :: (inner ++ [0x5d])) texts :=
    ⟨inner, texts, hrow, List.forall₂_same.2 fun _ _ => rfl, hvalues, rfl⟩
  rw [hlist.unique (hholds.mono hn)]
  exact hholds.values

theorem values_of_object {number : Bytes → Prop} (hn : ∀ text, number text → IsNumber text)
    {inner : Bytes} {texts : List Bytes} {ms : List (String × Bytes)} (hrow : Row inner texts)
    (hnamed : List.Forall₂ Named texts ms) (hvalues : ∀ m ∈ ms, Value IsNumber m.2)
    (h : Value number (0x7b :: (inner ++ [0x7d]))) : ∀ m ∈ ms, Value number m.2 := by
  obtain ⟨values, hholds⟩ := Value.holds (o := .object) hn h
  have hobject : IsObject IsNumber (0x7b :: (inner ++ [0x7d])) ms :=
    ⟨inner, texts, hrow, hnamed, hvalues, rfl⟩
  have hsame := hobject.holds.unique (hholds.mono hn)
  intro m hm
  exact hholds.values m.2 (hsame ▸ List.mem_map_of_mem hm)

theorem Means.integral {depth : Nat} {text : Bytes} {v : Json} (h : Means depth text v)
    (hi : Value Whole64 text) : v.Integral := by
  induction depth generalizing text v with
  | zero => exact Scalar.integral h hi
  | succ depth ih =>
    have hnumber : ∀ text, Whole64 text → IsNumber text := fun _ h => h.isNumber
    cases h with
    | scalar h => exact h.integral hi
    | list hrow hvs =>
      have hvalues := values_of_list hnumber hrow (fun text ht => by
        obtain ⟨v, -, hv⟩ := exists_of_forall₂ hvs ht
        exact hv.value) hi
      refine integral_list.2 fun v hv => ?_
      obtain ⟨text, ht, hmeans⟩ := exists_left_of_forall₂ hvs hv
      exact ih hmeans (hvalues text ht)
    | object hrow hnamed hes hsorted =>
      have hvalues := values_of_object hnumber hrow hnamed (fun m hm => by
        obtain ⟨e, -, he⟩ := exists_of_forall₂ hes hm
        exact he.2.value) hi
      refine integral_object.2 fun k v hv => ?_
      obtain ⟨m, hm, hheld⟩ := exists_left_of_forall₂ hes
        (mem_of_ofMembers (arranged_iff.1 hsorted) hv)
      exact ih hheld.2 (hvalues m hm)

theorem parts_of_named {texts : List Bytes} {ms : List (String × Bytes)}
    (hnamed : List.Forall₂ Named texts ms) (hvalues : ∀ m ∈ ms, Value IsNumber m.2) :
    ∀ text ∈ texts, Open.object.Part text := by
  intro text ht
  obtain ⟨m, hm, hname⟩ := exists_of_forall₂ hnamed ht
  exact ⟨m.2, hname.entry, hvalues m hm⟩

theorem IsObject.unique {text : Bytes} {ms ms' : List (String × Bytes)}
    (h : IsObject IsNumber text ms) (h' : IsObject IsNumber text ms') : ms = ms' := by
  obtain ⟨inner, texts, hrow, hnamed, hvalues, rfl⟩ := h
  obtain ⟨inner', texts', hrow', hnamed', hvalues', hbytes⟩ := h'
  obtain rfl := hrow.unique (o := .object) hrow' (parts_of_named hnamed hvalues)
    (parts_of_named hnamed' hvalues') (List.cons.inj hbytes).2
  exact forall₂_unique Named.unique hnamed hnamed' (fun m hm => (hvalues m hm).solid)
    fun m hm => (hvalues' m hm).solid

theorem Alone.both {P Q : Bytes → Prop} (hP : ∀ text, P text → Value IsNumber text)
    (hQ : ∀ text, Q text → Value IsNumber text) {bs : Bytes} (hp : Alone P bs) (hq : Alone Q bs) :
    ∃ text, P text ∧ Q text := by
  obtain ⟨ws, text, rest, hws, hrest, ht, rfl⟩ := hp
  obtain ⟨ws', text', rest', hws', hrest', ht', hbytes⟩ := hq
  have hstops : ∀ {rest : Bytes}, Blanks rest → Stops rest := by
    intro rest h
    have hnil := h.stops stops_nil
    rwa [List.append_nil] at hnil
  have hsame := congrArg skipBlanks hbytes
  rw [skipBlanks_append hws, skipBlanks_append hws'] at hsame
  obtain ⟨b, bs, hb, hblank, -⟩ := (hP text ht).solid
  obtain ⟨b', bs', hb', hblank', -⟩ := (hQ text' ht').solid
  have hcut : text ++ rest = text' ++ rest' := by
    rw [hb, hb'] at hsame ⊢
    simpa [skipBlanks_cons hblank, skipBlanks_cons hblank'] using hsame
  obtain ⟨rfl, -⟩ := Open.Part.cut (o := .list) ⟨text, rfl, hP text ht⟩ ⟨text', rfl, hQ text' ht'⟩
    (hstops hrest) (hstops hrest') hcut
  exact ⟨text, ht, ht'⟩

end EventPost.Json
