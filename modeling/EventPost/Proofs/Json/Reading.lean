import EventPost.Proofs.Json.Passing
import EventPost.Proofs.Json.Shape
import EventPost.Proofs.Result

/-!
What a reader takes. A reader reads a kind of text if, behind blanks, it takes the texts of that
kind and no others, whatever follows them; readers are then put together like the texts. A list or
an object is read by one step for each entry, and what is read of the whole is what the steps leave.
-/

namespace EventPost.Json

open Text (Bytes bytesOf)

variable {α σ : Type}

/-- Behind blanks the reader takes just the texts that stand for a value, and gives that value. -/
def Reads (read : Bytes → Reading α) (R : Bytes → α → Prop) : Prop :=
  ∀ bs v rest, Stops rest →
    (read bs = .ok (v, rest) ↔ ∃ ws text, Blanks ws ∧ R text v ∧ bs = ws ++ (text ++ rest))

theorem readWhole_eq_ok {read : Bytes → Reading α} {R : Bytes → α → Prop} (h : Reads read R)
    {bs : Bytes} {v : α} : readWhole read bs = .ok v ↔ Alone (R · v) bs := by
  unfold readWhole
  constructor
  · intro hread
    split at hread
    · cases hread
    · rename_i rest hrest
      split at hread
      · rename_i hblanks
        obtain rfl := Except.ok.inj hread
        have hws := skipBlanks_eq_nil hblanks
        have hstops := hws.stops stops_nil
        rw [List.append_nil] at hstops
        obtain ⟨ws, text, hws', ht, rfl⟩ := (h _ _ _ hstops).1 hrest
        exact ⟨ws, text, rest, hws', hws, ht, rfl⟩
      · cases hread
  · intro halone
    obtain ⟨ws, text, ws', hws, hws', ht, rfl⟩ := halone
    have hstops := hws'.stops stops_nil
    have hnil := skipBlanks_append hws' []
    rw [List.append_nil] at hstops hnil
    rw [(h _ _ _ hstops).2 ⟨ws, text, hws, ht, rfl⟩]
    simp only [hnil]
    rfl

/-- Entry by entry, what the steps make of the entries. -/
inductive Runs {ε : Type} (T : σ → ε → σ → Prop) : σ → List ε → σ → Prop
  | done {acc : σ} : Runs T acc [] acc
  | more {acc next last : σ} {e : ε} {es : List ε} : T acc e next → Runs T next es last →
    Runs T acc (e :: es) last

theorem runs_cons {ε : Type} {T : σ → ε → σ → Prop} {acc last : σ} {e : ε} {es : List ε} :
    Runs T acc (e :: es) last ↔ ∃ next, T acc e next ∧ Runs T next es last := by
  constructor
  · intro h
    cases h with
    | more hstep hrun => exact ⟨_, hstep, hrun⟩
  · intro h
    obtain ⟨next, hstep, hrun⟩ := h
    exact .more hstep hrun

def Pushes {ε : Type} (R : ε → α → Prop) (acc : List α) (e : ε) (next : List α) : Prop :=
  ∃ v, R e v ∧ next = v :: acc

theorem runs_pushes {ε : Type} {R : ε → α → Prop} {es : List ε} {acc last : List α} :
    Runs (Pushes R) acc es last ↔ ∃ vs, List.Forall₂ R es vs ∧ last = vs.reverse ++ acc := by
  constructor
  · intro h
    induction h with
    | done => exact ⟨[], .nil, rfl⟩
    | more hstep _ ih =>
      obtain ⟨v, hv, rfl⟩ := hstep
      obtain ⟨vs, hvs, rfl⟩ := ih
      exact ⟨v :: vs, .cons hv hvs, by simp⟩
  · intro h
    obtain ⟨vs, hvs, rfl⟩ := h
    induction hvs generalizing acc with
    | nil => exact .done
    | @cons e v es vs hv _ ih =>
      rw [List.reverse_cons, List.append_assoc]
      exact .more ⟨v, hv, rfl⟩ ih

def nextEntry (closer : UInt8) (first : Bool) (bs : Bytes) : Option (Bytes ⊕ Bytes) :=
  match skipBlanks bs with
  | [] => none
  | b :: r =>
    if b = closer then some (.inl r)
    else if first then some (.inr (b :: r))
    else if b = 0x2c then
      match skipBlanks r with
      | [] => none
      | c :: r => if c = closer then none else some (.inr (c :: r))
    else none

/-- The fold goes from entry to entry, as far as its steps go. -/
def Folds (closer : UInt8) (fold : Nat → Bool → σ → Bytes → Reading σ)
    (step : σ → Bytes → Reading σ → Prop) : Prop :=
  ∀ fuel first acc bs last rest, fold fuel first acc bs = .ok (last, rest) ↔
    nextEntry closer first bs = some (.inl rest) ∧ last = acc ∨
    ∃ text fuel' next mid, nextEntry closer first bs = some (.inr text) ∧ fuel = fuel' + 1 ∧
      step acc text (.ok (next, mid)) ∧ fold fuel' false next mid = .ok (last, rest)

theorem nextItem_eq_ok {step : σ → Bytes → Reading σ} {fuel : Nat} {acc last : σ}
    {text rest : Bytes} : (match fuel with
      | 0 => failAt .endInList text
      | fuel + 1 =>
        match step acc text with
        | .error e => .error e
        | .ok (acc, rest) => foldItems step fuel false acc rest) = .ok (last, rest) ↔
      ∃ fuel' next mid, fuel = fuel' + 1 ∧ step acc text = .ok (next, mid) ∧
        foldItems step fuel' false next mid = .ok (last, rest) := by
  cases fuel with
  | zero => simp [failAt]
  | succ fuel =>
    cases hstep : step acc text with
    | error => simp
    | ok r =>
      obtain ⟨next, mid⟩ := r
      simp

theorem folds_items (step : σ → Bytes → Reading σ) :
    Folds 0x5d (foldItems step) fun acc text result => step acc text = result := by
  intro fuel first acc bs last rest
  rw [foldItems.eq_def, nextEntry]
  cases hblanks : skipBlanks bs with
  | nil => simp [hblanks, failAt]
  | cons b r =>
    simp only [hblanks]
    by_cases hclose : b = 0x5d
    · simp [hclose, and_comm, eq_comm]
    · cases first with
      | true =>
        simp only [if_neg hclose, if_true]
        refine nextItem_eq_ok.trans ?_
        simp
      | false =>
        by_cases hcomma : b = 0x2c
        · simp only [if_neg hclose, if_pos hcomma, Bool.false_eq_true, if_false]
          cases skipBlanks r with
          | nil => simp [failAt]
          | cons c r =>
            by_cases hc : c = 0x5d
            · simp [hc, failAt]
            · simp only [if_neg hc]
              refine nextItem_eq_ok.trans ?_
              simp
        · simp [hclose, hcomma, failAt]

theorem nextMember_eq_ok {step : σ → String → Bytes → Reading σ} {fuel : Nat} {acc last : σ}
    {r rest : Bytes} : (match fuel with
      | 0 => failAt .endInObject r
      | fuel + 1 =>
        match readText r with
        | .error e => .error e
        | .ok (key, bs) =>
          match step acc key bs with
          | .error e => .error e
          | .ok (acc, rest) => foldMembers step fuel false acc rest) = .ok (last, rest) ↔
      ∃ fuel' next mid, fuel = fuel' + 1 ∧ (∃ key bs, readText r = .ok (key, bs) ∧
        step acc key bs = .ok (next, mid)) ∧
        foldMembers step fuel' false next mid = .ok (last, rest) := by
  cases fuel with
  | zero => simp [failAt]
  | succ fuel =>
    cases hkey : readText r with
    | error => simp
    | ok k =>
      obtain ⟨key, bs⟩ := k
      cases hstep : step acc key bs with
      | error => simp [hstep]
      | ok r =>
        obtain ⟨next, mid⟩ := r
        simp [hstep]

theorem folds_members (step : σ → String → Bytes → Reading σ) :
    Folds 0x7d (foldMembers step) fun acc text result => ∃ r key bs, text = 0x22 :: r ∧
      readText r = .ok (key, bs) ∧ step acc key bs = result := by
  intro fuel first acc bs last rest
  rw [foldMembers.eq_def, nextEntry]
  cases hblanks : skipBlanks bs with
  | nil => simp [hblanks, failAt]
  | cons b r =>
    simp only [hblanks]
    by_cases hclose : b = 0x7d
    · simp [hclose, and_comm, eq_comm]
    · cases first with
      | true =>
        by_cases hquote : b = 0x22
        · simp only [if_neg hclose, if_true, if_pos hquote]
          refine nextMember_eq_ok.trans ?_
          simp [hquote]
        · simp [hclose, hquote, failAt]
      | false =>
        by_cases hcomma : b = 0x2c
        · simp only [if_neg hclose, if_pos hcomma, Bool.false_eq_true, if_false]
          cases skipBlanks r with
          | nil => simp [failAt]
          | cons c r =>
            by_cases hc : c = 0x7d
            · simp [hc, failAt]
            · by_cases hquote : c = 0x22
              · simp only [if_neg hc, if_pos hquote]
                refine nextMember_eq_ok.trans ?_
                simp [hquote]
              · simp [hc, hquote, failAt]
        · simp [hclose, hcomma, failAt]

theorem nextEntry_done {o : Open} {ws : Bytes} (hws : Blanks ws) (first : Bool) (rest : Bytes) :
    nextEntry o.closer first (ws ++ o.closer :: rest) = some (.inl rest) := by
  have hcloser : isJsonBlank o.closer = false := by cases o <;> decide
  simp only [nextEntry, skipBlanks_append hws, skipBlanks_cons hcloser, if_true]

theorem nextEntry_more {o : Open} {first : Bool} {lead text : Bytes} (hlead : Lead first lead)
    (ht : Solid text) (rest : Bytes) :
    nextEntry o.closer first (lead ++ (text ++ rest)) = some (.inr (text ++ rest)) := by
  obtain ⟨b, bs, rfl, hblank, hlist, hobject⟩ := ht
  have hclose : b ≠ o.closer := by cases o <;> assumption
  have hcomma : isJsonBlank 0x2c = false ∧ 0x2c ≠ o.closer := by cases o <;> decide
  cases hlead with
  | first hws =>
    simp only [nextEntry, List.cons_append, skipBlanks_append hws, skipBlanks_cons hblank,
      if_neg hclose, if_true]
  | other hws hws' =>
    simp only [nextEntry, List.append_assoc, List.cons_append, skipBlanks_append hws,
      skipBlanks_append hws', skipBlanks_cons hblank, skipBlanks_cons hcomma.1, if_neg hcomma.2,
      if_neg hclose, Bool.false_eq_true, if_false, if_true]

theorem nextEntry_cases {o : Open} {first : Bool} {bs : Bytes} {r : Bytes ⊕ Bytes}
    (h : nextEntry o.closer first bs = some r) :
    (∃ ws rest, Blanks ws ∧ bs = ws ++ o.closer :: rest ∧ r = .inl rest) ∨
      ∃ lead text, Lead first lead ∧ bs = lead ++ text ∧ r = .inr text := by
  unfold nextEntry at h
  split at h
  · cases h
  · rename_i hblanks
    obtain ⟨ws, hws, rfl, -⟩ := skipBlanks_eq_cons hblanks
    split at h
    · rename_i hclose
      exact .inl ⟨ws, _, hws, by rw [hclose], (Option.some.inj h).symm⟩
    · split at h
      · rename_i hfirst
        subst hfirst
        exact .inr ⟨ws, _, .first hws, rfl, (Option.some.inj h).symm⟩
      · rename_i hfirst
        obtain rfl := Bool.eq_false_iff.2 hfirst
        split at h
        · rename_i hcomma
          subst hcomma
          split at h
          · cases h
          · rename_i hblanks
            obtain ⟨ws', hws', rfl, -⟩ := skipBlanks_eq_cons hblanks
            split at h
            · cases h
            · exact .inr ⟨_, _, .other hws hws', by simp, (Option.some.inj h).symm⟩
        · cases h

theorem Entries.length_le {first : Bool} {body : Bytes} {texts : List Bytes}
    (h : Entries first body texts) (ht : ∀ text ∈ texts, Solid text) :
    texts.length ≤ body.length := by
  induction h with
  | done => exact Nat.zero_le _
  | more _ _ ih =>
    obtain ⟨b, bs, rfl, -⟩ := ht _ List.mem_cons_self
    have hrest := ih fun text h => ht text (List.mem_cons_of_mem _ h)
    simp only [List.length_cons, List.length_append]
    omega

theorem Runs.all {ε : Type} {T : σ → ε → σ → Prop} {P : ε → Prop}
    (h : ∀ {acc e next}, T acc e next → P e) {es : List ε} {acc last : σ}
    (hrun : Runs T acc es last) : ∀ e ∈ es, P e := by
  induction hrun with
  | done => exact fun _ h => absurd h List.not_mem_nil
  | more hstep _ ih => exact List.forall_mem_cons.2 ⟨h hstep, ih⟩

/-- A fold whose steps take just the entries of a kind takes just the bodies made of such entries.
-/
theorem Folds.eq_ok {o : Open} {fold : Nat → Bool → σ → Bytes → Reading σ}
    {step : σ → Bytes → Reading σ → Prop} (hfold : Folds o.closer fold step)
    {T : σ → Bytes → σ → Prop} (hsolid : ∀ {acc text next}, T acc text next → Solid text)
    (hsound : ∀ {acc bs next rest}, Stops rest → step acc bs (.ok (next, rest)) →
      ∃ ws text, Blanks ws ∧ T acc text next ∧ bs = ws ++ (text ++ rest))
    (hcomplete : ∀ {acc text next rest}, Stops rest → T acc text next →
      step acc (text ++ rest) (.ok (next, rest)))
    {fuel : Nat} {first : Bool} {acc last : σ} {bs rest : Bytes} :
    fold fuel first acc bs = .ok (last, rest) ↔ ∃ body texts, texts.length ≤ fuel ∧
      Entries first body texts ∧ Runs T acc texts last ∧ bs = body ++ o.closer :: rest := by
  constructor
  · intro h
    induction fuel using Nat.strong_induction_on generalizing first acc bs with
    | _ fuel ih =>
      rcases (hfold fuel first acc bs last rest).1 h with
        ⟨hdone, rfl⟩ | ⟨text, fuel', next, mid, hentry, rfl, htaken, hrest⟩
      · rcases nextEntry_cases hdone with ⟨ws, rest', hws, rfl, hr⟩ | ⟨_, _, _, _, hr⟩
        · obtain rfl := Sum.inl.inj hr
          exact ⟨ws, [], Nat.zero_le _, .done hws, .done, rfl⟩
        · cases hr
      · rcases nextEntry_cases hentry with ⟨_, _, _, _, hr⟩ | ⟨lead, text', hlead, rfl, hr⟩
        · cases hr
        · obtain rfl := Sum.inr.inj hr
          obtain ⟨body, texts, hfuel, hentries, hrun, rfl⟩ := ih fuel' (Nat.lt_succ_self _) hrest
          obtain ⟨ws, entry, hws, ht, rfl⟩ := hsound (hentries.stops rest) htaken
          exact ⟨(lead ++ ws) ++ (entry ++ body), entry :: texts, Nat.succ_le_succ hfuel,
            .more (hlead.append hws) hentries, .more ht hrun, by simp⟩
  · intro h
    obtain ⟨body, texts, hfuel, hentries, hrun, rfl⟩ := h
    induction hentries generalizing acc fuel with
    | @done first ws hws =>
      cases hrun
      exact (hfold ..).2 (.inl ⟨nextEntry_done hws first rest, rfl⟩)
    | @more first lead text body texts hlead hmore ih =>
      cases hrun with
      | more ht hrun =>
        rw [List.length_cons] at hfuel
        obtain ⟨fuel, rfl⟩ : ∃ n, fuel = n + 1 := ⟨fuel - 1, by omega⟩
        have hentry := nextEntry_more (o := o) hlead (hsolid ht) (body ++ o.closer :: rest)
        have htaken := hcomplete (hmore.stops (o := o) rest) ht
        rw [List.append_assoc, List.append_assoc]
        exact (hfold ..).2 (.inr ⟨_, fuel, _, _, hentry, rfl, htaken,
          ih (Nat.le_of_succ_le_succ hfuel) hrun⟩)

theorem foldItems_eq_ok {step : σ → Bytes → Reading σ} {T : σ → Bytes → σ → Prop}
    (hsolid : ∀ {acc text next}, T acc text next → Solid text)
    (hstep : ∀ {acc bs next rest}, Stops rest → (step acc bs = .ok (next, rest) ↔
      ∃ ws text, Blanks ws ∧ T acc text next ∧ bs = ws ++ (text ++ rest)))
    {acc last : σ} {r rest : Bytes} : foldItems step r.length true acc r = .ok (last, rest) ↔
      ∃ inner texts, Row inner texts ∧ Runs T acc texts last ∧ r = inner ++ 0x5d :: rest := by
  rw [Folds.eq_ok (o := .list) (folds_items step) hsolid (fun hr => (hstep hr).1)
    fun hr ht => (hstep hr).2 ⟨[], _, Blanks.nil, ht, rfl⟩]
  constructor
  · intro h
    obtain ⟨body, texts, -, h⟩ := h
    exact ⟨body, texts, h⟩
  · intro h
    obtain ⟨body, texts, hrow, hrun, rfl⟩ := h
    refine ⟨body, texts, ?_, hrow, hrun, rfl⟩
    have hlength := hrow.length_le (Runs.all (P := Solid) hsolid hrun)
    rw [List.length_append]
    omega

theorem Named.solid {text : Bytes} {m : String × Bytes} (h : Named text m) : Solid text := by
  obtain ⟨raw, -, ws, ws', -, -, rfl⟩ := h
  exact solid_cons (by decide) _

def Member (T : σ → String × Bytes → σ → Prop) (acc : σ) (text : Bytes) (next : σ) : Prop :=
  ∃ m, Named text m ∧ T acc m next

theorem runs_member {T : σ → String × Bytes → σ → Prop} {texts : List Bytes} {acc last : σ} :
    Runs (Member T) acc texts last ↔ ∃ ms, List.Forall₂ Named texts ms ∧ Runs T acc ms last := by
  constructor
  · intro h
    induction h with
    | done => exact ⟨[], .nil, .done⟩
    | more hstep _ ih =>
      obtain ⟨m, hm, ht⟩ := hstep
      obtain ⟨ms, hms, hrun⟩ := ih
      exact ⟨m :: ms, .cons hm hms, .more ht hrun⟩
  · intro h
    obtain ⟨ms, hms, hrun⟩ := h
    induction hms generalizing acc with
    | nil =>
      cases hrun
      exact .done
    | cons hm _ ih =>
      cases hrun with
      | more ht hrun => exact .more ⟨_, hm, ht⟩ (ih hrun)

theorem foldMembers_eq_ok {step : σ → String → Bytes → Reading σ}
    {T : σ → String × Bytes → σ → Prop}
    (hstep : ∀ {acc key bs next rest}, Stops rest → (step acc key bs = .ok (next, rest) ↔
      ∃ ws ws' value, Blanks ws ∧ Blanks ws' ∧ T acc (key, value) next ∧
        bs = ws ++ 0x3a :: (ws' ++ (value ++ rest))))
    {acc last : σ} {r rest : Bytes} : foldMembers step r.length true acc r = .ok (last, rest) ↔
      ∃ inner texts ms, Row inner texts ∧ List.Forall₂ Named texts ms ∧ Runs T acc ms last ∧
        r = inner ++ 0x7d :: rest := by
  have hsolid : ∀ {acc text next}, Member T acc text next → Solid text :=
    fun h => h.elim fun m hm => hm.1.solid
  rw [Folds.eq_ok (o := .object) (T := Member T) (folds_members step) hsolid]
  · constructor
    · intro h
      obtain ⟨body, texts, -, hrow, hrun, rfl⟩ := h
      obtain ⟨ms, hms, hrun⟩ := runs_member.1 hrun
      exact ⟨body, texts, ms, hrow, hms, hrun, rfl⟩
    · intro h
      obtain ⟨body, texts, ms, hrow, hms, hrun, rfl⟩ := h
      have hrun := runs_member.2 ⟨ms, hms, hrun⟩
      refine ⟨body, texts, ?_, hrow, hrun, rfl⟩
      have hlength := hrow.length_le (Runs.all (P := Solid) hsolid hrun)
      rw [List.length_append]
      omega
  · intro acc bs next rest hr h
    obtain ⟨r, key, bs, rfl, hkey, hread⟩ := h
    obtain ⟨raw, hraw, rfl⟩ := readText_eq_ok.1 hkey
    obtain ⟨ws, ws', value, hws, hws', ht, rfl⟩ := (hstep hr).1 hread
    exact ⟨[], _, Blanks.nil, ⟨(key, value), ⟨raw, hraw, ws, ws', hws, hws', rfl⟩, ht⟩, by simp⟩
  · intro acc text next rest hr h
    obtain ⟨m, ⟨raw, hraw, ws, ws', hws, hws', rfl⟩, ht⟩ := h
    refine ⟨_, m.1, _, rfl, readText_eq_ok.2 ⟨raw, hraw, ?_⟩, (hstep hr).2
      ⟨ws, ws', m.2, hws, hws', ht, rfl⟩⟩
    simp

theorem itemStep_eq_ok {read : Bytes → Reading α} {R : Bytes → α → Prop} (h : Reads read R)
    {acc next : List α} {bs rest : Bytes} (hr : Stops rest) :
    itemStep read acc bs = .ok (next, rest) ↔
      ∃ ws text, Blanks ws ∧ Pushes R acc text next ∧ bs = ws ++ (text ++ rest) := by
  unfold itemStep
  constructor
  · intro hread
    split at hread
    · cases hread
    · rename_i v rest' hv
      obtain ⟨rfl, rfl⟩ := Prod.mk.inj (Except.ok.inj hread)
      obtain ⟨ws, text, hws, ht, rfl⟩ := (h _ _ _ hr).1 hv
      exact ⟨ws, text, hws, ⟨v, ht, rfl⟩, rfl⟩
  · intro hpush
    obtain ⟨ws, text, hws, ⟨v, ht, rfl⟩, rfl⟩ := hpush
    rw [(h _ _ _ hr).2 ⟨ws, text, hws, ht, rfl⟩]

theorem readColon_eq_ok {bs rest : Bytes} :
    readColon bs = .ok rest ↔ ∃ ws, Blanks ws ∧ bs = ws ++ 0x3a :: rest := by
  constructor
  · intro h
    unfold readColon at h
    split at h
    · cases h
    · rename_i hblanks
      obtain ⟨ws, hws, rfl, -⟩ := skipBlanks_eq_cons hblanks
      split at h
      · rename_i hcolon
        obtain rfl := Except.ok.inj h
        exact ⟨ws, hws, by rw [hcolon]⟩
      · cases h
  · intro h
    obtain ⟨ws, hws, rfl⟩ := h
    have hcolon : isJsonBlank 0x3a = false := by decide
    simp only [readColon, skipBlanks_append hws, skipBlanks_cons hcolon, if_true]

theorem behind_colon {read : Bytes → Reading α} {R : Bytes → α → Prop} (h : Reads read R)
    {bs rest : Bytes} {v : α} (hr : Stops rest) :
    (∃ bs', readColon bs = .ok bs' ∧ read bs' = .ok (v, rest)) ↔ ∃ ws ws' value, Blanks ws ∧
      Blanks ws' ∧ R value v ∧ bs = ws ++ 0x3a :: (ws' ++ (value ++ rest)) := by
  constructor
  · intro hread
    obtain ⟨bs', hcolon, hv⟩ := hread
    obtain ⟨ws, hws, rfl⟩ := readColon_eq_ok.1 hcolon
    obtain ⟨ws', value, hws', hvalue, rfl⟩ := (h _ _ _ hr).1 hv
    exact ⟨ws, ws', value, hws, hws', hvalue, rfl⟩
  · intro hread
    obtain ⟨ws, ws', value, hws, hws', hvalue, rfl⟩ := hread
    exact ⟨_, readColon_eq_ok.2 ⟨ws, hws, rfl⟩, (h _ _ _ hr).2 ⟨ws', value, hws', hvalue, rfl⟩⟩

theorem putBehind_eq_ok {read : Bytes → Reading α} {R : Bytes → α → Prop} (h : Reads read R)
    (put : α → σ) (bs : Bytes) (next : σ) {rest : Bytes} (hr : Stops rest) :
    (match readColon bs with
      | .error e => .error e
      | .ok bs =>
        match read bs with
        | .error e => .error e
        | .ok (v, rest) => .ok (put v, rest)) = Except.ok (next, rest) ↔
      ∃ ws ws' value, Blanks ws ∧ Blanks ws' ∧ (∃ v, R value v ∧ next = put v) ∧
        bs = ws ++ 0x3a :: (ws' ++ (value ++ rest)) := by
  constructor
  · intro hread
    split at hread
    · cases hread
    · rename_i hcolon
      split at hread
      · cases hread
      · rename_i v rest' hv
        obtain ⟨rfl, rfl⟩ := Prod.mk.inj (Except.ok.inj hread)
        obtain ⟨ws, ws', value, hws, hws', hvalue, hbytes⟩ := (behind_colon h hr).1 ⟨_, hcolon, hv⟩
        exact ⟨ws, ws', value, hws, hws', ⟨v, hvalue, rfl⟩, hbytes⟩
  · intro hform
    obtain ⟨ws, ws', value, hws, hws', ⟨v, hvalue, rfl⟩, hbytes⟩ := hform
    obtain ⟨bs', hcolon, hv⟩ := (behind_colon h hr).2 ⟨ws, ws', value, hws, hws', hvalue, hbytes⟩
    simp only [hcolon, hv]

/-- The member as it is kept: its name, and what its value stands for. -/
def Held (R : Bytes → α → Prop) (m : String × Bytes) (e : String × α) : Prop :=
  e.1 = m.1 ∧ R m.2 e.2

theorem pushes_held {R : Bytes → α → Prop} {acc next : List (String × α)} {key : String}
    {value : Bytes} :
    Pushes (Held R) acc (key, value) next ↔ ∃ v, R value v ∧ next = (key, v) :: acc := by
  constructor
  · intro h
    obtain ⟨⟨_, v⟩, ⟨rfl, hv⟩, rfl⟩ := h
    exact ⟨v, hv, rfl⟩
  · intro h
    obtain ⟨v, hv, rfl⟩ := h
    exact ⟨(key, v), ⟨rfl, hv⟩, rfl⟩

theorem memberStep_eq_ok {read : Bytes → Reading α} {R : Bytes → α → Prop} (h : Reads read R)
    {acc next : List (String × α)} {key : String} {bs rest : Bytes} (hr : Stops rest) :
    memberStep read acc key bs = .ok (next, rest) ↔ ∃ ws ws' value, Blanks ws ∧ Blanks ws' ∧
      Pushes (Held R) acc (key, value) next ∧ bs = ws ++ 0x3a :: (ws' ++ (value ++ rest)) := by
  simp only [pushes_held]
  exact putBehind_eq_ok h (fun v => (key, v) :: acc) bs next hr

theorem readItems_eq_ok {read : Bytes → Reading α} {R : Bytes → α → Prop} (h : Reads read R)
    (hvalue : ∀ {text v}, R text v → Value IsNumber text) {r rest : Bytes} {items : List α} :
    foldItems (itemStep read) r.length true [] r = .ok (items, rest) ↔
      ∃ inner texts vs, Row inner texts ∧ List.Forall₂ R texts vs ∧ items = vs.reverse ∧
        r = inner ++ 0x5d :: rest := by
  rw [foldItems_eq_ok (T := Pushes R) (fun h => h.elim fun v hv => (hvalue hv.1).solid)
    (itemStep_eq_ok h)]
  constructor
  · intro hread
    obtain ⟨inner, texts, hrow, hrun, hr⟩ := hread
    obtain ⟨vs, hvs, hitems⟩ := runs_pushes.1 hrun
    exact ⟨inner, texts, vs, hrow, hvs, by rw [hitems, List.append_nil], hr⟩
  · intro hread
    obtain ⟨inner, texts, vs, hrow, hvs, rfl, hr⟩ := hread
    exact ⟨inner, texts, hrow, runs_pushes.2 ⟨vs, hvs, (List.append_nil _).symm⟩, hr⟩

theorem readMembers_eq_ok {read : Bytes → Reading α} {R : Bytes → α → Prop} (h : Reads read R)
    {r rest : Bytes} {members : List (String × α)} :
    foldMembers (memberStep read) r.length true [] r = .ok (members, rest) ↔ ∃ inner texts ms es,
      Row inner texts ∧ List.Forall₂ Named texts ms ∧ List.Forall₂ (Held R) ms es ∧
        members = es.reverse ∧ r = inner ++ 0x7d :: rest := by
  rw [foldMembers_eq_ok (T := Pushes (Held R)) (memberStep_eq_ok h)]
  constructor
  · intro hread
    obtain ⟨inner, texts, ms, hrow, hnamed, hrun, hr⟩ := hread
    obtain ⟨es, hes, hmembers⟩ := runs_pushes.1 hrun
    exact ⟨inner, texts, ms, es, hrow, hnamed, hes, by rw [hmembers, List.append_nil], hr⟩
  · intro hread
    obtain ⟨inner, texts, ms, es, hrow, hnamed, hes, rfl, hr⟩ := hread
    exact ⟨inner, texts, ms, hrow, hnamed, runs_pushes.2 ⟨es, hes, (List.append_nil _).symm⟩, hr⟩

theorem reads_of_head {read : Bytes → Reading α} {R : Bytes → α → Prop}
    (hskip : ∀ bs, read (skipBlanks bs) = read bs) (hnil : ∀ x, read [] ≠ .ok x)
    (hvalue : ∀ {text v}, R text v → Value IsNumber text)
    (hread : ∀ {b r v rest}, isJsonBlank b = false → Stops rest →
      (read (b :: r) = .ok (v, rest) ↔ ∃ bs, R (b :: bs) v ∧ r = bs ++ rest)) : Reads read R := by
  intro bs v rest hr
  rw [← hskip bs]
  constructor
  · intro h
    cases hblanks : skipBlanks bs with
    | nil =>
      rw [hblanks] at h
      exact absurd h (hnil _)
    | cons b r =>
      obtain ⟨ws, hws, rfl, hb⟩ := skipBlanks_eq_cons hblanks
      rw [hblanks] at h
      obtain ⟨bs, ht, rfl⟩ := (hread hb hr).1 h
      exact ⟨ws, _, hws, ht, rfl⟩
  · intro h
    obtain ⟨ws, text, hws, ht, rfl⟩ := h
    obtain ⟨b, bs, rfl, hblank, -⟩ := (hvalue ht).solid
    rw [List.cons_append, skipBlanks_append hws, skipBlanks_cons hblank]
    exact (hread hblank hr).2 ⟨bs, ht, rfl⟩

theorem skipBlanks_skipBlanks (bs : Bytes) : skipBlanks (skipBlanks bs) = skipBlanks bs := by
  cases h : skipBlanks bs with
  | nil => rfl
  | cons b r =>
    obtain ⟨-, -, -, hb⟩ := skipBlanks_eq_cons h
    exact skipBlanks_cons hb r

theorem wrongKind_ne_ok (expected : String) (b : UInt8) (r : Bytes) (x : α × Bytes) :
    wrongKind expected b r ≠ .ok x := by
  intro h
  unfold wrongKind at h
  split at h
  · split at h <;> cases h
  · split at h
    · split at h <;> cases h
    · split at h
      · split at h <;> cases h
      · split at h
        · cases h
        · split at h <;> cases h

end EventPost.Json
