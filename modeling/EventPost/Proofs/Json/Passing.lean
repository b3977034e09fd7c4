import EventPost.Proofs.Json.Numeral
import EventPost.Proofs.Json.Quoting

/-!
A value is passed over just if it is well formed, at whatever depth. The passing over keeps the open
lists and objects on a stack; what it has left to do is to end the innermost of them, entry by
entry, and then go on with the one around it.
-/

namespace EventPost.Json

open Text (Bytes bytesOf)

theorem readWord_eq_ok {word bs rest : Bytes} :
    readWord word bs = .ok rest ↔ bs = word ++ rest := by
  induction word generalizing bs with
  | nil =>
    rw [readWord, List.nil_append]
    exact ⟨Except.ok.inj, congrArg _⟩
  | cons w word ih =>
    cases bs with
    | nil => simp [readWord, fail]
    | cons b bs =>
      by_cases h : w = b
      · simp [readWord, h, ih]
      · simp [readWord, h, Ne.symm h, fail]

theorem literal?_eq_some {b : UInt8} {word : Bytes} {v : Json} :
    literal? b = some (word, v) ↔ (b :: word, v) ∈ words := by
  have hnull : bytesOf "null" = 0x6e :: "ull".toList.map fun c => c.toNat.toUInt8 := by decide
  have htrue : bytesOf "true" = 0x74 :: "rue".toList.map fun c => c.toNat.toUInt8 := by decide
  have hfalse : bytesOf "false" = 0x66 :: "alse".toList.map fun c => c.toNat.toUInt8 := by decide
  simp only [words, hnull, htrue, hfalse, List.mem_cons, Prod.mk.injEq, List.cons.injEq,
    List.not_mem_nil, or_false]
  unfold literal?
  split
  · rename_i h
    simp [h, eq_comm]
  · split
    · rename_i h
      simp [h, eq_comm]
    · split
      · rename_i h
        simp [h, eq_comm]
      · simp [*]

/-- The text begins with what neither is a blank nor ends a list or an object. -/
def Solid (text : Bytes) : Prop :=
  ∃ b bs, text = b :: bs ∧ isJsonBlank b = false ∧ b ≠ 0x5d ∧ b ≠ 0x7d

theorem solid_cons {b : UInt8} (h : isJsonBlank b = false ∧ b ≠ 0x5d ∧ b ≠ 0x7d) (bs : Bytes) :
    Solid (b :: bs) :=
  ⟨b, bs, rfl, h⟩

theorem head_of_startsNumber {b : UInt8} (h : startsNumber b = true) : isJsonBlank b = false ∧
    literal? b = none ∧ b ≠ 0x22 ∧ b ≠ 0x5b ∧ b ≠ 0x7b ∧ b ≠ 0x5d ∧ b ≠ 0x7d := by
  have hcode : ∀ v < 256, startsNumber (UInt8.ofNat v) = true →
      isJsonBlank (UInt8.ofNat v) = false ∧ (literal? (UInt8.ofNat v)).isNone = true ∧
      UInt8.ofNat v ≠ 0x22 ∧ UInt8.ofNat v ≠ 0x5b ∧ UInt8.ofNat v ≠ 0x7b ∧
      UInt8.ofNat v ≠ 0x5d ∧ UInt8.ofNat v ≠ 0x7d := by
    decide +kernel
  have hb := hcode b.toNat b.toNat_lt
  rw [UInt8.ofNat_toNat] at hb
  obtain ⟨hblank, hword, hrest⟩ := hb h
  exact ⟨hblank, Option.isNone_iff_eq_none.1 hword, hrest⟩

theorem solid_word {text : Bytes} {v : Json} (h : (text, v) ∈ words) : Solid text := by
  simp only [words, List.mem_cons, Prod.mk.injEq, List.not_mem_nil, or_false] at h
  rcases h with ⟨rfl, -⟩ | ⟨rfl, -⟩ | ⟨rfl, -⟩ <;> exact solid_cons (by decide) _

theorem Value.solid {text : Bytes} (h : Value IsNumber text) : Solid text := by
  cases h with
  | word hw => exact solid_word hw
  | number ht =>
    obtain ⟨b, bs, rfl, hb, -⟩ := ht.steady
    obtain ⟨hblank, -, -, -, -, hends⟩ := head_of_startsNumber hb
    exact solid_cons ⟨hblank, hends⟩ bs
  | text => exact solid_cons (by decide) _
  | @nest o => cases o <;> exact solid_cons (by decide) _

theorem Open.Entry.solid {o : Open} {text value : Bytes} (h : o.Entry text value)
    (hv : Solid value) : Solid text := by
  cases o with
  | list =>
    obtain rfl : text = value := h
    exact hv
  | object =>
    obtain ⟨raw, -, ws, ws', -, -, rfl⟩ := h
    exact solid_cons (by decide) _

theorem Open.Entry.length_le {o : Open} {text value : Bytes} (h : o.Entry text value) :
    value.length ≤ text.length := by
  cases o with
  | list =>
    obtain rfl : text = value := h
    exact Nat.le_refl _
  | object =>
    obtain ⟨raw, -, ws, ws', -, -, rfl⟩ := h
    simp only [List.length_cons, List.length_append]
    omega

theorem Open.beforeValue_entry {o : Open} {text value : Bytes} (h : o.Entry text value) {ws : Bytes}
    (hws : Blanks ws) : ∃ ws', Blanks ws' ∧ ∀ rest,
      o.beforeValue (ws ++ (text ++ rest)) = .ok (ws' ++ (value ++ rest)) := by
  cases o with
  | list =>
    obtain rfl : text = value := h
    exact ⟨ws, hws, fun _ => rfl⟩
  | object =>
    obtain ⟨raw, hraw, ws', ws'', hws', hws'', rfl⟩ := h
    refine ⟨ws'', hws'', fun rest => ?_⟩
    have hquote : isJsonBlank 0x22 = false := by decide
    have hcolon : isJsonBlank 0x3a = false := by decide
    simp only [Open.beforeValue, skipBlanks_append hws, List.cons_append, List.append_assoc,
      skipBlanks_cons hquote, if_true, skipText_quotable hraw, skipBlanks_append hws',
      skipBlanks_cons hcolon]

theorem Open.entry_of_beforeValue {o : Open} {bs ws value rest : Bytes} (hws : Blanks ws)
    (h : o.beforeValue bs = .ok (ws ++ (value ++ rest))) :
    ∃ ws' text, Blanks ws' ∧ o.Entry text value ∧ bs = ws' ++ (text ++ rest) := by
  cases o with
  | list =>
    obtain rfl := Except.ok.inj h
    exact ⟨ws, value, hws, rfl, rfl⟩
  | object =>
    unfold Open.beforeValue at h
    simp only at h
    split at h
    · cases h
    · rename_i hblanks
      obtain ⟨ws₁, hws₁, rfl, -⟩ := skipBlanks_eq_cons hblanks
      split at h
      · rename_i hquote
        subst hquote
        split at h
        · cases h
        · rename_i htext
          obtain ⟨raw, hraw, rfl⟩ := skipText_eq_ok.1 htext
          split at h
          · cases h
          · rename_i hblanks
            obtain ⟨ws₂, hws₂, rfl, -⟩ := skipBlanks_eq_cons hblanks
            split at h
            · rename_i hcolon
              subst hcolon
              obtain rfl := Except.ok.inj h
              exact ⟨ws₁, _, hws₁, ⟨raw, hraw, ws₂, ws, hws₂, hws, rfl⟩, by simp⟩
            · cases h
      · cases h

/-- The value is passed over from before it to behind it, whatever holds it. -/
def Passes (text : Bytes) : Prop :=
  ∃ k ≤ 2 * text.length, ∀ fuel holders ws rest, Blanks ws → Stops rest →
    skipFrom (fuel + k) .value holders (ws ++ (text ++ rest)) =
      skipFrom fuel (.behind true) holders rest

theorem passes_word {text : Bytes} {v : Json} (h : (text, v) ∈ words) : Passes text := by
  obtain ⟨b, bs, rfl, hblank, -⟩ := solid_word h
  refine ⟨1, by simp; omega, fun fuel holders ws rest hws _ => ?_⟩
  have hword : readWord bs (bs ++ rest) = .ok rest := readWord_eq_ok.2 rfl
  rw [List.cons_append, skipFrom]
  simp only [skipBlanks_append hws, skipBlanks_cons hblank, literal?_eq_some.2 h, hword]

theorem passes_number {text : Bytes} (h : IsNumber text) : Passes text := by
  obtain ⟨sign, ds, s, hsign, hw, hs, rfl⟩ := h
  obtain ⟨d, tail, rfl, hdigit, hne, -⟩ := exists_digit hw.1
  refine ⟨1, by simp; omega, fun fuel holders ws rest hws hr => ?_⟩
  have hskip := skipNumber_parts hw hs hr
  simp only [List.mem_cons, List.not_mem_nil, or_false] at hsign
  rcases hsign with rfl | rfl
  · have hstart : startsNumber d = true := by simp [startsNumber, hdigit]
    obtain ⟨hblank, hword, -⟩ := head_of_startsNumber hstart
    have hminus : d ≠ 0x2d := fun h => hne (.inr h)
    simp only [List.cons_append, List.append_assoc] at hskip
    rw [skipFrom]
    simp only [List.nil_append, List.cons_append, List.append_assoc, skipBlanks_append hws,
      skipBlanks_cons hblank, hword, if_neg hminus, hdigit, if_true, hskip]
  · have hminus : isJsonBlank 0x2d = false ∧ literal? 0x2d = none := by decide
    rw [List.append_assoc, skipFrom]
    simp only [List.cons_append, List.nil_append, skipBlanks_append hws, skipBlanks_cons hminus.1,
      hminus.2, if_true]
    simp only [List.cons_append] at hskip
    simp only [hskip]

theorem passes_text {raw : Bytes} (h : Quotable raw) : Passes (0x22 :: (raw ++ [0x22])) := by
  refine ⟨1, by simp; omega, fun fuel holders ws rest hws _ => ?_⟩
  have hquote : isJsonBlank 0x22 = false ∧ literal? 0x22 = none ∧ isDigit 0x22 = false := by decide
  have hminus : (0x22 : UInt8) ≠ 0x2d := by decide
  rw [List.cons_append, List.append_assoc, skipFrom]
  simp only [skipBlanks_append hws, skipBlanks_cons hquote.1, hquote.2.1, hquote.2.2, if_neg hminus,
    Bool.false_eq_true, if_false, if_true, List.singleton_append, skipText_quotable h]

theorem skipFrom_close {o : Open} {ws : Bytes} (hws : Blanks ws) (fuel : Nat) (complete : Bool)
    (holders : List Open) (rest : Bytes) :
    skipFrom (fuel + 1) (.behind complete) (o :: holders) (ws ++ o.closer :: rest) =
      skipFrom fuel (.behind true) holders rest := by
  have hcloser : isJsonBlank o.closer = false ∧ o.closer ≠ 0x2c := by
    cases o <;> decide
  rw [skipFrom]
  simp only [skipBlanks_append hws, skipBlanks_cons hcloser.1, hcloser.2, false_and, if_false,
    if_true]

theorem passes_entries {o : Open} {first : Bool} {body : Bytes} {texts : List Bytes}
    (h : Entries first body texts)
    (he : ∀ text ∈ texts, Solid text ∧ ∃ value, o.Entry text value ∧ Passes value) :
    ∃ k ≤ 2 * body.length + (if first then 2 else 1), ∀ fuel holders rest,
      skipFrom (fuel + k) (.behind (!first)) (o :: holders) (body ++ o.closer :: rest) =
        skipFrom fuel (.behind true) holders rest := by
  induction h with
  | @done first ws hws =>
    refine ⟨1, ?_, fun fuel => skipFrom_close hws fuel (!first)⟩
    split <;> omega
  | @more first lead text body texts hlead hmore ih =>
    obtain ⟨hsolid, value, hentry, k, hk, hvalue⟩ := he text List.mem_cons_self
    obtain ⟨k', hk', hrest⟩ := ih fun text ht => he text (List.mem_cons_of_mem _ ht)
    rw [if_neg Bool.false_ne_true] at hk'
    have hlength := hentry.length_le
    cases hlead with
    | first hws =>
      obtain ⟨ws', hws', hbefore⟩ := Open.beforeValue_entry hentry Blanks.nil
      refine ⟨k' + k + 1, ?_, fun fuel holders rest => ?_⟩
      · simp only [List.length_append, if_true]
        omega
      · obtain ⟨b, bs, rfl, hblank, hends⟩ := hsolid
        have hclose : b ≠ o.closer := by
          cases o
          · exact hends.1
          · exact hends.2
        have hstops : Stops (body ++ o.closer :: rest) := hmore.stops rest
        rw [← Nat.add_assoc, ← Nat.add_assoc, skipFrom]
        simp only [List.nil_append, List.cons_append] at hbefore
        simp only [List.append_assoc, List.cons_append, skipBlanks_append hws,
          skipBlanks_cons hblank, Bool.not_true, Bool.false_eq_true, and_false, if_false,
          if_neg hclose, hbefore, hvalue _ _ _ _ hws' hstops]
        exact hrest fuel holders rest
    | other hws hws' =>
      obtain ⟨ws'', hws'', hbefore⟩ := Open.beforeValue_entry hentry hws'
      refine ⟨k' + k + 1, ?_, fun fuel holders rest => ?_⟩
      · simp only [List.length_append, List.length_cons, Bool.false_eq_true, if_false]
        omega
      · have hcomma : isJsonBlank 0x2c = false := by decide
        have hstops : Stops (body ++ o.closer :: rest) := hmore.stops rest
        rw [← Nat.add_assoc, ← Nat.add_assoc, skipFrom]
        simp only [List.append_assoc, List.cons_append, skipBlanks_append hws,
          skipBlanks_cons hcomma, Bool.not_false, and_self, if_true, hbefore,
          hvalue _ _ _ _ hws'' hstops]
        exact hrest fuel holders rest

theorem Value.passes {text : Bytes} (h : Value IsNumber text) : Passes text := by
  induction h with
  | word hw => exact passes_word hw
  | number hn => exact passes_number hn
  | text hraw => exact passes_text hraw
  | @nest o inner texts values hrow hentries hvalues ih =>
    have he : ∀ text ∈ texts, Solid text ∧ ∃ value, o.Entry text value ∧ Passes value := by
      intro text ht
      obtain ⟨value, hv, hentry⟩ := exists_of_forall₂ hentries ht
      exact ⟨hentry.solid ((hvalues value hv).solid), value, hentry, ih value hv⟩
    obtain ⟨k, hk, hinner⟩ := passes_entries hrow he
    rw [if_pos rfl] at hk
    refine ⟨k + 1, ?_, fun fuel holders ws rest hws hr => ?_⟩
    · simp only [List.length_append, List.length_cons, List.length_nil]
      omega
    · have hopen : isJsonBlank o.opener = false ∧ literal? o.opener = none ∧
          isDigit o.opener = false := by
        cases o <;> decide
      have hother : o.opener ≠ 0x2d ∧ o.opener ≠ 0x22 := by cases o <;> decide
      have hbehind : skipFrom (fuel + (k + 1)) .value holders
          (ws ++ (o.opener :: (inner ++ [o.closer]) ++ rest)) =
            skipFrom (fuel + k) (.behind false) (o :: holders) (inner ++ o.closer :: rest) := by
        rw [← Nat.add_assoc, skipFrom]
        simp only [List.cons_append, List.append_assoc, List.nil_append, skipBlanks_append hws,
          skipBlanks_cons hopen.1, hopen.2.1, hopen.2.2, if_neg hother.1, if_neg hother.2,
          Bool.false_eq_true, if_false]
        cases o
        · rfl
        · exact if_neg (by decide)
      rw [hbehind]
      exact hinner fuel holders rest

theorem scalar_cases {fuel : Nat} {holders : List Open} {e : Except Fault Bytes} {rest : Bytes}
    (h : (match e with
      | .error e => .error e
      | .ok rest => skipFrom fuel (.behind true) holders rest) = Except.ok rest) :
    ∃ bs, e = .ok bs ∧ skipFrom fuel (.behind true) holders bs = .ok rest := by
  cases e with
  | error => cases h
  | ok bs => exact ⟨bs, rfl, h⟩

/-- Before a value, a value without parts is passed over, or a list or an object is opened. -/
theorem skipFrom_value_cases {fuel : Nat} {holders : List Open} {bs rest : Bytes}
    (h : skipFrom (fuel + 1) .value holders bs = .ok rest) : ∃ ws, Blanks ws ∧
      ((∃ text bs', Value IsNumber text ∧ bs = ws ++ (text ++ bs') ∧
        skipFrom fuel (.behind true) holders bs' = .ok rest) ∨
      ∃ o r, bs = ws ++ Open.opener o :: r ∧
        skipFrom fuel (.behind false) (o :: holders) r = .ok rest) := by
  rw [skipFrom] at h
  split at h
  · cases h
  · rename_i b r hblanks
    obtain ⟨ws, hws, rfl, -⟩ := skipBlanks_eq_cons hblanks
    refine ⟨ws, hws, ?_⟩
    simp only at h
    split at h
    · rename_i word v hword
      obtain ⟨bs', hread, hrest⟩ := scalar_cases h
      obtain rfl := readWord_eq_ok.1 hread
      exact .inl ⟨_, bs', .word (literal?_eq_some.1 hword), rfl, hrest⟩
    · split at h
      · rename_i hminus
        obtain ⟨bs', hskip, hrest⟩ := scalar_cases h
        obtain ⟨ds, s, hw, hs, rfl⟩ := parts_of_skipNumber hskip
        exact .inl ⟨_, bs', .number ⟨[0x2d], ds, s, by simp, hw, hs, rfl⟩, by simp [hminus], hrest⟩
      · split at h
        · obtain ⟨bs', hskip, hrest⟩ := scalar_cases h
          obtain ⟨ds, s, hw, hs, hbytes⟩ := parts_of_skipNumber hskip
          exact .inl ⟨_, bs', .number ⟨[], ds, s, by simp, hw, hs, rfl⟩, by simp [hbytes], hrest⟩
        · split at h
          · rename_i hquote
            obtain ⟨bs', hskip, hrest⟩ := scalar_cases h
            obtain ⟨raw, hraw, rfl⟩ := skipText_eq_ok.1 hskip
            exact .inl ⟨_, bs', .text hraw, by simp [hquote], hrest⟩
          · split at h
            · rename_i hopen
              exact .inr ⟨.list, r, by rw [hopen]; rfl, h⟩
            · split at h
              · rename_i hopen
                exact .inr ⟨.object, r, by rw [hopen]; rfl, h⟩
              · cases h

/-- Inside a list or an object, it is closed, or the next entry begins. -/
theorem skipFrom_behind_cases {fuel : Nat} {complete : Bool} {o : Open} {holders : List Open}
    {bs rest : Bytes} (h : skipFrom (fuel + 1) (.behind complete) (o :: holders) bs = .ok rest) :
    (∃ ws r, Blanks ws ∧ bs = ws ++ o.closer :: r ∧
      skipFrom fuel (.behind true) holders r = .ok rest) ∨
    ∃ lead r mid, Lead (!complete) lead ∧ bs = lead ++ r ∧ o.beforeValue r = .ok mid ∧
      skipFrom fuel .value (o :: holders) mid = .ok rest := by
  have hnext : ∀ {r : Bytes}, (match o.beforeValue r with
      | .error e => .error e
      | .ok rest => skipFrom fuel .value (o :: holders) rest) = Except.ok rest →
      ∃ mid, o.beforeValue r = .ok mid ∧ skipFrom fuel .value (o :: holders) mid = .ok rest := by
    intro r h
    split at h
    · cases h
    · rename_i mid hmid
      exact ⟨mid, hmid, h⟩
  rw [skipFrom] at h
  split at h
  · cases h
  · rename_i b r hblanks
    obtain ⟨ws, hws, rfl, -⟩ := skipBlanks_eq_cons hblanks
    simp only at h
    split at h
    · rename_i hcomma
      obtain ⟨mid, hmid, hrest⟩ := hnext h
      refine .inr ⟨ws ++ [b], r, mid, ?_, by simp, hmid, hrest⟩
      rw [hcomma.1, hcomma.2]
      exact .other hws Blanks.nil
    · split at h
      · rename_i hclose
        exact .inl ⟨ws, r, hws, by rw [hclose], h⟩
      · split at h
        · cases h
        · rename_i hfirst
          obtain ⟨mid, hmid, hrest⟩ := hnext h
          refine .inr ⟨ws, b :: r, mid, ?_, rfl, hmid, hrest⟩
          rw [Bool.eq_false_iff.2 hfirst]
          exact .first hws

/-- What a run has taken up when it stands before a value, and when it stands behind one or behind
an opening bracket. -/
theorem skipFrom_sound (fuel : Nat) :
    (∀ holders bs rest, skipFrom fuel .value holders bs = .ok rest → ∃ k < fuel, ∃ ws text bs',
      Blanks ws ∧ Value IsNumber text ∧ bs = ws ++ (text ++ bs') ∧
      skipFrom k (.behind true) holders bs' = .ok rest) ∧
    ∀ complete o holders bs rest, skipFrom fuel (.behind complete) (o :: holders) bs = .ok rest →
      ∃ k < fuel, ∃ body texts values bs', Entries (!complete) body texts ∧
      List.Forall₂ o.Entry texts values ∧ (∀ value ∈ values, Value IsNumber value) ∧
      bs = body ++ o.closer :: bs' ∧ skipFrom k (.behind true) holders bs' = .ok rest := by
  induction fuel using Nat.strong_induction_on with
  | _ fuel ih =>
    cases fuel with
    | zero => exact ⟨fun _ _ _ h => (nomatch h), fun _ _ _ _ _ h => (nomatch h)⟩
    | succ fuel =>
      obtain ⟨ihvalue, ihbehind⟩ := ih fuel (Nat.lt_succ_self fuel)
      constructor
      · intro holders bs rest h
        obtain ⟨ws, hws, hcase⟩ := skipFrom_value_cases h
        rcases hcase with ⟨text, bs', ht, rfl, hrest⟩ | ⟨o, r, rfl, hopen⟩
        · exact ⟨fuel, Nat.lt_succ_self fuel, ws, text, bs', hws, ht, rfl, hrest⟩
        · obtain ⟨k, hk, inner, texts, values, bs', hrow, hentries, hvalues, rfl, hrest⟩ :=
            ihbehind false o holders r rest hopen
          exact ⟨k, by omega, ws, _, bs', hws, .nest hrow hentries hvalues, by simp, hrest⟩
      · intro complete o holders bs rest h
        rcases skipFrom_behind_cases h with
          ⟨ws, r, hws, rfl, hrest⟩ | ⟨lead, r, mid, hlead, rfl, hmid, hentered⟩
        · exact ⟨fuel, Nat.lt_succ_self fuel, ws, [], [], r, .done hws, .nil, by simp, rfl, hrest⟩
        · obtain ⟨k, hk, ws, value, bs', hws, hvalue, rfl, hbehind⟩ := ihvalue _ _ _ hentered
          obtain ⟨ws', text, hws', hentry, rfl⟩ := Open.entry_of_beforeValue hws hmid
          obtain ⟨k', hk', body, texts, values, bs'', hmore, hentries, hvalues, rfl, hrest⟩ :=
            (ih k (by omega)).2 true o holders bs' rest hbehind
          exact ⟨k', by omega, (lead ++ ws') ++ (text ++ body), _, _, bs'',
            .more (hlead.append hws') hmore, .cons hentry hentries,
            List.forall_mem_cons.2 ⟨hvalue, hvalues⟩, by simp, hrest⟩

theorem skipValue_eq_ok {bs rest : Bytes} (hr : Stops rest) : skipValue bs = .ok rest ↔
    ∃ ws text, Blanks ws ∧ Value IsNumber text ∧ bs = ws ++ (text ++ rest) := by
  constructor
  · intro h
    obtain ⟨k, -, ws, text, bs', hws, ht, rfl, hrest⟩ := (skipFrom_sound _).1 [] bs rest h
    cases k with
    | zero => cases hrest
    | succ k =>
      rw [skipFrom_behind_nil] at hrest
      obtain rfl := Except.ok.inj hrest
      exact ⟨ws, text, hws, ht, rfl⟩
  · intro h
    obtain ⟨ws, text, hws, ht, rfl⟩ := h
    obtain ⟨k, hk, hpass⟩ := ht.passes
    obtain ⟨fuel, hfuel⟩ : ∃ fuel, 2 * (ws ++ (text ++ rest)).length + 2 = fuel + 1 + k := by
      refine ⟨2 * (ws ++ (text ++ rest)).length + 1 - k, ?_⟩
      simp only [List.length_append]
      omega
    rw [skipValue, hfuel, hpass _ _ _ _ hws hr, skipFrom_behind_nil]

end EventPost.Json
