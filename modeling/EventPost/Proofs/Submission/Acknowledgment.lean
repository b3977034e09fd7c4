import EventPost.Proofs.Json.Written
import EventPost.Submission.Acknowledgment

/-!
The answers that acknowledge an event. Of an object the two members are looked for, each of them
once, and the others are passed over; of a list there are just the two. Every other answer is kept
as a text in the failure that it comes to.
-/

namespace EventPost.Acknowledgment

open Json
open Text (Bytes bytesOf encode encode_append)

def Taken (p : Partial) (m : String × Bytes) (next : Partial) : Prop :=
  if m.1 = "accepted" then
    p.accepted = none ∧ ∃ n, IsWord m.2 n ∧ next = ⟨some n, p.eventIds⟩
  else if m.1 = "event_ids" then
    p.eventIds = none ∧ ∃ ids, IsTextList m.2 ids ∧ next = ⟨p.accepted, some ids⟩
  else Value IsNumber m.2 ∧ next = p

theorem memberDepth_ne_zero : memberDepth ≠ 0 := by decide

theorem passedBehind_eq_ok {p next : Partial} {bs rest : Bytes} (hr : Stops rest) :
    (match readColon bs with
      | .error e => .error e
      | .ok bs =>
        match skipValue bs with
        | .error e => .error e
        | .ok rest => .ok (p, rest)) = Except.ok (next, rest) ↔
      ∃ ws ws' value, Blanks ws ∧ Blanks ws' ∧ (Value IsNumber value ∧ next = p) ∧
        bs = ws ++ 0x3a :: (ws' ++ (value ++ rest)) := by
  constructor
  · intro h
    split at h
    · cases h
    · rename_i hcolon
      split at h
      · cases h
      · rename_i hskip
        obtain ⟨rfl, rfl⟩ := Prod.mk.inj (Except.ok.inj h)
        obtain ⟨ws, hws, rfl⟩ := readColon_eq_ok.1 hcolon
        obtain ⟨ws', value, hws', hvalue, rfl⟩ := (skipValue_eq_ok hr).1 hskip
        exact ⟨ws, ws', value, hws, hws', ⟨hvalue, rfl⟩, rfl⟩
  · intro h
    obtain ⟨ws, ws', value, hws, hws', ⟨hvalue, rfl⟩, rfl⟩ := h
    rw [readColon_eq_ok.2 ⟨ws, hws, rfl⟩]
    simp only
    rw [(skipValue_eq_ok hr).2 ⟨ws', value, hws', hvalue, rfl⟩]

theorem readMember_eq_ok {p next : Partial} {key : String} {bs rest : Bytes} (hr : Stops rest) :
    readMember p key bs = .ok (next, rest) ↔ ∃ ws ws' value, Blanks ws ∧ Blanks ws' ∧
      Taken p (key, value) next ∧ bs = ws ++ 0x3a :: (ws' ++ (value ++ rest)) := by
  obtain ⟨count, ids⟩ := p
  unfold readMember Taken
  by_cases hcount : key = "accepted"
  · simp only [if_pos hcount]
    cases count with
    | some n => simp [fail]
    | none =>
      simp only [Option.isSome_none, Bool.false_eq_true, if_false, true_and]
      refine Iff.trans ?_ (putBehind_eq_ok reads_wordField (fun n => ⟨some n, ids⟩) bs next hr)
      cases readColon bs with
      | error => rfl
      | ok bs =>
        dsimp only
        cases wordField bs <;> rfl
  · by_cases hids : key = "event_ids"
    · simp only [if_neg hcount, if_pos hids]
      cases ids with
      | some ids => simp [fail]
      | none =>
        simp only [Option.isSome_none, Bool.false_eq_true, if_false, true_and]
        refine Iff.trans ?_ (putBehind_eq_ok (reads_textListField memberDepth_ne_zero)
          (fun ids => ⟨count, some ids⟩) bs next hr)
        cases readColon bs with
        | error => rfl
        | ok bs =>
          dsimp only
          cases textListField memberDepth bs <;> rfl
    · simp only [if_neg hcount, if_neg hids, Bool.false_eq_true, if_false]
      exact passedBehind_eq_ok hr

/-- What a run over the members finds: each field in the one member of its name. -/
theorem runs_taken {p q : Partial} {ms : List (String × Bytes)} : Runs Taken p ms q ↔
    Filled IsWord (valuesOf "accepted" ms) p.accepted q.accepted ∧
    Filled IsTextList (valuesOf "event_ids" ms) p.eventIds q.eventIds ∧
    ∀ m ∈ ms, m.1 ≠ "accepted" → m.1 ≠ "event_ids" → Value IsNumber m.2 := by
  induction ms generalizing p with
  | nil =>
    constructor
    · intro h
      cases h
      exact ⟨.kept, .kept, fun _ hm => absurd hm List.not_mem_nil⟩
    · intro h
      obtain ⟨count, ids⟩ := p
      obtain ⟨count', ids'⟩ := q
      obtain ⟨hcount, hids, -⟩ := h
      cases hcount
      cases hids
      exact .done
  | cons m ms ih =>
    obtain ⟨key, value⟩ := m
    rw [runs_cons, List.forall_mem_cons]
    unfold Taken
    by_cases hcount : key = "accepted"
    · subst hcount
      rw [valuesOf_self, valuesOf_other (by decide), filled_cons]
      simp only [if_true, ne_eq, not_true_eq_false, false_imp_iff, true_and]
      constructor
      · intro h
        obtain ⟨_, ⟨hnone, n, hn, rfl⟩, hrun⟩ := h
        obtain ⟨hfirst, hrest⟩ := ih.1 hrun
        exact ⟨⟨hnone, n, hn, hfirst⟩, hrest⟩
      · intro h
        obtain ⟨⟨hnone, n, hn, hfirst⟩, hrest⟩ := h
        exact ⟨_, ⟨hnone, n, hn, rfl⟩, ih.2 ⟨hfirst, hrest⟩⟩
    · by_cases hids : key = "event_ids"
      · subst hids
        rw [valuesOf_self, valuesOf_other (by decide), filled_cons]
        simp only [if_neg hcount, if_true, ne_eq, not_true_eq_false, false_imp_iff, implies_true,
          true_and]
        constructor
        · intro h
          obtain ⟨_, ⟨hnone, ids, hids, rfl⟩, hrun⟩ := h
          obtain ⟨hfirst, hsecond, hrest⟩ := ih.1 hrun
          exact ⟨hfirst, ⟨hnone, ids, hids, hsecond⟩, hrest⟩
        · intro h
          obtain ⟨hfirst, ⟨hnone, ids, hids, hsecond⟩, hrest⟩ := h
          exact ⟨_, ⟨hnone, ids, hids, rfl⟩, ih.2 ⟨hfirst, hsecond, hrest⟩⟩
      · rw [valuesOf_other hcount, valuesOf_other hids]
        simp only [ne_eq, hcount, hids, not_false_eq_true, true_imp_iff, if_false]
        constructor
        · intro h
          obtain ⟨_, ⟨hvalue, rfl⟩, hrun⟩ := h
          obtain ⟨hfirst, hsecond, hrest⟩ := ih.1 hrun
          exact ⟨hfirst, hsecond, hvalue, hrest⟩
        · intro h
          obtain ⟨hfirst, hsecond, hvalue, hrest⟩ := h
          exact ⟨p, ⟨hvalue, rfl⟩, ih.2 ⟨hfirst, hsecond, hrest⟩⟩

/-- The texts that stand for an acknowledgment. -/
inductive Form (a : Acknowledgment) : Bytes → Prop
  | object {text count ids : Bytes} {ms : List (String × Bytes)} : IsObject IsNumber text ms →
    valuesOf "accepted" ms = [count] → valuesOf "event_ids" ms = [ids] →
    IsWord count a.accepted → IsTextList ids a.eventIds → Form a text
  | pair {inner count ids : Bytes} : Row inner [count, ids] → IsWord count a.accepted →
    IsTextList ids a.eventIds → Form a (0x5b :: (inner ++ [0x5d]))

theorem Form.value {a : Acknowledgment} {text : Bytes} (h : Form a text) :
    Value IsNumber text := by
  cases h with
  | object hobject => exact hobject.value
  | pair hrow hcount hids =>
    refine .list hrow fun text ht => ?_
    simp only [List.mem_cons, List.not_mem_nil, or_false] at ht
    rcases ht with rfl | rfl
    · exact hcount.value
    · exact hids.value

theorem beforeItem_eq_ok {length : Nat} {bs text : Bytes} : beforeItem length bs = .ok text ↔
    nextEntry 0x5d (length = 0) bs = some (.inr text) := by
  unfold beforeItem nextEntry
  cases skipBlanks bs with
  | nil => simp [failAt]
  | cons b r =>
    by_cases hclose : b = 0x5d
    · simp [hclose, fail]
    · by_cases hfirst : length = 0
      · simp [hclose, hfirst]
      · by_cases hcomma : b = 0x2c
        · simp only [if_neg hclose, if_neg hfirst, if_pos hcomma, decide_eq_true_eq]
          cases skipBlanks r with
          | nil => simp [failAt]
          | cons c r =>
            by_cases hc : c = 0x5d
            · simp [hc, failAt]
            · simp [hc]
        · simp [hclose, hfirst, hcomma, failAt]

theorem closeList_eq_ok {bs rest : Bytes} :
    closeList bs = .ok rest ↔ ∃ ws, Blanks ws ∧ bs = ws ++ 0x5d :: rest := by
  constructor
  · intro h
    unfold closeList at h
    split at h
    · cases h
    · rename_i hblanks
      obtain ⟨ws, hws, rfl, -⟩ := skipBlanks_eq_cons hblanks
      split at h
      · rename_i hclose
        obtain rfl := Except.ok.inj h
        exact ⟨ws, hws, by rw [hclose]⟩
      · split at h
        · split at h
          · split at h <;> cases h
          · cases h
        · cases h
  · intro h
    obtain ⟨ws, hws, rfl⟩ := h
    have hclose : isJsonBlank 0x5d = false := by decide
    simp only [closeList, skipBlanks_append hws, skipBlanks_cons hclose, if_true]

theorem beforeItem_lead {length : Nat} {bs text : Bytes} (h : beforeItem length bs = .ok text) :
    ∃ lead, Lead (length = 0) lead ∧ bs = lead ++ text := by
  rcases nextEntry_cases (o := .list) (beforeItem_eq_ok.1 h) with
    ⟨_, _, _, _, hr⟩ | ⟨lead, text', hlead, hbytes, hr⟩
  · cases hr
  · obtain rfl := Sum.inr.inj hr
    exact ⟨lead, hlead, hbytes⟩

theorem beforeItem_of_lead (length : Nat) {lead text : Bytes} (hlead : Lead (length = 0) lead)
    (ht : Solid text) (rest : Bytes) :
    beforeItem length (lead ++ (text ++ rest)) = .ok (text ++ rest) :=
  beforeItem_eq_ok.2 (nextEntry_more (o := .list) hlead ht rest)

theorem readPair_eq_ok {a : Acknowledgment} {bs rest : Bytes} :
    readPair bs = .ok (a, rest) ↔ ∃ inner count ids, Row inner [count, ids] ∧
      IsWord count a.accepted ∧ IsTextList ids a.eventIds ∧ bs = inner ++ 0x5d :: rest := by
  simp only [readPair, bind_eq_ok, Prod.exists]
  constructor
  · intro h
    obtain ⟨bs₁, hfirst, n, bs₂, hcount, bs₃, hsecond, strings, bs₄, hids, bs₅, hclose, hr⟩ := h
    obtain ⟨rfl, rfl⟩ := Prod.mk.inj (Except.ok.inj hr)
    -- What stops a value is found behind it, so the list is taken apart from its end.
    obtain ⟨ws, hws, rfl⟩ := closeList_eq_ok.1 hclose
    have hend : Entries false ws [] := .done hws
    obtain ⟨ws₃, ids, hws₃, ht₃, rfl⟩ :=
      (reads_textListField memberDepth_ne_zero _ _ _ (hend.stops (o := .list) bs₅)).1 hids
    obtain ⟨lead₂, hlead₂, rfl⟩ := beforeItem_lead hsecond
    have hrest : Entries false ((lead₂ ++ ws₃) ++ (ids ++ ws)) [ids] :=
      .more (hlead₂.append hws₃) hend
    have hstops := hrest.stops (o := .list) bs₅
    simp only [Open.closer, List.append_assoc] at hstops
    obtain ⟨ws₁, count, hws₁, ht₁, rfl⟩ := (reads_wordField _ _ _ hstops).1 hcount
    obtain ⟨lead₁, hlead₁, rfl⟩ := beforeItem_lead hfirst
    exact ⟨_, count, ids, .more (hlead₁.append hws₁) hrest, ht₁, ht₃, by simp⟩
  · intro h
    obtain ⟨inner, count, ids, hrow, hcount, hids, rfl⟩ := h
    cases hrow with
    | @more _ lead₁ _ body₁ _ hlead₁ hrest =>
      have hstops := hrest.stops (o := .list) rest
      cases hrest with
      | @more _ lead₂ _ body₂ _ hlead₂ hend =>
        have hstops' := hend.stops (o := .list) rest
        cases hend with
        | done hws =>
          simp only [List.append_assoc] at hstops ⊢
          exact ⟨_, beforeItem_of_lead 0 hlead₁ hcount.value.solid _, a.accepted, _,
            (reads_wordField _ _ _ hstops).2 ⟨[], count, Blanks.nil, hcount, rfl⟩,
            _, beforeItem_of_lead 1 hlead₂ hids.value.solid _, a.eventIds, _,
            (reads_textListField memberDepth_ne_zero _ _ _ hstops').2
              ⟨[], ids, Blanks.nil, hids, rfl⟩,
            rest, closeList_eq_ok.2 ⟨_, hws, rfl⟩, rfl⟩

theorem finish_eq_ok {p : Partial} {a : Acknowledgment} {rest rest' : Bytes} :
    p.finish rest = .ok (a, rest') ↔ p = ⟨some a.accepted, some a.eventIds⟩ ∧ rest = rest' := by
  obtain ⟨count, ids⟩ := p
  obtain ⟨n, strings⟩ := a
  cases count <;> cases ids <;> simp [Partial.finish, fail, and_assoc]

theorem readObject_eq_ok {a : Acknowledgment} {r rest : Bytes} :
    foldMembers readMember r.length true ⟨none, none⟩ r =
        .ok (⟨some a.accepted, some a.eventIds⟩, rest) ↔
      ∃ inner texts ms count ids, Row inner texts ∧ List.Forall₂ Named texts ms ∧
        (∀ m ∈ ms, Value IsNumber m.2) ∧ valuesOf "accepted" ms = [count] ∧
        valuesOf "event_ids" ms = [ids] ∧ IsWord count a.accepted ∧ IsTextList ids a.eventIds ∧
        r = inner ++ 0x7d :: rest := by
  rw [foldMembers_eq_ok (T := Taken) readMember_eq_ok]
  simp only [runs_taken, filled_once]
  constructor
  · intro h
    obtain ⟨inner, texts, ms, hrow, hnamed, ⟨hcount, hids, hothers⟩, rfl⟩ := h
    obtain ⟨count, hcounts, hcount⟩ := hcount
    obtain ⟨ids, hlists, hids⟩ := hids
    refine ⟨inner, texts, ms, count, ids, hrow, hnamed, fun m hm => ?_, hcounts, hlists, hcount,
      hids, rfl⟩
    by_cases hk : m.1 = "accepted"
    · have hmem := mem_valuesOf hm hk
      rw [hcounts, List.mem_singleton] at hmem
      exact hmem ▸ hcount.value
    · by_cases hk' : m.1 = "event_ids"
      · have hmem := mem_valuesOf hm hk'
        rw [hlists, List.mem_singleton] at hmem
        exact hmem ▸ hids.value
      · exact hothers m hm hk hk'
  · intro h
    obtain ⟨inner, texts, ms, count, ids, hrow, hnamed, hvalues, hcounts, hlists, hcount, hids,
      rfl⟩ := h
    exact ⟨inner, texts, ms, hrow, hnamed, ⟨⟨count, hcounts, hcount⟩, ⟨ids, hlists, hids⟩,
      fun m hm _ _ => hvalues m hm⟩, rfl⟩

theorem reads_acknowledgment : Reads read fun text a => Form a text := by
  refine reads_of_head (fun bs => ?_) ?_ Form.value ?_
  · rw [read, skipBlanks_skipBlanks, read]
  · intro x h
    cases h
  · intro b r a rest hb hr
    rw [read, skipBlanks_cons hb]
    dsimp only
    constructor
    · intro h
      split at h
      · rename_i hopen
        subst hopen
        obtain ⟨inner, count, ids, hrow, hcount, hids, rfl⟩ := readPair_eq_ok.1 h
        exact ⟨inner ++ [0x5d], .pair hrow hcount hids, by simp⟩
      · split at h
        · rename_i hopen
          subst hopen
          split at h
          · cases h
          · rename_i hmembers
            obtain ⟨rfl, rfl⟩ := finish_eq_ok.1 h
            obtain ⟨inner, texts, ms, count, ids, hrow, hnamed, hvalues, hcounts, hlists, hcount,
              hids, rfl⟩ := readObject_eq_ok.1 hmembers
            exact ⟨inner ++ [0x7d], .object ⟨inner, texts, hrow, hnamed, hvalues, rfl⟩ hcounts
              hlists hcount hids, by simp⟩
        · exact absurd h (wrongKind_ne_ok _ _ _ _)
    · intro h
      obtain ⟨bs, hform, rfl⟩ := h
      generalize htext : b :: bs = text at hform
      cases hform with
      | object hobject hcounts hlists hcount hids =>
        obtain ⟨inner, texts, hrow, hnamed, hvalues, rfl⟩ := hobject
        obtain ⟨rfl, rfl⟩ := List.cons.inj htext
        rw [if_neg (by decide), if_pos rfl, readObject_eq_ok.2 ⟨inner, texts, _, _, _, hrow,
          hnamed, hvalues, hcounts, hlists, hcount, hids, List.append_assoc ..⟩]
        rfl
      | pair hrow hcount hids =>
        obtain ⟨rfl, rfl⟩ := List.cons.inj htext
        rw [if_pos rfl]
        exact readPair_eq_ok.2 ⟨_, _, _, hrow, hcount, hids, List.append_assoc ..⟩

theorem form_members {a : Acknowledgment} {gap ws close count ids : Bytes} (hgap : Blanks gap)
    (hws : Blanks ws) (hclose : Blanks close) (hcount : IsWord count a.accepted)
    (hids : IsTextList ids a.eventIds) :
    Form a (0x7b :: (gap ++ (encode (writeText "accepted") ++ 0x3a :: (ws ++ count) ++
      (0x2c :: gap ++ (encode (writeText "event_ids") ++ 0x3a :: (ws ++ ids) ++ close))) ++
      [0x7d])) := by
  refine .object ⟨_, _, .more (.first hgap) (.more (.other Blanks.nil hgap) (.done hclose)),
    .cons (named_written _ hws count) (.cons (named_written _ hws ids) .nil), fun m hm => ?_, rfl⟩
    rfl rfl hcount hids
  simp only [List.mem_cons, List.not_mem_nil, or_false] at hm
  rcases hm with rfl | rfl
  · exact hcount.value
  · exact hids.value

theorem form_compact (a : Acknowledgment) : Form a (bytesOf a.toJson.compact) := by
  have hform := form_members Blanks.nil Blanks.nil Blanks.nil (isWord_written a.accepted)
    (isTextList_written a.eventIds)
  rw [compact, bytesOf, String.toList_ofList, toJson, write, writeMembers, writeMembers]
  have hnil : encode [] = [] := rfl
  simpa [encode_append, encode_mark, hnil] using hform

theorem form_pretty (a : Acknowledgment) : Form a (bytesOf a.toJson.pretty) := by
  have hspace : Blanks [0x20] := List.forall_mem_singleton.2 rfl
  have hform := form_members (blanks_lineAt 1) hspace (blanks_lineAt 0) (isWord_written a.accepted)
    (isTextList_pretty 1 a.eventIds)
  have hcount : (ofWord a.accepted).writePretty 1 = (ofWord a.accepted).write := by
    rw [ofWord, writePretty, write]
  rw [pretty, bytesOf, String.toList_ofList, toJson, writePretty, writePrettyMembers,
    writePrettyMembers, hcount]
  have hnil : encode [] = [] := rfl
  simpa [encode_append, encode_mark, hnil] using hform

theorem ofBody_eq_ok {bytes : Bytes} {a : Acknowledgment} :
    ofBody bytes = .ok a ↔ 1 ≤ a.accepted ∧ Alone (Form a) bytes := by
  have hpos : 1 ≤ a.accepted ↔ a.accepted ≠ 0 := by
    rw [UInt64.le_iff_toNat_le, ne_eq, ← UInt64.toNat_inj]
    exact Nat.one_le_iff_ne_zero
  rw [hpos, ← readWhole_eq_ok reads_acknowledgment, ofBody, decode]
  cases readWhole read bytes with
  | error e => simp
  | ok a' =>
    by_cases hzero : a'.accepted = 0
    · simpa [hzero] using fun hne h => hne (h ▸ hzero)
    · simp only [if_neg hzero, Except.ok.injEq]
      exact ⟨fun h => ⟨h ▸ hzero, h⟩, fun h => h.2⟩

theorem decode_of_ofBody_eq_error {bytes : Bytes} {failure : Failure}
    (h : ofBody bytes = .error failure) :
    ∃ message, failure = .decode message (Text.decodeLossy bytes) := by
  unfold ofBody at h
  split at h
  · exact ⟨_, (Except.error.inj h).symm⟩
  · split at h
    · exact ⟨_, (Except.error.inj h).symm⟩
    · cases h

/-- A body acknowledges an event if it has the form of an acknowledgment that counts one, with
blanks around it and nothing else. Members that it has besides may be whatever is read as a value. A
body that does not is kept with the failure, as it is if it is a text. -/
theorem ofBody_exact (a : Acknowledgment) (bytes : Bytes) :
    (ofBody bytes = .ok a ↔ 1 ≤ a.accepted ∧ Alone (Form a) bytes) ∧
    (∀ text v, Json.parse text = .ok v → Alone (Value IsNumber) text) ∧
    (1 ≤ a.accepted → ofBody (bytesOf a.toJson.compact) = .ok a ∧
      ofBody (bytesOf a.toJson.pretty) = .ok a) ∧
    (∀ failure, ofBody bytes = .error failure →
      ∃ message, failure = .decode message (Text.decodeLossy bytes)) ∧
    ∀ s, Text.decodeLossy (bytesOf s) = s := by
  have halone : ∀ {text : Bytes}, Form a text → Alone (Form a) text := fun h =>
    ⟨[], _, [], Blanks.nil, Blanks.nil, h, (List.append_nil _).symm⟩
  refine ⟨ofBody_eq_ok, fun _ _ => value_of_parse, fun hpos => ⟨?_, ?_⟩,
    fun _ => decode_of_ofBody_eq_error, Text.decodeLossy_bytesOf⟩
  · exact ofBody_eq_ok.2 ⟨hpos, halone (form_compact a)⟩
  · exact ofBody_eq_ok.2 ⟨hpos, halone (form_pretty a)⟩

end EventPost.Acknowledgment
