import EventPost.Proofs.Event.RoundTrip
import EventPost.Proofs.Json.Unambiguity

/-!
An event has one text, and a text one event. Which member of a text becomes what is settled by its
name alone: a core field is the one string member of its name, and what all the other members leave
behind is a table. An event that is read from integers is read again from its own text.
-/

namespace EventPost.Event

open Json
open Text (Bytes bytesOf)

theorem present_eq_ok {held : Option String} {name s : String} : (match held with
    | some s => Except.ok s
    | none => .error name) = .ok s ↔ held = some s := by
  cases held <;> simp

theorem finish_eq_ok {p : Partial} {e : Event} : p.finish = .ok e ↔
    (∀ name ∈ coreFields, p.core.lookup name = e.coreTexts.lookup name) ∧
      e.fields = .ofList p.others.reverse := by
  have hform : p.finish = .ok e ↔ ∃ id, p.core.lookup "id" = some id ∧
      ∃ eventType, p.core.lookup "event_type" = some eventType ∧
      ∃ source, p.core.lookup "source" = some source ∧
      ∃ priority, p.core.lookup "priority" = some priority ∧
      ∃ title, p.core.lookup "title" = some title ∧
      ∃ timestamp, p.core.lookup "timestamp" = some timestamp ∧
      ⟨id, eventType, source, priority, title, timestamp, .ofList p.others.reverse⟩ = e := by
    simp only [Partial.finish, bind_eq_ok]
    exact exists_congr fun _ => and_congr present_eq_ok <|
      exists_congr fun _ => and_congr present_eq_ok <|
      exists_congr fun _ => and_congr present_eq_ok <|
      exists_congr fun _ => and_congr present_eq_ok <|
      exists_congr fun _ => and_congr present_eq_ok <|
      exists_congr fun _ => and_congr present_eq_ok <| iff_of_eq (Except.ok.injEq ..)
  rw [hform]
  constructor
  · intro h
    obtain ⟨_, hid, _, htype, _, hsource, _, hpriority, _, htitle, _, hstamp, rfl⟩ := h
    refine ⟨?_, rfl⟩
    simp only [coreFields, List.forall_mem_cons]
    exact ⟨hid, htype, hsource, hpriority, htitle, hstamp, List.forall_mem_nil _⟩
  · intro h
    obtain ⟨hcore, hfields⟩ := h
    simp only [coreFields, List.forall_mem_cons] at hcore
    obtain ⟨hid, htype, hsource, hpriority, htitle, hstamp, -⟩ := hcore
    exact ⟨_, hid, _, htype, _, hsource, _, hpriority, _, htitle, _, hstamp, by rw [← hfields]⟩

theorem exists_core {name : String} (h : name ∈ coreFields) (e : Event) :
    ∃ s, e.coreTexts.lookup name = some s ∧ (name, Json.text s) ∈ e.core := by
  simp only [coreFields, List.mem_cons, List.not_mem_nil, or_false] at h
  rcases h with rfl | rfl | rfl | rfl | rfl | rfl <;> exact ⟨_, rfl, by simp [core]⟩

def Taken (p : Partial) (m : String × Bytes) (next : Partial) : Prop :=
  if isReserved m.1 then
    p.core.lookup m.1 = none ∧ ∃ s, IsText m.2 s ∧ next = ⟨(m.1, s) :: p.core, p.others⟩
  else ∃ v, Means memberDepth m.2 v ∧ next = ⟨p.core, (m.1, v) :: p.others⟩

theorem readMember_eq_ok {p next : Partial} {key : String} {bs rest : Bytes} (hr : Stops rest) :
    readMember p key bs = .ok (next, rest) ↔ ∃ ws ws' value, Blanks ws ∧ Blanks ws' ∧
      Taken p (key, value) next ∧ bs = ws ++ 0x3a :: (ws' ++ (value ++ rest)) := by
  obtain ⟨core, others⟩ := p
  unfold readMember Taken
  cases hkey : isReserved key with
  | true =>
    simp only [hkey, if_true]
    cases hheld : core.lookup key with
    | some s => simp [fail]
    | none =>
      simp only [Option.isSome_none, Bool.false_eq_true, if_false, true_and]
      refine Iff.trans ?_ (putBehind_eq_ok reads_textField (fun s => ⟨(key, s) :: core, others⟩)
        bs next hr)
      cases readColon bs with
      | error => rfl
      | ok bs =>
        dsimp only
        cases textField bs <;> rfl
  | false =>
    simp only [hkey, Bool.false_eq_true, if_false]
    refine Iff.trans ?_ (putBehind_eq_ok (reads_value memberDepth)
      (fun v => ⟨core, (key, v) :: others⟩) bs next hr)
    unfold memberStep
    cases readColon bs with
    | error => simp
    | ok bs =>
      dsimp only
      cases readValue memberDepth bs <;> rfl

/-- Before the members behind it are read, a member of a core field's name fills the field. -/
theorem filled_core {key : String} (hkey : key ∈ coreFields) {value : Bytes}
    {ms : List (String × Bytes)} {core : List (String × String)} {last : String → Option String} :
    (∀ name ∈ coreFields,
      Filled IsText (valuesOf name ((key, value) :: ms)) (core.lookup name) (last name)) ↔
    core.lookup key = none ∧ ∃ s, IsText value s ∧ ∀ name ∈ coreFields,
      Filled IsText (valuesOf name ms) (((key, s) :: core).lookup name) (last name) := by
  have hother : ∀ {name : String} (s : String), key ≠ name →
      ((key, s) :: core).lookup name = core.lookup name := by
    intro name s hn
    rw [lookup_cons_eq, if_neg (Ne.symm hn)]
  have hself : ∀ s, ((key, s) :: core).lookup key = some s := by
    intro s
    rw [lookup_cons_eq, if_pos rfl]
  constructor
  · intro h
    have hfilled := h key hkey
    rw [valuesOf_self, filled_cons] at hfilled
    obtain ⟨hnone, s, hs, hrest⟩ := hfilled
    refine ⟨hnone, s, hs, fun name hname => ?_⟩
    by_cases hn : key = name
    · subst hn
      rw [hself]
      exact hrest
    · rw [hother s hn, ← valuesOf_other hn]
      exact h name hname
  · intro h
    obtain ⟨hnone, s, hs, hrest⟩ := h
    intro name hname
    have hfilled := hrest name hname
    by_cases hn : key = name
    · subst hn
      rw [hself] at hfilled
      rw [valuesOf_self, filled_cons]
      exact ⟨hnone, s, hs, hfilled⟩
    · rw [hother s hn] at hfilled
      rw [valuesOf_other hn]
      exact hfilled

/-- What a run over the members leaves: a core field is filled by the member of its name, and all
the other members stand behind one another. -/
theorem runs_taken {p : Partial} {ms : List (String × Bytes)} {last : String → Option String}
    {others : List (String × Json)} :
    (∃ q, Runs Taken p ms q ∧ (∀ name ∈ coreFields, q.core.lookup name = last name) ∧
      q.others = others) ↔
    (∀ name ∈ coreFields, Filled IsText (valuesOf name ms) (p.core.lookup name) (last name)) ∧
      ∃ vs, List.Forall₂ (Held (Means memberDepth)) (ms.filter (!isReserved ·.1)) vs ∧
        others = vs.reverse ++ p.others := by
  induction ms generalizing p with
  | nil =>
    constructor
    · intro h
      obtain ⟨q, hrun, hlast, rfl⟩ := h
      cases hrun
      exact ⟨fun name hname => hlast name hname ▸ .kept, [], .nil, rfl⟩
    · intro h
      obtain ⟨hfilled, vs, hvs, rfl⟩ := h
      cases hvs
      exact ⟨p, .done, fun name hname => filled_nil.1 (hfilled name hname), rfl⟩
  | cons m ms ih =>
    obtain ⟨key, value⟩ := m
    simp only [runs_cons]
    unfold Taken
    by_cases hkey : isReserved key = true
    · rw [filled_core (isReserved_iff.1 hkey)]
      simp only [hkey, if_true, List.filter_cons]
      constructor
      · intro h
        obtain ⟨q, ⟨_, ⟨hnone, s, hs, rfl⟩, hrun⟩, hq⟩ := h
        obtain ⟨hfilled, hothers⟩ := ih.1 ⟨q, hrun, hq⟩
        exact ⟨⟨hnone, s, hs, hfilled⟩, hothers⟩
      · intro h
        obtain ⟨⟨hnone, s, hs, hfilled⟩, hothers⟩ := h
        obtain ⟨q, hrun, hq⟩ := (ih (p := ⟨(key, s) :: p.core, p.others⟩)).2 ⟨hfilled, hothers⟩
        exact ⟨q, ⟨_, ⟨hnone, s, hs, rfl⟩, hrun⟩, hq⟩
    · have hvalues : ∀ name ∈ coreFields,
          valuesOf name ((key, value) :: ms) = valuesOf name ms := by
        intro name hname
        have hn : key ≠ name := fun hn => hkey (isReserved_iff.2 (hn ▸ hname))
        exact valuesOf_other hn value ms
      simp only [Bool.not_eq_true] at hkey
      simp only [hkey, Bool.false_eq_true, if_false, List.filter_cons, Bool.not_false, if_true,
        List.forall₂_cons_left_iff]
      constructor
      · intro h
        obtain ⟨q, ⟨_, ⟨v, hv, rfl⟩, hrun⟩, hq⟩ := h
        obtain ⟨hfilled, vs, hvs, hothers⟩ := ih.1 ⟨q, hrun, hq⟩
        refine ⟨fun name hname => hvalues name hname ▸ hfilled name hname, (key, v) :: vs,
          ⟨(key, v), vs, ⟨rfl, hv⟩, hvs, rfl⟩, ?_⟩
        rw [hothers, List.reverse_cons, List.append_assoc]
        rfl
      · intro h
        obtain ⟨hfilled, _, ⟨⟨k, v⟩, vs, ⟨hk, hv⟩, hvs, rfl⟩, hothers⟩ := h
        obtain rfl : k = key := hk
        rw [List.reverse_cons, List.append_assoc] at hothers
        obtain ⟨q, hrun, hq⟩ := (ih (p := ⟨p.core, (k, v) :: p.others⟩)).2
          ⟨fun name hname => hvalues name hname ▸ hfilled name hname, vs, hvs, hothers⟩
        exact ⟨q, ⟨_, ⟨v, hv, rfl⟩, hrun⟩, hq⟩

/-- The text is an object, the members of which make the event. -/
def Form (e : Event) (text : Bytes) : Prop :=
  ∃ ms vs, IsObject IsNumber text ms ∧
    (∀ name ∈ coreFields, ∃ value s, valuesOf name ms = [value] ∧ IsText value s ∧
      e.coreTexts.lookup name = some s) ∧
    List.Forall₂ (Held (Means memberDepth)) (ms.filter (!isReserved ·.1)) vs ∧
    e.fields = .ofList vs

theorem Form.value {e : Event} {text : Bytes} (h : Form e text) : Value IsNumber text := by
  obtain ⟨ms, vs, hobject, -⟩ := h
  exact hobject.value

theorem readObject_eq_ok {e : Event} {r rest : Bytes} :
    (∃ q, foldMembers readMember r.length true ⟨[], []⟩ r = .ok (q, rest) ∧ q.finish = .ok e) ↔
      ∃ bs, Form e (0x7b :: bs) ∧ r = bs ++ rest := by
  simp only [foldMembers_eq_ok (T := Taken) readMember_eq_ok, finish_eq_ok]
  constructor
  · intro h
    obtain ⟨q, ⟨inner, texts, ms, hrow, hnamed, hrun, rfl⟩, hlast, hfields⟩ := h
    obtain ⟨hfilled, vs, hvs, hothers⟩ := runs_taken.1 ⟨q, hrun, hlast, rfl⟩
    rw [hothers, List.append_nil, List.reverse_reverse] at hfields
    have hcore : ∀ name ∈ coreFields, ∃ value s, valuesOf name ms = [value] ∧ IsText value s ∧
        e.coreTexts.lookup name = some s := by
      intro name hname
      obtain ⟨s, hs, -⟩ := exists_core hname e
      have hname := hfilled name hname
      rw [hs] at hname
      obtain ⟨value, hvalues, hvalue⟩ := filled_once.1 hname
      exact ⟨value, s, hvalues, hvalue, hs⟩
    refine ⟨inner ++ [0x7d], ⟨ms, vs, ⟨inner, texts, hrow, hnamed, fun m hm => ?_, rfl⟩, hcore, hvs,
      hfields⟩, by simp⟩
    by_cases hkey : isReserved m.1 = true
    · obtain ⟨value, s, hvalues, hvalue, -⟩ := hcore m.1 (isReserved_iff.1 hkey)
      have hmem := mem_valuesOf hm rfl
      rw [hvalues, List.mem_singleton] at hmem
      exact hmem ▸ hvalue.value
    · obtain ⟨v, -, hv⟩ := exists_of_forall₂ hvs (List.mem_filter.2 ⟨hm, by simp [hkey]⟩)
      exact hv.2.value
  · intro h
    obtain ⟨bs, ⟨ms, vs, ⟨inner, texts, hrow, hnamed, -, hbytes⟩, hcore, hvs, hfields⟩, rfl⟩ := h
    obtain ⟨-, rfl⟩ := List.cons.inj hbytes
    have hfilled : ∀ name ∈ coreFields,
        Filled IsText (valuesOf name ms) none (e.coreTexts.lookup name) := by
      intro name hname
      obtain ⟨value, s, hvalues, hvalue, hs⟩ := hcore name hname
      rw [hs]
      exact filled_once.2 ⟨value, hvalues, hvalue⟩
    obtain ⟨q, hrun, hlast, hothers⟩ :=
      (runs_taken (p := ⟨[], []⟩)).2 ⟨hfilled, vs, hvs, (List.append_nil _).symm⟩
    exact ⟨q, ⟨inner, texts, ms, hrow, hnamed, hrun, List.append_assoc ..⟩, hlast, by
      rw [hothers, List.reverse_reverse, hfields]⟩

theorem reads_event : Reads read fun text e => Form e text := by
  refine reads_of_head (fun bs => ?_) ?_ Form.value ?_
  · rw [read, skipBlanks_skipBlanks, read]
  · intro x h
    cases h
  · intro b r e rest hb hr
    rw [read, skipBlanks_cons hb]
    dsimp only
    constructor
    · intro h
      split at h
      · rename_i hopen
        subst hopen
        split at h
        · cases h
        · rename_i q rest' hmembers
          split at h
          · rename_i hfinish
            obtain ⟨rfl, rfl⟩ := Prod.mk.inj (Except.ok.inj h)
            exact readObject_eq_ok.1 ⟨q, hmembers, hfinish⟩
          · cases h
      · exact absurd h (wrongKind_ne_ok _ _ _ _)
    · intro h
      obtain ⟨bs, hform, rfl⟩ := h
      obtain rfl : b = 0x7b := by
        obtain ⟨ms, vs, ⟨inner, texts, -, -, -, hbytes⟩, -⟩ := hform
        exact (List.cons.inj hbytes).1
      obtain ⟨q, hmembers, hfinish⟩ := readObject_eq_ok.2 ⟨bs, hform, rfl⟩
      rw [if_pos rfl, hmembers]
      simp only [hfinish]

theorem parse_eq_ok {bs : Bytes} {e : Event} : parse bs = .ok e ↔ Alone (Form e) bs :=
  readWhole_eq_ok reads_event

theorem mem_core_of_lookup {e : Event} {name s : String} (h : e.coreTexts.lookup name = some s) :
    (name, Json.text s) ∈ e.core := by
  have hcore : e.core = (e.coreTexts.map fun m => (m.1, Json.text m.2)).reverse := rfl
  rw [hcore, List.mem_reverse]
  exact List.mem_map_of_mem (mem_of_lookup h)

theorem records_ofList (vs : List (String × Json)) : (Table.ofList vs).Records vs :=
  Table.records_empty.insertAll vs

theorem Form.unreserved {e : Event} {text : Bytes} (h : Form e text) :
    ∀ k ∈ e.fields.keys, isReserved k = false := by
  obtain ⟨ms, vs, -, -, hvs, hfields⟩ := h
  intro k hk
  rw [hfields, (records_ofList vs).keys_put] at hk
  obtain ⟨v, hv, rfl⟩ := List.mem_map.1 hk
  obtain ⟨m, hm, hheld⟩ := exists_left_of_forall₂ hvs hv
  rw [hheld.1]
  simpa using (List.mem_filter.1 hm).2

theorem Form.kept {e : Event} {text : Bytes} (h : Form e text) (hi : Value Whole64 text)
    {k : String} {v : Json} (hv : (k, v) ∈ e.fields.entries) : Kept v := by
  obtain ⟨ms, vs, ⟨inner, texts, hrow, hnamed, hvalues, rfl⟩, -, hvs, hfields⟩ := h
  rw [hfields] at hv
  have hmem := List.mem_reverse.1 (mem_of_lookup ((records_ofList vs).value hv))
  obtain ⟨m, hm, -, hmeans⟩ := exists_left_of_forall₂ hvs hmem
  have hwhole := values_of_object (fun _ h => h.isNumber) hrow hnamed hvalues hi m
    (List.mem_filter.1 hm).1
  exact ⟨hmeans.integral hwhole, hmeans.ordered, hmeans.height_le⟩

theorem parse_encode_of_parse {bs : Bytes} {e : Event} (h : parse bs = .ok e)
    (hi : Alone (Value Whole64) bs) : parse (bytesOf e.encode) = .ok e := by
  obtain ⟨text, hform, hwhole⟩ := (parse_eq_ok.1 h).both (fun _ h => h.value)
    (fun _ h => h.mono fun _ h => h.isNumber) hi
  exact parse_encode hform.unreserved fun k v hv => hform.kept hwhole hv

/-- Reading events is canonical. The text of an event is an object with each core name once, as a
string; what it has besides is a table of the other members, which first came decides on the place
and which last on the value. If its numbers are integers, the event is read again from its own text.
An object that has a core name otherwise is rejected. -/
theorem parse_canonical (bs : Bytes) :
    (∀ e, parse bs = .ok e → ∃ ms vs, Alone (IsObject IsNumber · ms) bs ∧
      (∀ name ∈ coreFields, ∃ value s, valuesOf name ms = [value] ∧ IsText value s ∧
        (name, Json.text s) ∈ e.core) ∧
      List.Forall₂ (Held fun text v => Json.parse text = .ok v)
        (ms.filter fun m => m.1 ∉ coreFields) vs ∧
      e.fields.Records vs ∧ (∀ k ∈ e.fields.keys, k ∉ coreFields) ∧
      (Alone (Value Whole64) bs → parse (bytesOf e.encode) = .ok e ∧
        ∀ e', parse (bytesOf e.encode) = .ok e' → e'.encode = e.encode)) ∧
    ∀ ms, Alone (IsObject IsNumber · ms) bs → ∀ name ∈ coreFields,
      (∀ value s, valuesOf name ms = [value] → ¬IsText value s) →
        ∃ fault, parse bs = .error fault := by
  constructor
  · intro e h
    obtain ⟨ws, text, ws', hws, hws', hform, hbytes⟩ := parse_eq_ok.1 h
    have hmembers := hform
    obtain ⟨ms, vs, hobject, hcore, hvs, hfields⟩ := hmembers
    have hothers : (ms.filter fun m => m.1 ∉ coreFields) = ms.filter (!isReserved ·.1) := by
      refine List.filter_congr fun m _ => ?_
      rw [Bool.eq_iff_iff]
      simp [← isReserved_iff]
    refine ⟨ms, vs, ⟨ws, text, ws', hws, hws', hobject, hbytes⟩, ?_, ?_, ?_, ?_, ?_⟩
    · intro name hname
      obtain ⟨value, s, hvalues, hvalue, hs⟩ := hcore name hname
      exact ⟨value, s, hvalues, hvalue, mem_core_of_lookup hs⟩
    · rw [hothers]
      exact hvs.imp fun _ _ hheld => ⟨hheld.1, hheld.2.parse⟩
    · rw [hfields]
      exact records_ofList vs
    · intro k hk hmem
      rw [← isReserved_iff, hform.unreserved k hk] at hmem
      cases hmem
    · intro hi
      have hagain := parse_encode_of_parse h hi
      refine ⟨hagain, fun e' he' => ?_⟩
      rw [hagain] at he'
      rw [Except.ok.inj he']
  · intro ms hms name hname hwrong
    cases h : parse bs with
    | error fault => exact ⟨fault, rfl⟩
    | ok e =>
      obtain ⟨text, hobject, hform⟩ :=
        hms.both (fun _ h => h.value) (fun _ h => h.value) (parse_eq_ok.1 h)
      obtain ⟨ms', vs, hobject', hcore, -⟩ := hform
      obtain rfl := hobject.unique hobject'
      obtain ⟨value, s, hvalues, hvalue, -⟩ := hcore name hname
      exact absurd hvalue (hwrong value s hvalues)

end EventPost.Event
