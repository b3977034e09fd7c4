import EventPost.Http.Service

/-!
What is made of the bytes of a connection. A response comes of a whole head, or of one that breaks
off and leads elsewhere, and no error on the way to it or to its body is one about a status.
-/

namespace EventPost.Http

open Text (Bytes)

def Error.Statusless : Error → Prop
  | .statusCode _ => False
  | _ => True

theorem Error.Statusless.of_error {α : Type} {e f : Error}
    (h : (.error f : Except Error α) = .error e) (hf : f.Statusless) : e.Statusless :=
  Except.error.inj h ▸ hf

/-- A body that ended early ended with an error that says nothing of a status. -/
def Payload.Sound (p : Payload) : Prop := ∀ e, p.error = some e → e.Statusless

theorem statusless_ending (stage : Stage) (ending : Ending) : (ending.error stage).Statusless := by
  cases ending <;> exact trivial

/-- What ends a body early: that no more bytes come, or a chunk that is none. -/
def Ending.Breaks (ending : Ending) (e : Error) : Prop :=
  e = ending.error .receiveBody ∨ ∃ detail, e = .brokenProtocol detail

theorem Ending.Breaks.statusless {ending : Ending} {e : Error} (h : ending.Breaks e) :
    e.Statusless := by
  rcases h with rfl | ⟨detail, rfl⟩
  · exact statusless_ending _ _
  · exact trivial

theorem breaks_ending {ending : Ending} {e : Error}
    (h : some (ending.error .receiveBody) = some e) : ending.Breaks e := .inl (Option.some.inj h).symm

theorem chunkLength_eq_error {line : Bytes} {e : Error} (h : chunkLength line = .error e) :
    ∃ detail, e = .brokenProtocol detail := by
  unfold chunkLength at h
  split at h
  · exact ⟨_, (Except.error.inj h).symm⟩
  · split at h
    · exact ⟨_, (Except.error.inj h).symm⟩
    · exact nomatch h

theorem breaks_readChunks {ending : Ending} {fuel : Nat} {seen : List Bytes} {bs : Bytes}
    {e : Error} (h : (readChunks ending fuel seen bs).error = some e) : ending.Breaks e := by
  induction fuel generalizing seen bs with
  | zero => exact breaks_ending h
  | succ fuel ih =>
    rw [readChunks] at h
    split at h
    · exact breaks_ending h
    · split at h
      · rename_i hlength
        obtain ⟨detail, rfl⟩ := chunkLength_eq_error hlength
        exact .inr ⟨detail, (Option.some.inj h).symm⟩
      · dsimp only at h
        split at h
        · exact nomatch h
        · exact breaks_ending h
      · -- Behind a chunk stands the end of a line, or the connection breaks off, or neither.
        dsimp only at h
        split at h
        · exact ih h
        · exact breaks_ending h
        · exact breaks_ending h
        · exact .inr ⟨_, (Option.some.inj h).symm⟩

theorem breaks_read {framing : Framing} {ending : Ending} {bs : Bytes} {e : Error}
    (h : (Payload.read framing ending bs).error = some e) : ending.Breaks e := by
  cases framing with
  | nothing => exact nomatch h
  | counted n =>
    dsimp only [Payload.read] at h
    split at h
    · exact nomatch h
    · exact breaks_ending h
  | chunked => exact breaks_readChunks h
  | untilClosed =>
    cases ending with
    | closed => exact nomatch h
    | stalled => exact breaks_ending h

theorem sound_read (framing : Framing) (ending : Ending) (bs : Bytes) :
    (Payload.read framing ending bs).Sound := fun _ he => (breaks_read he).statusless

theorem sound_whole (bs : Bytes) : Payload.Sound ⟨bs, none⟩ := fun _ he => nomatch he

theorem ofHead_eq_error {h : Head} {e : Error} : Framing.ofHead h = .error e ↔
    e = .brokenProtocol "content-length header not a number" ∧
      ∃ s, h.header? "content-length" = some s ∧ ∀ n, Numeral.readWord s.toList ≠ .ok n := by
  constructor
  · intro he
    unfold Framing.ofHead at he
    split at he
    · rename_i f hf
      unfold Framing.declared at hf
      dsimp only at hf
      split at hf
      · exact nomatch hf
      · rename_i s hs
        split at hf
        · rename_i hword
          refine ⟨(Except.error.inj he).symm.trans (Except.error.inj hf).symm, s, hs, ?_⟩
          intro n hn
          rw [hword] at hn
          exact nomatch hn
        · exact nomatch hf
    · split at he <;> exact nomatch he
  · rintro ⟨rfl, s, hs, hn⟩
    cases hword : Numeral.readWord s.toList with
    | ok n => exact absurd hword (hn n)
    | error f =>
      unfold Framing.ofHead Framing.declared
      rw [hs]
      dsimp only
      rw [hword]

theorem ofPartial_eq_some {h : Head} {r : Response} (hp : Response.ofPartial h = some r) :
    (300 ≤ h.status ∧ h.status ≤ 399) ∧ (h.lastHeader? "location").isSome = true ∧
      r = ⟨h, ⟨[], none⟩⟩ := by
  unfold Response.ofPartial at hp
  split at hp
  · rename_i hstatus
    exact ⟨⟨hstatus.1, hstatus.2.1⟩, hstatus.2.2, (Option.some.inj hp).symm⟩
  · exact nomatch hp

theorem read_ofStart {start : Option Head} {length : Nat} {ending : Ending} {r : Response}
    (h : Response.ofStart start length ending = .ok r) :
    ∃ head, start = some head ∧ ending = .closed ∧ Response.ofPartial head = some r := by
  unfold Response.ofStart at h
  split at h
  · exact nomatch h
  · split at h
    · rename_i hpartial
      obtain ⟨head, hs, hp⟩ := Option.bind_eq_some_iff.1 hpartial
      exact ⟨head, hs, rfl, by rw [hp, Except.ok.inj h]⟩
    · exact nomatch h

theorem statusless_ofStart {start : Option Head} {length : Nat} {ending : Ending} {e : Error}
    (h : Response.ofStart start length ending = .error e) : e.Statusless := by
  unfold Response.ofStart at h
  split at h
  · exact .of_error h trivial
  · split at h
    · exact nomatch h
    · exact .of_error h (statusless_ending _ _)

theorem read_eq_ok {bs : Bytes} {ending : Ending} {r : Response}
    (h : Response.read bs ending = .ok r) :
    (∃ rest framing, Head.read bs = .ok (some (r.head, some rest)) ∧
      Framing.ofHead r.head = .ok framing ∧ bs.length - rest.length ≤ Response.maxHead ∧
      r.payload = Payload.read framing ending rest) ∨
    (Head.read bs = .ok (some (r.head, none)) ∧ ending = .closed ∧
      Response.ofPartial r.head = some r) := by
  unfold Response.read at h
  split at h
  · exact nomatch h
  · obtain ⟨head, hs, -, -⟩ := read_ofStart h
    exact nomatch hs
  · rename_i head hhead
    obtain ⟨_, hs, hending, hpartial⟩ := read_ofStart h
    obtain rfl := Option.some.inj hs
    have hr : r.head = head := by rw [(ofPartial_eq_some hpartial).2.2]
    rw [← hr] at hhead hpartial
    exact .inr ⟨hhead, hending, hpartial⟩
  · rename_i head rest hhead
    split at h
    · exact nomatch h
    · rename_i framing hframing
      split at h
      · exact nomatch h
      · rename_i hlength
        rw [← Except.ok.inj h]
        exact .inl ⟨rest, framing, hhead, hframing, Nat.le_of_not_lt hlength, rfl⟩

theorem head_of_read {bs : Bytes} {ending : Ending} {h : Head} {rest : Bytes} {r : Response}
    (hhead : Head.read bs = .ok (some (h, some rest))) (hr : Response.read bs ending = .ok r) :
    r.head = h := by
  rcases read_eq_ok hr with ⟨_, _, hwhole, -⟩ | ⟨hbroken, -⟩
  · rw [hhead] at hwhole
    exact (Prod.mk.inj (Option.some.inj (Except.ok.inj hwhole))).1.symm
  · rw [hhead] at hbroken
    exact nomatch (Prod.mk.inj (Option.some.inj (Except.ok.inj hbroken))).2

theorem statusless_read {bs : Bytes} {ending : Ending} {e : Error}
    (h : Response.read bs ending = .error e) : e.Statusless := by
  unfold Response.read at h
  split at h
  · exact .of_error h trivial
  · exact statusless_ofStart h
  · exact statusless_ofStart h
  · split at h
    · rename_i hframing
      exact .of_error h ((ofHead_eq_error.1 hframing).1 ▸ trivial)
    · split at h
      · exact .of_error h trivial
      · exact nomatch h

theorem sound_of_read {bs : Bytes} {ending : Ending} {r : Response}
    (h : Response.read bs ending = .ok r) : r.payload.Sound := by
  rcases read_eq_ok h with ⟨rest, framing, -, -, -, hp⟩ | ⟨-, -, hpartial⟩
  · rw [hp]
    exact sound_read _ _ _
  · rw [(ofPartial_eq_some hpartial).2.2]
    exact sound_whole _

theorem statusless_received {r : Response} (hs : r.payload.Sound) {e : Error}
    (h : r.received = .error e) : e.Statusless := by
  unfold Response.received at h
  split at h
  · exact .of_error h trivial
  · split at h
    · rename_i he
      exact .of_error h (hs _ he)
    · exact nomatch h

theorem statusless_content {r : Response} (hs : r.payload.Sound) {e : Error}
    (h : r.content = .error e) : e.Statusless := by
  unfold Response.content at h
  split at h
  · split at h
    · exact .of_error h trivial
    · cases hu : Gzip.unpack ‹_› with
      | ok bs => rw [hu] at h; exact nomatch h
      | error f =>
        rw [hu] at h
        exact .of_error h trivial
  · exact statusless_received hs h

theorem isSuccess_iff {r : Response} :
    r.isSuccess = true ↔ 200 ≤ r.head.status ∧ r.head.status ≤ 299 := by
  rw [Response.isSuccess, Bool.and_eq_true, decide_eq_true_eq, decide_eq_true_eq]
  rfl

end EventPost.Http
