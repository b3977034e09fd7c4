import EventPost.Proofs.Http.Diagnostic
import EventPost.Proofs.Json.Diagnostic
import EventPost.Proofs.Submission.Verdict

/-!
The diagnostic of a submission that failed. It is meant to be one line, and is where the client
speaks for itself: of what went wrong on the way, and of an acknowledgment that is none. The text of
a refusal is passed on without the blanks around it, and with the line ends in it.
-/

namespace EventPost

open Http (Answer Error Request Response Service exchange maxRedirects)
open Text (Bytes OneLine bytesOf oneLine_append oneLine_decimalText)

namespace Acknowledgment

open Json (Fault)

variable {f : Fault}

@[grind →] theorem oneLine_beforeItem {length : Nat} {bs : Bytes}
    (h : beforeItem length bs = .error f) : f.cause.OneLine := by
  have hexpected : OneLine (expected ++ " with 2 elements") := by decide
  unfold beforeItem at h
  grind

@[grind →] theorem oneLine_closeList {bs : Bytes} (h : closeList bs = .error f) :
    f.cause.OneLine := by
  unfold closeList at h
  grind

theorem error_of_bind {α β : Type} {x : Except Fault α} {next : α → Except Fault β}
    (h : x >>= next = .error f) : x = .error f ∨ ∃ v, x = .ok v ∧ next v = .error f := by
  cases x with
  | error e => exact .inl (congrArg _ (Except.error.inj h))
  | ok v => exact .inr ⟨v, rfl, h⟩

theorem oneLine_readPair {bs : Bytes} (h : readPair bs = .error f) : f.cause.OneLine := by
  unfold readPair at h
  rcases error_of_bind h with h | ⟨bs, -, h⟩
  · exact oneLine_beforeItem h
  rcases error_of_bind h with h | ⟨⟨n, bs⟩, -, h⟩
  · exact Json.oneLine_wordField h
  rcases error_of_bind h with h | ⟨bs, -, h⟩
  · exact oneLine_beforeItem h
  rcases error_of_bind h with h | ⟨⟨ids, bs⟩, -, h⟩
  · exact Json.oneLine_textListField h
  rcases error_of_bind h with h | ⟨bs, -, h⟩
  · exact oneLine_closeList h
  · cases h

theorem oneLine_readMember {p : Partial} {key : String} {bs : Bytes}
    (h : readMember p key bs = .error f) : f.cause.OneLine := by
  have hcount : OneLine "accepted" := by decide
  have hids : OneLine "event_ids" := by decide
  unfold readMember at h
  grind

theorem oneLine_finish {p : Partial} {rest : Bytes} (h : p.finish rest = .error f) :
    f.cause.OneLine := by
  have hcount : OneLine "accepted" := by decide
  have hids : OneLine "event_ids" := by decide
  unfold Partial.finish at h
  grind

theorem oneLine_read {bs : Bytes} (h : read bs = .error f) : f.cause.OneLine := by
  have hexpected : OneLine expected := by decide
  unfold read at h
  split at h
  · grind
  · split at h
    · exact oneLine_readPair h
    · split at h
      · split at h
        · rename_i hmembers
          exact Except.error.inj h ▸ Json.oneLine_foldMembers oneLine_readMember hmembers
        · exact oneLine_finish h
      · exact Json.oneLine_wrongKind h hexpected

theorem oneLine_ofBody {body : Bytes} {failure : Failure} (h : ofBody body = .error failure) :
    ∃ message text, failure = .decode message text ∧ OneLine message := by
  unfold ofBody at h
  split at h
  · rename_i hdecode
    exact ⟨_, _, (Except.error.inj h).symm,
      Json.oneLine_fault (Json.oneLine_readWhole oneLine_read hdecode) body⟩
  · split at h
    · exact ⟨_, _, (Except.error.inj h).symm, by decide⟩
    · cases h

end Acknowledgment

/-- What the failure says beside the text of a refusal stands on one line. -/
def Failure.OneLine : Failure → Prop
  | .transport message _ => Text.OneLine message
  | .protocol _ _ => True
  | .decode message _ => Text.OneLine message

theorem oneLine_hint (status : Nat) : OneLine (Failure.hint status) := by
  unfold Failure.hint
  split
  · decide
  · split
    · decide
    · decide

theorem Failure.OneLine.describe {f : Failure} (hf : f.OneLine) {endpoint : String}
    (he : Text.OneLine endpoint) : Text.OneLine (f.describe endpoint) ↔
      ∀ status text, f = .protocol status (some text) → Text.OneLine (Text.trim text) := by
  have htold : ∀ {s message : String}, Text.OneLine s → Text.OneLine message →
      Text.OneLine (s ++ endpoint ++ ": " ++ message) :=
    fun hs hm => ((hs.append he).append (by decide)).append hm
  have hstatus : ∀ n, Text.OneLine ("Service returned HTTP " ++ Numeral.decimalText n ++ hint n) :=
    fun n => (Text.OneLine.append (by decide) (oneLine_decimalText n)).append (oneLine_hint n)
  cases f with
  | transport message timedOut =>
    refine iff_of_true ?_ (fun status text h => by cases h)
    cases timedOut with
    | true => exact htold (by decide) hf
    | false => exact htold (by decide) hf
  | decode message text => exact iff_of_true (htold (by decide) hf) (fun status text h => by cases h)
  | protocol status body =>
    cases body with
    | none =>
      refine iff_of_true ((hstatus status).append (by decide)) ?_
      intro n text h
      cases h
    | some text =>
      have hd : (Failure.protocol status (some text)).describe endpoint =
          ("Service returned HTTP " ++ Numeral.decimalText status ++ hint status) ++
            (": " ++ Text.trim text) := rfl
      rw [hd]
      constructor
      · intro h n t ht
        obtain ⟨-, ht⟩ := Failure.protocol.inj ht
        rw [← Option.some.inj ht]
        exact (oneLine_append.1 (oneLine_append.1 h).2).2
      · intro h
        exact (hstatus status).append (Text.OneLine.append (by decide) (h status text rfl))

namespace Notifier

variable {n : Notifier}

theorem oneLine_classify (n : Notifier) {e : Error} (h : e.OneLine) : (n.classify e).1.OneLine := by
  have htimeout : (Failure.timeout (n.timeoutSecs * 1000)).OneLine :=
    (Text.OneLine.append (by decide) (oneLine_decimalText _)).append (by decide)
  unfold classify
  dsimp only
  split
  · exact htimeout
  · rename_i hf
    cases e with
    | statusCode status => trivial
    | io timedOut message =>
      cases timedOut with
      | true => exact absurd rfl hf
      | false => exact h.message
    | timeout stage => exact absurd rfl hf
    | _ => exact h.message

theorem oneLine_judge {id : String} {outcome : Except Error Response} {f : Failure}
    (he : ∀ e, outcome = .error e → e.OneLine) (hr : ∀ r, outcome = .ok r → r.Brief)
    (h : (n.judge id outcome).1 = .error f) : f.OneLine := by
  unfold judge at h
  split at h
  · rename_i e
    exact Except.error.inj h ▸ n.oneLine_classify (he e rfl)
  · rename_i r
    split at h
    · rw [← Except.error.inj h]
      trivial
    · split at h
      · rw [← Except.error.inj h]
        exact (Text.OneLine.append (by decide) (oneLine_decimalText _)).append (by decide)
      · rename_i hcontent
        exact Except.error.inj h ▸ n.oneLine_classify ((hr r rfl).content hcontent)
      · split at h
        · rename_i hbody
          obtain ⟨message, text, rfl, hm⟩ := Acknowledgment.oneLine_ofBody hbody
          exact Except.error.inj h ▸ hm
        · cases h

theorem oneLine_send {s : Service} {e : Event} {f : Failure}
    (h : (n.send s e).outcome = .error f) : f.OneLine := by
  cases hp : Request.post n.endpoint n.token e.encode with
  | error err =>
    rw [(n.send_of_not_post hp).1] at h
    exact Except.error.inj h ▸ n.oneLine_classify (Http.oneLine_post hp)
  | ok r =>
    rw [(n.send_of_post hp).1] at h
    obtain ⟨uri, huri, -, rfl⟩ := Http.post_eq_ok.1 hp
    refine oneLine_judge (fun e he => ?_) (fun response hr => ?_) h
    · exact Http.oneLine_exchange (Http.brief_of_parse huri) he
    · obtain ⟨-, reply, -, hread⟩ := Http.exchange_eq_ok hr
      exact Http.brief_of_read hread

end Notifier

/-- The service's last word on the event is this response, and it is a refusal. -/
structure Refuses (n : Notifier) (s : Service) (e : Event) (r : Response) : Prop where
  last : ∃ request, Request.post n.endpoint n.token e.encode = .ok request ∧
    (exchange s request maxRedirects).outcome = .ok r
  refused : r.isSuccess = false

/-- Every failure of the submission is told on one line. -/
def Terse (n : Notifier) (s : Service) (e : Event) : Prop :=
  ∀ f, (n.send s e).outcome = .error f → OneLine (f.describe n.endpoint)

variable {n : Notifier} {s : Service} {e : Event}

theorem statusless_post {address token body : String} {err : Error}
    (h : Request.post address token body = .error err) : err.Statusless := by
  unfold Request.post at h
  split at h
  · rw [← Except.error.inj h]
    trivial
  · split at h
    · cases h
    · rw [← Except.error.inj h]
      trivial

theorem outcome_eq_protocol {status : Nat} {text : Option String} :
    (n.send s e).outcome = .error (.protocol status text) ↔
      ∃ r, Refuses n s e r ∧ status = r.status ∧ text = saying r.text? := by
  cases hp : Request.post n.endpoint n.token e.encode with
  | error err =>
    obtain ⟨message, hm⟩ := n.classify_statusless (statusless_post hp)
    rw [(n.send_of_not_post hp).1, hm]
    constructor
    · intro h
      cases h
    · rintro ⟨r, ⟨⟨request, hrequest, -⟩, -⟩, -⟩
      rw [hp] at hrequest
      cases hrequest
  | ok request =>
    rw [(n.send_of_post hp).1, n.judge_eq_protocol (attested_exchange s request maxRedirects)]
    constructor
    · rintro ⟨r, hr, hrefused, hstatus, htext⟩
      exact ⟨r, ⟨⟨request, hp, hr⟩, hrefused⟩, hstatus, htext⟩
    · rintro ⟨r, ⟨⟨request', hp', hr⟩, hrefused⟩, hstatus, htext⟩
      obtain rfl := Except.ok.inj (hp.symm.trans hp')
      exact ⟨r, hr, hrefused, hstatus, htext⟩

theorem oneLine_trim_of_isEmpty {text : String} (h : (Text.trim text).isEmpty = true) :
    OneLine (Text.trim text) := by
  rw [String.isEmpty_iff.1 h]
  decide

theorem oneLine_trim_of_refuses {r : Response} {text : String} (hr : Refuses n s e r)
    (ht : r.text? = some text)
    (h : (n.send s e).outcome = .error (.protocol r.status (some text)) →
      OneLine (Text.trim text)) : OneLine (Text.trim text) := by
  by_cases hblank : (Text.trim text).isEmpty = true
  · exact oneLine_trim_of_isEmpty hblank
  · rw [Bool.not_eq_true] at hblank
    exact h (outcome_eq_protocol.2 ⟨r, hr, rfl, (saying_eq_some.2 ⟨ht, hblank⟩).symm⟩)

/-- A submission is told on one line unless the service refuses the event in more than one, the
blanks around its words apart. -/
theorem terse_iff (hn : OneLine n.endpoint) : Terse n s e ↔
    ∀ r text, Refuses n s e r → r.text? = some text → OneLine (Text.trim text) := by
  constructor
  · intro h r text hr ht
    refine oneLine_trim_of_refuses hr ht fun ho => ?_
    exact ((Notifier.oneLine_send ho).describe hn).1 (h _ ho) r.status text rfl
  · intro h f ho
    refine ((Notifier.oneLine_send ho).describe hn).2 ?_
    rintro status text rfl
    obtain ⟨r, hr, -, ht⟩ := outcome_eq_protocol.1 ho
    exact h r text hr (saying_eq_some.1 ht.symm).1

/-- Line ends around the words of a refusal are no harm. -/
theorem terse_busy :
    let n : Notifier := ⟨"http://h/api/v1/events", "t", 10⟩
    let a : Answer := ⟨503, [], 8, bytesOf "\r\nbusy\r\n", .closed⟩
    let s : Service := ⟨some "h", [a.reply]⟩
    let e := Event.ofNotification (.new "t") ⟨"rs-1", "2025-01-01T00:00:00.000Z"⟩
    OneLine n.endpoint ∧ Terse n s e := by
  intro n a s e
  have ha : a.Legible := Answer.legible_of_bare (by decide) (by decide) rfl (by decide)
  have hu : Usable n s := usable_example _
  have hn : OneLine n.endpoint := by decide
  refine ⟨hn, (terse_iff hn).2 fun r text hr ht => oneLine_trim_of_refuses hr ht fun ho => ?_⟩
  have hsaid :=
    ((settles_of_answer hu e rfl ha (by decide) (by decide)).refusal _ _).1 ho
  obtain rfl : text = "\r\nbusy\r\n" :=
    Text.bytesOf_injective ((hsaid.2.2 text).1 rfl).1.bytes
  decide +kernel

/-- A refusal in two lines is told in two. -/
theorem not_terse_of_lines :
    let n : Notifier := ⟨"http://h/api/v1/events", "t", 10⟩
    let a : Answer := ⟨400, [], 12, bytesOf "first\nsecond", .closed⟩
    let s : Service := ⟨some "h", [a.reply]⟩
    let e := Event.ofNotification (.new "t") ⟨"rs-1", "2025-01-01T00:00:00.000Z"⟩
    let f : Failure := .protocol 400 (some "first\nsecond")
    OneLine n.endpoint ∧ (n.send s e).outcome = .error f ∧
      f.describe n.endpoint = "Service returned HTTP 400 (event rejected): first\nsecond" ∧
      ¬Terse n s e := by
  intro n a s e f
  have ha : a.Legible := Answer.legible_of_bare (by decide) (by decide) rfl (by decide)
  have hu : Usable n s := usable_example _
  have ho : (n.send s e).outcome = .error f := by
    refine ((settles_of_answer hu e rfl ha (by decide) (by decide)).refusal _ _).2 ?_
    refine ⟨rfl, by decide, ?_⟩
    intro t
    constructor
    · intro ht
      obtain rfl := Option.some.inj ht
      exact ⟨⟨.inr (by decide), rfl, by decide⟩, by decide +kernel⟩
    · intro ht
      exact congrArg some (Text.bytesOf_injective ht.1.bytes.symm)
  have hd : f.describe n.endpoint =
      "Service returned HTTP 400 (event rejected): first\nsecond" := by decide +kernel
  refine ⟨by decide, ho, hd, ?_⟩
  intro h
  have hline := h f ho
  rw [hd] at hline
  exact absurd hline (by decide)

end EventPost
