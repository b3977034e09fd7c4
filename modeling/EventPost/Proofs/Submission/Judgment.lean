import EventPost.Proofs.Http.Exchange
import EventPost.Submission.Sending

/-!
What a submission comes to, by what its exchange came to. Only a response with the status of a
success and an acknowledgment in its body is a success, and only a response with another status is
a refusal; whatever the client itself finds wrong is neither.
-/

namespace EventPost

open Http (Reaches Reply Request Response Service Error exchange maxRedirects)
open Numeral (decimalText)
open Text (Bytes)

/-- What an exchange can come to: an error that says nothing of a status, or a response whose body
ended with no such error. -/
def Attested : Except Error Response → Prop
  | .error e => e.Statusless
  | .ok r => r.payload.Sound

theorem attested_exchange (s : Service) (r : Request) (hops : Nat) :
    Attested (exchange s r hops).outcome := by
  cases ho : (exchange s r hops).outcome with
  | error e => exact Http.statusless_exchange ho
  | ok response =>
    obtain ⟨-, reply, -, hread⟩ := Http.exchange_eq_ok ho
    exact Http.sound_of_read hread

/-- A refusal that has nothing but blanks to say says nothing. -/
def saying (text : Option String) : Option String := text.filter fun s => !(Text.trim s).isEmpty

theorem saying_eq_some {text : Option String} {s : String} :
    saying text = some s ↔ text = some s ∧ (Text.trim s).isEmpty = false := by
  rw [saying, Option.filter_eq_some_iff, Bool.not_eq_true']

theorem ofBody_eq_error {body : Bytes} {f : Failure} (h : Acknowledgment.ofBody body = .error f) :
    ∃ message text, f = .decode message text := by
  unfold Acknowledgment.ofBody at h
  split at h
  · exact ⟨_, _, (Except.error.inj h).symm⟩
  · split at h
    · exact ⟨_, _, (Except.error.inj h).symm⟩
    · exact nomatch h

namespace Notifier

theorem classify_statusless (n : Notifier) {e : Error} (h : e.Statusless) :
    ∃ message, (n.classify e).1 = .transport message (Failure.ofHttp e).isTimeout := by
  have hf : ∃ message timedOut, Failure.ofHttp e = .transport message timedOut := by
    cases e with
    | statusCode status => exact h.elim
    | io timedOut message => cases timedOut <;> exact ⟨_, _, rfl⟩
    | _ => exact ⟨_, _, rfl⟩
  obtain ⟨message, timedOut, hf⟩ := hf
  unfold classify
  rw [hf]
  cases timedOut with
  | true => exact ⟨_, rfl⟩
  | false => exact ⟨_, rfl⟩

theorem judge_eq_ok {n : Notifier} {id : String} {outcome : Except Error Response}
    {a : Acknowledgment} : (n.judge id outcome).1 = .ok a ↔
      ∃ r body, outcome = .ok r ∧ r.isSuccess = true ∧ r.content = .ok body ∧
        Acknowledgment.ofBody body = .ok a := by
  constructor
  · intro h
    unfold judge at h
    split at h
    · exact nomatch h
    · rename_i r
      split at h
      · exact nomatch h
      · rename_i hsuccess
        rw [Bool.not_eq_true', Bool.not_eq_false] at hsuccess
        split at h
        · exact nomatch h
        · exact nomatch h
        · rename_i body hbody
          split at h
          · exact nomatch h
          · rename_i b hb
            exact ⟨r, body, rfl, hsuccess, hbody, by rw [hb, ← Except.ok.inj h]⟩
  · rintro ⟨r, body, rfl, hsuccess, hbody, ha⟩
    simp only [judge, hsuccess, Bool.not_true, Bool.false_eq_true, if_false, hbody, ha]

theorem judge_eq_protocol {n : Notifier} {id : String} {outcome : Except Error Response}
    (h : Attested outcome) {status : Nat} {text : Option String} :
    (n.judge id outcome).1 = .error (.protocol status text) ↔
      ∃ r, outcome = .ok r ∧ r.isSuccess = false ∧ status = r.status ∧ text = saying r.text? := by
  constructor
  · intro hj
    have hlocal : ∀ {e : Error}, e.Statusless → (n.classify e).1 ≠ .protocol status text := by
      intro e he hc
      obtain ⟨message, ht⟩ := n.classify_statusless he
      rw [ht] at hc
      exact nomatch hc
    unfold judge at hj
    split at hj
    · exact absurd (Except.error.inj hj) (hlocal h)
    · rename_i r
      split at hj
      · rename_i hsuccess
        rw [Bool.not_eq_true'] at hsuccess
        have hp := Except.error.inj hj
        unfold Failure.refused at hp
        obtain ⟨hstatus, htext⟩ := Failure.protocol.inj hp
        exact ⟨r, rfl, hsuccess, hstatus.symm, htext.symm⟩
      · split at hj
        · exact nomatch hj
        · rename_i he
          exact absurd (Except.error.inj hj) (hlocal (Http.statusless_content h he))
        · split at hj
          · rename_i f hf
            obtain ⟨message, body, rfl⟩ := ofBody_eq_error hf
            exact nomatch hj
          · exact nomatch hj
  · rintro ⟨r, rfl, hsuccess, rfl, rfl⟩
    simp only [judge, hsuccess, Bool.not_false, if_true, Failure.refused, saying]

theorem judge_of_unread (n : Notifier) (id : String) {r : Response} (hr : r.isSuccess = true)
    {e : Error} (hc : r.content = .error e) (he : ∀ limit, e ≠ .bodyExceedsLimit limit) :
    (n.judge id (.ok r)).1 = .error (n.classify e).1 := by
  simp only [judge, hr, Bool.not_true, Bool.false_eq_true, if_false, hc]

theorem judge_of_success (n : Notifier) (id : String) {r : Response} (hr : r.isSuccess = true) :
    (∃ a, (n.judge id (.ok r)).1 = .ok a) ∨
      (∃ message body, (n.judge id (.ok r)).1 = .error (.decode message body)) ∨
        ∃ e, r.content = .error e ∧ ∀ limit, e ≠ .bodyExceedsLimit limit := by
  cases hc : r.content with
  | error e =>
    by_cases he : ∃ limit, e = .bodyExceedsLimit limit
    · obtain ⟨limit, rfl⟩ := he
      refine .inr (.inl ⟨"acknowledgment exceeds " ++ decimalText limit ++ " bytes", "", ?_⟩)
      simp only [judge, hr, Bool.not_true, Bool.false_eq_true, if_false, hc]
    · exact .inr (.inr ⟨e, rfl, not_exists.1 he⟩)
  | ok body =>
    simp only [judge, hr, Bool.not_true, Bool.false_eq_true, if_false, hc]
    cases hbody : Acknowledgment.ofBody body with
    | ok a => exact .inl ⟨a, rfl⟩
    | error f =>
      obtain ⟨message, text, rfl⟩ := ofBody_eq_error hbody
      exact .inr (.inl ⟨message, text, rfl⟩)

theorem send_of_post (n : Notifier) {s : Service} {e : Event} {r : Request}
    (h : Request.post n.endpoint n.token e.encode = .ok r) :
    (n.send s e).outcome = (n.judge e.id (exchange s r maxRedirects).outcome).1 ∧
      (n.send s e).requests = (exchange s r maxRedirects).requests := by
  unfold send
  rw [h]
  exact ⟨rfl, rfl⟩

theorem send_of_not_post (n : Notifier) {s : Service} {e : Event} {f : Error}
    (h : Request.post n.endpoint n.token e.encode = .error f) :
    (n.send s e).outcome = .error (n.classify f).1 ∧ (n.send s e).requests = [] := by
  unfold send
  rw [h]
  exact ⟨rfl, rfl⟩

end Notifier

/-- The notifier has an address at which the service listens, and a token that can be sent. -/
def Usable (n : Notifier) (s : Service) : Prop :=
  ∃ uri, Http.Uri.parse n.endpoint = .ok uri ∧ uri.check = .ok () ∧ s.address = some uri.host ∧
    n.token.toList.all Http.isVisible = true

theorem isHeaderChar_of_isVisible {c : Char} (h : Http.isVisible c = true) :
    Http.isHeaderChar c = true := by
  simp only [Http.isVisible, Http.isHeaderChar, Bool.or_eq_true, Bool.and_eq_true, beq_iff_eq,
    decide_eq_true_eq, bne_iff_ne, ne_eq] at h ⊢
  rcases h with h | h
  · exact .inl h
  · exact .inr ⟨h.1, by omega⟩

theorem Usable.post {n : Notifier} {s : Service} (h : Usable n s) (body : String) :
    ∃ r, Request.post n.endpoint n.token body = .ok r ∧ Reaches s r := by
  obtain ⟨uri, huri, hcheck, haddress, htoken⟩ := h
  let r : Request := ⟨.post, uri, [(Request.authorization, "Bearer " ++ n.token),
    (Request.contentType, "application/json")], body⟩
  have hpost : Request.post n.endpoint n.token body = .ok r :=
    Http.post_eq_ok.2 ⟨uri, huri,
      fun c hc => isHeaderChar_of_isVisible (List.all_eq_true.1 htoken c hc), rfl⟩
  have hsendable : r.sendable = true := by
    have hbearer : ("Bearer " ++ n.token).toList.all Http.isVisible = true := by
      rw [String.toList_append, List.all_append, htoken]
      rfl
    simp only [Request.sendable, Request.header?, r, List.lookup_cons_self, Option.all_some,
      hbearer]
  exact ⟨r, hpost, hcheck, haddress, hsendable⟩

theorem parse_example :
    Http.Uri.parse "http://h/api/v1/events" = .ok ⟨some "http", "h", "/api/v1/events"⟩ := rfl

theorem usable_example (replies : List Reply) :
    Usable ⟨"http://h/api/v1/events", "t", 10⟩ ⟨some "h", replies⟩ :=
  ⟨_, parse_example, Http.check_http rfl, rfl, by decide⟩

end EventPost
