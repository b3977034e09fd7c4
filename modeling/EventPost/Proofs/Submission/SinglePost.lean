import EventPost.Proofs.Result
import EventPost.Proofs.Submission.Judgment

/-!
One submission as one request. A redirection is where that fails: the client follows it with a
question that carries no event, and takes an acknowledgment of the question for one of the event.
A submission is one post exactly when its first answer does not send the client on, and its head can
be read.
-/

namespace EventPost

open Text (Bytes)
open Http (Answer Request Reply Response Service Head Uri Reaches visit exchange)

/-- The request is the one for the event: a post of its text to the address of the notifier. -/
structure Posts (n : Notifier) (e : Event) (q : Request) : Prop where
  method : q.method = .post
  address : Uri.parse n.endpoint = .ok q.uri
  body : q.body = e.encode

/-- What a submission promises of its requests and of what it comes to. -/
structure SinglePost (n : Notifier) (s : Service) (e : Event) : Prop where
  atMostOne : (n.send s e).requests.length ≤ 1
  posted : ∀ q ∈ (n.send s e).requests, Posts n e q
  refused : (n.send s e).requests ≠ [] → ∀ reply rest, s.replies = reply :: rest →
    ∀ h body, Head.read reply.bytes = .ok (some (h, some body)) →
      ¬(200 ≤ h.status ∧ h.status ≤ 299) →
        ∃ text, (n.send s e).outcome = .error (.protocol h.status text)
  acknowledged : ∀ a, (n.send s e).outcome = .ok a →
    ∃ (i : Nat) (q : Request) (reply : Reply) (response : Response) (content : Bytes),
      (n.send s e).requests[i]? = some q ∧ q.body = e.encode ∧ s.replies[i]? = some reply ∧
      Response.read reply.bytes reply.ending = .ok response ∧ response.content = .ok content ∧
      Acknowledgment.ofBody content = .ok a

/-- The first answer to a request leaves the client where it is. A whole head that is no success is
no redirection and can be read, and a redirection that breaks off leads to no service. -/
structure Stays (s : Service) (r : Request) : Prop where
  whole : ∀ reply rest, s.replies = reply :: rest →
    ∀ h body, Head.read reply.bytes = .ok (some (h, some body)) →
      ¬(200 ≤ h.status ∧ h.status ≤ 299) →
        h.redirects = false ∧ ∃ response, Response.read reply.bytes reply.ending = .ok response
  onward : ∀ uri, (visit s r).next? r = some (.ok uri) →
    ¬Reaches (visit s r).service (r.redirected uri)

theorem posts_of_post {n : Notifier} {e : Event} {r : Request}
    (h : Request.post n.endpoint n.token e.encode = .ok r) : Posts n e r := by
  obtain ⟨uri, huri, -, rfl⟩ := Http.post_eq_ok.1 h
  exact ⟨rfl, huri, rfl⟩

theorem redirects_of_status {g h : Head} (hs : g.status = h.status) :
    g.redirects = h.redirects := by
  rw [Head.redirects, Head.redirects, hs]

theorem stays_of_singlePost {n : Notifier} {s : Service} {e : Event} {r : Request}
    (hp : Request.post n.endpoint n.token e.encode = .ok r) (hr : Reaches s r)
    (h : SinglePost n s e) : Stays s r := by
  obtain ⟨ho, hq⟩ := n.send_of_post (s := s) hp
  obtain ⟨more, hmore⟩ := Http.requests_exchange hr Http.maxRedirects
  refine ⟨?_, ?_⟩
  · intro reply rest hs head body hhead hstatus
    have hsent : (n.send s e).requests ≠ [] := by
      rw [hq, hmore]
      exact List.cons_ne_nil r more
    obtain ⟨text, htext⟩ := h.refused hsent reply rest hs head body hhead hstatus
    rw [ho, n.judge_eq_protocol (attested_exchange s r _)] at htext
    obtain ⟨last, hlast, -, heq, -⟩ := htext
    refine ⟨?_, ?_⟩
    · rw [redirects_of_status heq]
      exact (Http.exchange_eq_ok hlast).1
    · -- Without a response to the first request the exchange ends with its error.
      cases hread : Response.read reply.bytes reply.ending with
      | ok response => exact ⟨response, rfl⟩
      | error f =>
        have ha : s.answer = (reply, { s with replies := rest }) := by rw [Service.answer, hs]
        have hv := Http.visit_of_reaches hr
        rw [ha, hread] at hv
        rw [Http.exchange_of_final (by rw [hv]; rfl), hv] at hlast
        cases hlast
  · intro uri huri hreaches
    obtain ⟨others, hothers⟩ := Http.requests_exchange hreaches 9
    have hlength := h.atMostOne
    rw [hq, show Http.maxRedirects = 9 + 1 from rfl, Http.exchange_of_onward huri,
      Http.visit_of_reaches hr] at hlength
    rw [Http.visit_of_reaches hr] at hothers
    rw [List.length_append, hothers, List.length_cons, List.length_cons] at hlength
    omega

theorem exchange_of_stays {s : Service} {r : Request} (hr : Reaches s r) (h : Stays s r) :
    (exchange s r Http.maxRedirects).requests = [r] ∧
      (∀ response, (exchange s r Http.maxRedirects).outcome = .ok response →
        (visit s r).outcome = .ok response) := by
  have hsent : (visit s r).requests = [r] := by rw [Http.visit_of_reaches hr]
  cases hnext : (visit s r).next? r with
  | none =>
    rw [Http.exchange_of_final hnext]
    exact ⟨hsent, fun _ ho => ho⟩
  | some next =>
    cases next with
    | error f =>
      rw [show Http.maxRedirects = 9 + 1 from rfl, exchange, hnext]
      exact ⟨hsent, fun _ ho => by cases ho⟩
    | ok uri =>
      obtain ⟨hq, f, hf⟩ := Http.exchange_of_not_reaches hnext (h.onward uri hnext) 9
      refine ⟨hq.trans hsent, ?_⟩
      intro response ho
      rw [show Http.maxRedirects = 9 + 1 from rfl, hf] at ho
      cases ho

theorem singlePost_of_stays {n : Notifier} {s : Service} {e : Event} {r : Request}
    (hp : Request.post n.endpoint n.token e.encode = .ok r) (hr : Reaches s r) (h : Stays s r) :
    SinglePost n s e := by
  obtain ⟨ho, hq⟩ := n.send_of_post (s := s) hp
  obtain ⟨hone, hvisit⟩ := exchange_of_stays hr h
  rw [hone] at hq
  refine { atMostOne := ?_, posted := ?_, refused := ?_, acknowledged := ?_ }
  · rw [hq]
    exact Nat.le_refl 1
  · intro q hmem
    rw [hq, List.mem_singleton] at hmem
    rw [hmem]
    exact posts_of_post hp
  · intro _ reply rest hs head body hhead hstatus
    obtain ⟨hredirects, response, hread⟩ := h.whole reply rest hs head body hhead hstatus
    have hresponse : response.head = head := Http.head_of_read hhead hread
    have ha : s.answer = (reply, { s with replies := rest }) := by rw [Service.answer, hs]
    have hv : (visit s r).outcome = .ok response := by rw [Http.visit_of_reaches hr, ha, hread]
    have hfinal : (visit s r).next? r = none := by
      rw [Http.next?_eq_none hv, hresponse]
      exact hredirects
    rw [Http.exchange_of_final hfinal, hv] at ho
    have hattested : Attested (.ok response) := Http.sound_of_read hread
    have hfailure : response.isSuccess = false := by
      rw [Bool.eq_false_iff, ne_eq, Http.isSuccess_iff, hresponse]
      exact hstatus
    refine ⟨saying response.text?, ?_⟩
    rw [ho, n.judge_eq_protocol hattested]
    exact ⟨response, rfl, hfailure, by rw [← hresponse]; rfl, rfl⟩
  · intro a hok
    rw [ho, n.judge_eq_ok] at hok
    obtain ⟨response, content, hout, -, hcontent, hack⟩ := hok
    obtain ⟨-, reply, rest, hs, hread, -⟩ := Http.visit_eq_ok (hvisit response hout)
    refine ⟨0, r, reply, response, content, ?_, (posts_of_post hp).body, ?_, hread, hcontent, hack⟩
    · rw [hq]
      rfl
    · rw [hs]
      rfl

theorem singlePost_of_unsent {n : Notifier} {s : Service} {e : Event}
    (hq : (n.send s e).requests = []) (ho : ∀ a, (n.send s e).outcome ≠ .ok a) :
    SinglePost n s e := by
  refine { atMostOne := ?_, posted := ?_, refused := ?_, acknowledged := ?_ }
  · rw [hq]
    exact Nat.zero_le 1
  · intro q hmem
    rw [hq] at hmem
    exact absurd hmem List.not_mem_nil
  · intro hsent
    exact absurd hq hsent
  · intro a ha
    exact absurd ha (ho a)

/-- A submission keeps what it promises exactly when the first answer to its request, if that
reaches the service at all, does not send the client on. -/
theorem singlePost_iff {n : Notifier} {s : Service} {e : Event} : SinglePost n s e ↔
    ∀ r, Request.post n.endpoint n.token e.encode = .ok r → Reaches s r → Stays s r := by
  constructor
  · intro h r hp hr
    exact stays_of_singlePost hp hr h
  · intro h
    cases hp : Request.post n.endpoint n.token e.encode with
    | error f =>
      obtain ⟨ho, hq⟩ := n.send_of_not_post (s := s) hp
      refine singlePost_of_unsent hq ?_
      intro a ha
      rw [ho] at ha
      exact nomatch ha
    | ok r =>
      by_cases hr : Reaches s r
      · exact singlePost_of_stays hp hr (h r hp hr)
      · obtain ⟨ho, hq⟩ := n.send_of_post (s := s) hp
        obtain ⟨f, -, hv⟩ := Http.visit_of_not_reaches hr
        rw [Http.exchange_of_final (by rw [hv]; rfl), hv] at ho hq
        refine singlePost_of_unsent hq ?_
        intro a ha
        rw [ho, n.judge_eq_ok] at ha
        obtain ⟨response, content, hout, -⟩ := ha
        exact nomatch hout

theorem plain_location : Http.Plain [("Location", "http://h/moved")] where
  wellFormed := by
    intro h hm
    rw [List.mem_singleton.1 hm]
    exact ⟨by decide, List.all_eq_true.1 (by decide), List.all_eq_true.1 (by decide), by decide,
      by decide⟩
  few := by decide
  apart := by
    intro h hm
    rw [List.mem_singleton.1 hm]
    have hname : "Location".toLower = "location" := by decide +kernel
    rw [hname]
    decide

/-- The event that is redirected is lost: the question carries none of it, and is acknowledged. -/
theorem not_singlePost_of_redirection :
    let n : Notifier := ⟨"http://h/api/v1/events", "t", 10⟩
    let moved : Answer := ⟨302, [("Location", "http://h/moved")], 0, [], .closed⟩
    let taken : Answer := ⟨200, [], 35,
      Text.bytesOf "\x7b\"accepted\":1,\"event_ids\":[\"rs-1\"]\x7d", .closed⟩
    let s : Service := ⟨some "h", [moved.reply, taken.reply]⟩
    let e := Event.ofNotification (.new "t") ⟨"rs-1", "2025-01-01T00:00:00.000Z"⟩
    (n.send s e).requests.map (fun q => (q.method, q.body)) = [(.post, e.encode), (.get, "")] ∧
      (n.send s e).outcome = .ok ⟨1, ["rs-1"]⟩ ∧ ¬SinglePost n s e := by
  intro n moved taken s e
  let uri : Uri := ⟨some "http", "h", "/moved"⟩
  let s' : Service := ⟨some "h", [taken.reply]⟩
  have hmoved : moved.Legible := ⟨by decide, by decide, plain_location, by decide⟩
  have htaken : taken.Legible := ⟨by decide, by decide, Http.plain_nil, by decide⟩
  have hu : Usable n s := usable_example _
  obtain ⟨r, hpost, hreaches⟩ := hu.post e.encode
  have hposts := posts_of_post hpost
  have hbase : ⟨some "http", "h", "/api/v1/events"⟩ = r.uri :=
    Except.ok.inj (parse_example.symm.trans hposts.address)
  have hhost : Uri.host ⟨some "http", "h", "/moved"⟩ = "h" := rfl
  have hreaches' : Reaches s' (r.redirected uri) :=
    Http.reaches_redirected r (Http.check_http rfl) (congrArg some hhost.symm)
  have hv := Http.visit_answer hreaches rfl hmoved (by decide)
  have hv' := Http.visit_answer hreaches' rfl htaken (by decide)
  have hnext : (⟨.ok moved.response, [r], s'⟩ : Http.Exchange).next? r = some (.ok uri) := by
    have hredirects : moved.response.head.redirects = true := rfl
    have hwhole : moved.response.payload.error = none := rfl
    have hlocation : moved.response.head.lastHeader? "location" =
        some (Text.bytesOf "http://h/moved") := by decide +kernel
    have htext : Head.textOf? (Text.bytesOf "http://h/moved") = some "http://h/moved" := by
      decide +kernel
    have hresolve : Uri.resolve ⟨some "http", "h", "/api/v1/events"⟩ "http://h/moved" =
        .ok ⟨some "http", "h", "/moved"⟩ := rfl
    have hstatus : ¬((moved.response.status = 307 ∨ moved.response.status = 308) ∧
        r.method = .post) := fun h => absurd h.1 (by decide)
    simp only [Http.Exchange.next?, hredirects, if_true, Http.redirection, hwhole, hlocation,
      htext, if_neg hstatus, ← hbase, hresolve]
    rfl
  have hservice : (visit s r).service = s' := by rw [hv]
  have hlast : exchange s' (r.redirected uri) 9 = _ :=
    (Http.exchange_of_final (by rw [hv']; rfl) 9).trans hv'
  have hx := Http.exchange_of_onward (hv ▸ hnext) 9
  rw [hservice, hlast, hv] at hx
  obtain ⟨ho, hq⟩ := n.send_of_post (s := s) hpost
  rw [show Http.maxRedirects = 9 + 1 from rfl, hx] at ho hq
  have hrequests : (n.send s e).requests = [r, r.redirected uri] := hq
  refine ⟨?_, ?_, ?_⟩
  · rw [hrequests, List.map_cons, hposts.method, hposts.body]
    rfl
  · rw [ho, n.judge_eq_ok]
    have hcontent : taken.response.content = .ok taken.sent := by
      rw [Answer.content_response Http.plain_nil]
      exact ⟨.inr (by decide), rfl, by decide⟩
    have hread : (Acknowledgment.ofBody (Text.bytesOf
        "\x7b\"accepted\":1,\"event_ids\":[\"rs-1\"]\x7d")).toOption = some ⟨1, ["rs-1"]⟩ := by
      decide +kernel
    exact ⟨taken.response, taken.sent, rfl, by decide, hcontent, toOption_eq_some.1 hread⟩
  · intro h
    have hone := h.atMostOne
    rw [hrequests] at hone
    exact absurd hone (by simp)

end EventPost
