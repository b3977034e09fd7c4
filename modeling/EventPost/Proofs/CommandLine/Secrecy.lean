import EventPost.Proofs.CommandLine.Request
import EventPost.Proofs.Submission.Judgment
import EventPost.Settings.Overrides

/-!
The token shows in one place only: the header of the request that posts the event. Two runs that
differ in their tokens answer, report and note the same, and what follows a redirection carries no
token. A token that is no text to the client gives itself away: the request is not sent.
-/

namespace EventPost

open Http (Request Service Exchange Reaches Uri visit exchange isHeaderChar isVisible)

/-- Two tokens that may stand in a header, and that are both text to the client or both not. -/
structure Comparable (t t' : String) : Prop where
  present : t.isEmpty = false ∧ t'.isEmpty = false
  legal : t.toList.all isHeaderChar = true ∧ t'.toList.all isHeaderChar = true
  visible : t.toList.all isVisible = t'.toList.all isVisible

def Http.Request.showing (r : Request) (token : String) : Request :=
  { r with headers := (Request.authorization, "Bearer " ++ token) :: r.headers }

def Http.Request.Tokenless (r : Request) : Prop := r.header? Request.authorization = none

/-- The same requests, but for the token that the first one shows. -/
inductive Twins (t t' : String) : List Request → List Request → Prop
  | unsent : Twins t t' [] []
  | sent {r : Request} {more : List Request} : r.Tokenless → (∀ q ∈ more, q.Tokenless) →
    Twins t t' (r.showing t :: more) (r.showing t' :: more)

theorem Twins.length_eq {t t' : String} {first first' : List Request}
    (h : Twins t t' first first') : first.length = first'.length := by
  cases h with
  | unsent => rfl
  | sent => rfl

theorem Twins.append {t t' : String} {first first' more : List Request}
    (h : Twins t t' first first') (hs : first ≠ []) (hm : ∀ q ∈ more, q.Tokenless) :
    Twins t t' (first ++ more) (first' ++ more) := by
  cases h with
  | unsent => exact absurd rfl hs
  | sent h hmore =>
    refine .sent h ?_
    intro q hq
    rcases List.mem_append.1 hq with hq | hq
    · exact hmore q hq
    · exact hm q hq

namespace Http

variable {s : Service} {r : Request} {t t' : String}

theorem post_showing (address : String) {token : String}
    (h : token.toList.all isHeaderChar = true) (body : String) :
    Request.post address token body = match Uri.parse address with
      | .error e => .error (.invalidRequest e.message)
      | .ok uri => .ok (Request.showing
        ⟨.post, uri, [(Request.contentType, "application/json")], body⟩ token) := by
  unfold Request.post
  simp only [h, if_true]
  rfl

theorem sendable_showing (r : Request) (token : String) :
    (r.showing token).sendable = token.toList.all isVisible := by
  have hprefix : "Bearer ".toList.all isVisible = true := by decide
  have hvalue : (r.showing token).header? Request.authorization = some ("Bearer " ++ token) :=
    List.lookup_cons_self
  rw [Request.sendable, hvalue, Option.all_some, String.toList_append, List.all_append, hprefix,
    Bool.true_and]

theorem tokenless_redirected (r : Request) (uri : Uri) : (r.redirected uri).Tokenless :=
  authorization_redirected r uri

theorem redirected_showing (r : Request) (t t' : String) (uri : Uri) :
    (r.showing t).redirected uri = (r.showing t').redirected uri := by
  simp only [Request.redirected, Request.showing, List.filter_cons, ne_eq, not_true_eq_false,
    decide_false, Bool.false_eq_true, if_false]

theorem tokenless_exchange (h : r.Tokenless) (hops : Nat) :
    ∀ q ∈ (exchange s r hops).requests, q.Tokenless := by
  have hvisit : ∀ {s : Service} {r : Request}, r.Tokenless →
      ∀ q ∈ (visit s r).requests, q.Tokenless := by
    intro s r h q hq
    by_cases hr : Reaches s r
    · rw [visit_of_reaches hr, List.mem_singleton] at hq
      rw [hq]
      exact h
    · obtain ⟨e, -, hv⟩ := visit_of_not_reaches hr
      rw [hv] at hq
      exact absurd hq List.not_mem_nil
  -- The service changes with each visit, and the request with each redirection.
  induction hops generalizing s r with
  | zero =>
    rw [exchange]
    split
    · exact hvisit h
    · exact hvisit h
  | succ hops ih =>
    rw [exchange]
    split
    · exact hvisit h
    · exact hvisit h
    · intro q hq
      rcases List.mem_append.1 hq with hq | hq
      · exact hvisit h q hq
      · exact ih (tokenless_redirected r _) q hq

/-- Two exchanges that came to the same, with the same requests but for the token. -/
structure Alike (t t' : String) (x x' : Exchange) : Prop where
  outcome : x.outcome = x'.outcome
  service : x.service = x'.service
  requests : Twins t t' x.requests x'.requests

theorem alike_visit (h : r.Tokenless) (hv : t.toList.all isVisible = t'.toList.all isVisible) :
    Alike t t' (visit s (r.showing t)) (visit s (r.showing t')) := by
  have huri : ∀ token, (r.showing token).uri = r.uri := fun _ => rfl
  simp only [visit, huri, sendable_showing, hv]
  cases r.uri.check with
  | error e => exact ⟨rfl, rfl, .unsent⟩
  | ok =>
    dsimp only
    split
    · exact ⟨rfl, rfl, .unsent⟩
    · split
      · exact ⟨rfl, rfl, .unsent⟩
      · exact ⟨rfl, rfl, .sent h fun _ hq => absurd hq List.not_mem_nil⟩

theorem Alike.next? {x x' : Exchange} (h : Alike t t' x x') (r : Request) :
    x.next? (r.showing t) = x'.next? (r.showing t') := by
  rw [Exchange.next?, Exchange.next?, h.outcome]
  rfl

theorem alike_exchange (h : r.Tokenless) (hv : t.toList.all isVisible = t'.toList.all isVisible)
    (hops : Nat) :
    Alike t t' (exchange s (r.showing t) hops) (exchange s (r.showing t') hops) := by
  have hvisit : Alike t t' (visit s (r.showing t)) (visit s (r.showing t')) := alike_visit h hv
  cases hops with
  | zero =>
    rw [exchange, exchange, hvisit.next?]
    split
    · exact ⟨rfl, hvisit.service, hvisit.requests⟩
    · exact hvisit
  | succ hops =>
    rw [exchange, exchange]
    dsimp only
    rw [hvisit.next?]
    split
    · exact hvisit
    · exact ⟨rfl, hvisit.service, hvisit.requests⟩
    · rename_i uri hnext
      rw [redirected_showing r t t', hvisit.service]
      refine ⟨rfl, rfl, Twins.append hvisit.requests ?_ ?_⟩
      · rw [← hvisit.next?] at hnext
        obtain ⟨response, ho, -⟩ := next?_eq_some hnext
        obtain ⟨-, reply, rest, -, -, hx⟩ := visit_eq_ok ho
        rw [hx]
        exact List.cons_ne_nil _ _
      · exact tokenless_exchange (tokenless_redirected _ uri) hops

end Http

variable {t t' : String}

namespace Notifier

def showing (n : Notifier) (token : String) : Notifier := { n with token := token }

theorem send_showing (n : Notifier) (h : Comparable t t') (s : Service) (e : Event) :
    ((n.showing t).send s e).outcome = ((n.showing t').send s e).outcome ∧
      ((n.showing t).send s e).journal = ((n.showing t').send s e).journal ∧
      Twins t t' ((n.showing t).send s e).requests ((n.showing t').send s e).requests := by
  have hpost : ∀ token, token.toList.all isHeaderChar = true →
      Request.post n.endpoint token e.encode = _ := fun _ ht => Http.post_showing _ ht _
  unfold send
  simp only [showing, hpost t h.legal.1, hpost t' h.legal.2]
  cases Uri.parse n.endpoint with
  | error f => exact ⟨rfl, rfl, .unsent⟩
  | ok uri =>
    have htokenless : Request.Tokenless
        ⟨.post, uri, [(Request.contentType, "application/json")], e.encode⟩ := rfl
    have hx := Http.alike_exchange (s := s) htokenless h.visible Http.maxRedirects
    dsimp only
    rw [hx.outcome]
    exact ⟨rfl, rfl, hx.requests⟩

end Notifier

namespace ServerSettings

def showing (s : ServerSettings) (token : String) : ServerSettings := { s with token := token }

theorem describe_showing (s : ServerSettings) (h : Comparable t t') :
    (s.showing t).describe = (s.showing t').describe := by
  have hshown : ¬(s.showing t).token.isEmpty = true := Bool.eq_false_iff.1 h.present.1
  have hshown' : ¬(s.showing t').token.isEmpty = true := Bool.eq_false_iff.1 h.present.2
  have hurl : (s.showing t).url = (s.showing t').url := rfl
  have hsecs : (s.showing t).timeoutSecs = (s.showing t').timeoutSecs := rfl
  unfold describe
  rw [if_neg hshown, if_neg hshown', hurl, hsecs]

end ServerSettings

namespace CommandLine

/-- What is seen of a run whose token is `t`, but for the requests, is seen of one with `t'`. -/
structure Concealed (t t' : String) (x x' : Outcome) : Prop where
  status : x.status = x'.status
  stdout : x.stdout = x'.stdout
  stderr : x.stderr = x'.stderr
  journal : x.journal = x'.journal
  requests : Twins t t' x.requests x'.requests

theorem Concealed.note {x x' : Outcome} (h : Concealed t t' x x') (notes : Journal) :
    Concealed t t' { x with journal := notes ++ x.journal }
      { x' with journal := notes ++ x'.journal } :=
  ⟨h.status, h.stdout, h.stderr, congrArg (notes ++ ·) h.journal, h.requests⟩

theorem concealed_rehearse (coloured : Bool) (format : Format) (n : Notifier) (e : Event) :
    Concealed t t' (rehearse coloured format (n.showing t) e)
      (rehearse coloured format (n.showing t') e) :=
  ⟨rfl, rfl, rfl, rfl, .unsent⟩

theorem concealed_submit (h : Comparable t t') (coloured : Bool) (format : Format) (n : Notifier)
    (service : Service) (e : Event) :
    Concealed t t' (submit coloured format (n.showing t) service e)
      (submit coloured format (n.showing t') service e) := by
  obtain ⟨ho, hj, hq⟩ := n.send_showing h service e
  unfold submit
  dsimp only
  rw [ho, hj]
  split
  · exact ⟨rfl, rfl, rfl, rfl, hq⟩
  · exact ⟨rfl, rfl, rfl, rfl, hq⟩

theorem concealed_run (h : Comparable t t') (a : Arguments) (title : String)
    (terminal coloured : Bool) (s : ServerSettings) (stamp : Stamp) (service : Service) :
    Concealed t t' (a.run title terminal coloured (s.showing t) stamp service)
      (a.run title terminal coloured (s.showing t') stamp service) := by
  have hserver : ∀ token, a.serverSettings (s.showing token) = (a.serverSettings s).showing token :=
    fun _ => rfl
  have hnotifier : ∀ token, Notifier.ofSettings ((a.serverSettings s).showing token) =
      (Notifier.ofSettings (a.serverSettings s)).showing token := fun _ => rfl
  have hnote : noteServer ((a.serverSettings s).showing t) =
      noteServer ((a.serverSettings s).showing t') := by
    rw [noteServer, noteServer, ServerSettings.describe_showing _ h]
  simp only [Arguments.run, hserver, hnotifier, hnote]
  by_cases hd : a.dryRun = true
  · simp only [if_pos hd]
    exact (concealed_rehearse coloured _ _ _).note _
  · simp only [if_neg hd]
    exact (concealed_submit h coloured _ _ service _).note _

open Settings (override tokenVariable noteToken noteTimeout)

theorem override_showing (s : ServerSettings) (level : LogLevel) (t t' : String)
    {lookup lookup' : String → Option String}
    (h : ∀ name, name ≠ tokenVariable → lookup name = lookup' name) :
    (override lookup' ⟨s.showing t', level⟩).1.server =
      (override lookup ⟨s.showing t, level⟩).1.server.showing
        (override lookup' ⟨s.showing t', level⟩).1.server.token := by
  have hurl : lookup' Settings.urlVariable = lookup Settings.urlVariable :=
    (h _ (by decide)).symm
  have hsecs : lookup' Settings.timeoutVariable = lookup Settings.timeoutVariable :=
    (h _ (by decide)).symm
  simp only [override, Settings.overrideServer, Settings.overrideUrl, Settings.overrideTimeout,
    ServerSettings.showing, hurl, hsecs]

/-- Whatever the tokens are, and wherever they come from: the overrides note the same, the settings
and the notifier describe themselves the same, and the runs differ in the token that the first
request shows. -/
theorem token_concealed (s : ServerSettings) (level : LogLevel) (t t' : String)
    (lookup lookup' : String → Option String)
    (hl : ∀ name, name ≠ tokenVariable → lookup name = lookup' name)
    (h : Comparable (override lookup ⟨s.showing t, level⟩).1.server.token
      (override lookup' ⟨s.showing t', level⟩).1.server.token)
    (a : Arguments) (title : String) (terminal coloured : Bool) (stamp : Stamp)
    (service : Service) :
    let settings := override lookup ⟨s.showing t, level⟩
    let settings' := override lookup' ⟨s.showing t', level⟩
    settings.2 = settings'.2 ∧
      settings.1.server.describe = settings'.1.server.describe ∧
      (Notifier.ofSettings (a.serverSettings settings.1.server)).describe =
        (Notifier.ofSettings (a.serverSettings settings'.1.server)).describe ∧
      Concealed settings.1.server.token settings'.1.server.token
        (a.run title terminal coloured settings.1.server stamp service)
        (a.run title terminal coloured settings'.1.server stamp service) := by
  intro settings settings'
  have hserver : settings'.1.server = settings.1.server.showing settings'.1.server.token :=
    override_showing s level t t' hl
  have hself : settings.1.server.showing settings.1.server.token = settings.1.server := rfl
  have hnotes : settings.2 = settings'.2 := by
    have hpresent : noteToken settings.1.server.token = noteToken settings'.1.server.token := by
      rw [noteToken, noteToken, h.present.1, h.present.2]
    have htimeout : noteTimeout lookup = noteTimeout lookup' := by
      rw [noteTimeout, noteTimeout, hl _ (by decide)]
    calc settings.2 = noteTimeout lookup ++ noteToken settings.1.server.token := rfl
      _ = noteTimeout lookup' ++ noteToken settings'.1.server.token := by rw [hpresent, htimeout]
      _ = settings'.2 := rfl
  have hdescribe := ServerSettings.describe_showing settings.1.server h
  have hrun := concealed_run h a title terminal coloured settings.1.server stamp service
  rw [hself, ← hserver] at hdescribe hrun
  refine ⟨hnotes, hdescribe, ?_, hrun⟩
  rw [hserver]
  rfl

theorem token_concealed_configured :
    let lookup' := fun name => if name = tokenVariable then some "s3cret" else none
    let settings := (override (fun _ => none) ⟨ServerSettings.default.showing "abc", .info⟩).1
    let settings' := (override lookup' ⟨ServerSettings.default.showing "", .info⟩).1
    let run := fun s => Arguments.none.run "t" false false s ⟨"rs-1", "2025-01-01T00:00:00.000Z"⟩
      ⟨some "localhost:8080", []⟩
    (∀ name, name ≠ tokenVariable → (fun _ => none) name = lookup' name) ∧
      Comparable settings.server.token settings'.server.token ∧
      Concealed "abc" "s3cret" (run settings.server) (run settings'.server) := by
  intro lookup' settings settings' run
  have hl : ∀ name, name ≠ tokenVariable → (fun _ => none) name = lookup' name :=
    fun name hname => (if_neg hname).symm
  have h : Comparable settings.server.token settings'.server.token :=
    ⟨by decide, by decide, by decide⟩
  have hrun := token_concealed .default .info "abc" "" (fun _ => none) lookup' hl h .none "t" false
    false ⟨"rs-1", "2025-01-01T00:00:00.000Z"⟩ ⟨some "localhost:8080", []⟩
  exact ⟨hl, h, hrun.2.2.2⟩

/-- A token that is legal in a header, but no text to the client, is not sent, and that is told. -/
theorem not_concealed_of_invisible :
    let s : ServerSettings := ⟨"http://h", "", 10⟩
    let service : Service := ⟨some "h", []⟩
    let run := fun token => Arguments.none.run "t" false false
      (override (fun _ => none) ⟨s.showing token, .info⟩).1.server
      ⟨"rs-1", "2025-01-01T00:00:00.000Z"⟩ service
    "t".toList.all isHeaderChar = true ∧ "é".toList.all isHeaderChar = true ∧
      (run "t").requests.length = 1 ∧ (run "é").requests = [] ∧
      ¬Concealed "t" "é" (run "t") (run "é") := by
  intro s service run
  let e := Event.ofNotification (Arguments.none.notification "t")
    ⟨"rs-1", "2025-01-01T00:00:00.000Z"⟩
  let n (token : String) : Notifier := ⟨"http://h/api/v1/events", token, 10⟩
  let r (body : String) : Request := ⟨.post, ⟨some "http", "h", "/api/v1/events"⟩,
    [(Request.contentType, "application/json")], body⟩
  have hrun : ∀ token, (run token).requests = ((n token).send service e).requests := by
    intro token
    have hendpoint : Notifier.endpointOf "http://h" = "http://h/api/v1/events" := by
      decide +kernel
    have hn : Notifier.ofSettings ⟨"http://h", token, 10⟩ = n token :=
      congrArg (fun endpoint => Notifier.mk endpoint token 10) hendpoint
    exact (requests_run rfl _ _ _ _ _ _).trans
      (congrArg (fun n => (Notifier.send n service e).requests) hn)
  have hpost : ∀ token, token.toList.all isHeaderChar = true →
      ((n token).send service e).requests =
        (exchange service ((r e.encode).showing token) Http.maxRedirects).requests := by
    intro token ht
    refine ((n token).send_of_post ?_).2
    rw [Http.post_showing _ ht, parse_example]
  have hsent : (run "t").requests = [(r e.encode).showing "t"] := by
    have hhost : Uri.host ⟨some "http", "h", "/api/v1/events"⟩ = "h" := rfl
    have hreaches : ∀ body, Reaches service ((r body).showing "t") :=
      fun body => ⟨Http.check_http rfl, congrArg some hhost.symm, by rw [Http.sendable_showing]; decide⟩
    have hv := Http.visit_of_reaches (hreaches e.encode)
    rw [hrun, hpost "t" (by decide), Http.exchange_of_final (by rw [hv]; rfl), hv]
  have hunsent : (run "é").requests = [] := by
    have hreaches : ¬Reaches service ((r e.encode).showing "é") := by
      intro h
      have hsendable := h.sendable
      rw [Http.sendable_showing] at hsendable
      exact absurd hsendable (by decide)
    obtain ⟨f, -, hx⟩ := Http.exchange_of_unreached hreaches Http.maxRedirects
    rw [hrun, hpost "é" (by decide), hx]
  refine ⟨by decide, by decide, by rw [hsent]; rfl, hunsent, ?_⟩
  intro h
  have hq := h.requests
  rw [hsent, hunsent] at hq
  exact absurd hq.length_eq (by decide)

end CommandLine

end EventPost
