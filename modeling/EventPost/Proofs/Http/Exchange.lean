import EventPost.Proofs.Http.Answer

/-!
An exchange, one request after the other. A request reaches the service or it does not; what comes
of a request that does is read from the next answer. Where the first answer sends the client
nowhere, the exchange is that one request. However many requests it takes, its response is one that
sends nowhere, read from one of the answers, and its errors are none about a status.
-/

namespace EventPost.Http

/-- The service listens where the request goes, and the request can be written. -/
structure Reaches (s : Service) (r : Request) : Prop where
  known : r.uri.check = .ok ()
  listening : s.address = some r.uri.host
  sendable : r.sendable = true

variable {s : Service} {r : Request}

theorem post_eq_ok {address token body : String} :
    Request.post address token body = .ok r ↔
      ∃ uri, Uri.parse address = .ok uri ∧ (∀ c ∈ token.toList, isHeaderChar c = true) ∧
        r = ⟨.post, uri, [("authorization", "Bearer " ++ token),
          ("content-type", "application/json")], body⟩ := by
  unfold Request.post
  cases Uri.parse address with
  | error f => simp
  | ok uri =>
    simp only [Except.ok.injEq, exists_eq_left', ← List.all_eq_true]
    split
    · rename_i htoken
      simp only [htoken, true_and, Except.ok.injEq]
      exact eq_comm
    · rename_i htoken
      simp [htoken]

theorem visit_of_reaches (h : Reaches s r) : visit s r =
    ⟨Response.read s.answer.1.bytes s.answer.1.ending, [r], s.answer.2⟩ := by
  rw [visit, h.known]
  simp only [h.listening, h.sendable, ne_eq, not_true_eq_false, if_false, Bool.not_true,
    Bool.false_eq_true]

/-- An error that needs no service: none about a status, and none for lack of time. -/
def Error.Immediate : Error → Prop
  | .statusCode _ | .timeout _ | .io true _ => False
  | _ => True

theorem Error.Immediate.statusless {e : Error} (h : e.Immediate) : e.Statusless := by
  cases e with
  | statusCode status => exact h.elim
  | _ => exact trivial

theorem immediate_of_check {uri : Uri} {e : Error} (h : uri.check = .error e) : e.Immediate := by
  unfold Uri.check at h
  split at h
  · rw [← Except.error.inj h]
    exact trivial
  · split at h
    · exact nomatch h
    · rw [← Except.error.inj h]
      exact trivial

theorem check_http {uri : Uri} (h : uri.scheme = some "http") : uri.check = .ok () := by
  have hknown : Uri.knownSchemes.contains "http".toLower = true := by decide +kernel
  rw [Uri.check, h]
  exact if_pos hknown

theorem authorization_redirected (r : Request) (uri : Uri) :
    (r.redirected uri).header? Request.authorization = none := by
  rw [Request.header?, List.lookup_eq_none_iff]
  intro h hm
  have hne : h.1 ≠ Request.authorization := of_decide_eq_true (List.mem_filter.1 hm).2
  exact bne_iff_ne.2 hne.symm

theorem reaches_redirected (r : Request) {uri : Uri} (hcheck : uri.check = .ok ())
    (haddress : s.address = some uri.host) : Reaches s (r.redirected uri) where
  known := hcheck
  listening := haddress
  sendable := by
    rw [Request.sendable, authorization_redirected]
    rfl

theorem visit_of_not_reaches (h : ¬Reaches s r) :
    ∃ e, e.Immediate ∧ visit s r = ⟨.error e, [], s⟩ := by
  unfold visit
  split
  · rename_i e he
    exact ⟨e, immediate_of_check he, rfl⟩
  · rename_i hknown
    by_cases hlistening : s.address = some r.uri.host
    · rw [if_neg (not_not_intro hlistening)]
      have hsendable : r.sendable = false := by
        rw [← Bool.not_eq_true]
        intro hs
        exact h ⟨hknown, hlistening, hs⟩
      rw [hsendable]
      exact ⟨.brokenProtocol _, trivial, rfl⟩
    · rw [if_pos hlistening]
      exact ⟨.refused, trivial, rfl⟩

theorem statusless_visit {e : Error} (h : (visit s r).outcome = .error e) : e.Statusless := by
  by_cases hr : Reaches s r
  · rw [visit_of_reaches hr] at h
    exact statusless_read h
  · obtain ⟨f, hf, hv⟩ := visit_of_not_reaches hr
    rw [hv] at h
    exact .of_error h hf.statusless

theorem visit_eq_ok {response : Response} (h : (visit s r).outcome = .ok response) :
    Reaches s r ∧ ∃ reply rest, s.replies = reply :: rest ∧
      Response.read reply.bytes reply.ending = .ok response ∧
      visit s r = ⟨.ok response, [r], { s with replies := rest }⟩ := by
  by_cases hr : Reaches s r
  · refine ⟨hr, ?_⟩
    rw [visit_of_reaches hr] at h ⊢
    cases hs : s.replies with
    | nil =>
      -- Nothing begins a head, so a service without an answer gives no response.
      have ha : s.answer = (.silence, s) := by rw [Service.answer, hs]
      rw [ha] at h
      exact nomatch h
    | cons reply rest =>
      have ha : s.answer = (reply, { s with replies := rest }) := by rw [Service.answer, hs]
      rw [ha] at h ⊢
      have hread : Response.read reply.bytes reply.ending = .ok response := h
      exact ⟨reply, rest, rfl, hread, by rw [hread]⟩
  · obtain ⟨e, -, hv⟩ := visit_of_not_reaches hr
    rw [hv] at h
    exact nomatch h

theorem visit_answer (h : Reaches s r) {a : Answer} {rest : List Reply}
    (hs : s.replies = a.reply :: rest) (ha : a.Legible) (hl : a.announced ≤ Numeral.maxWord) :
    visit s r = ⟨.ok a.response, [r], { s with replies := rest }⟩ := by
  have hanswer : s.answer = (a.reply, { s with replies := rest }) := by rw [Service.answer, hs]
  rw [visit_of_reaches h, hanswer, Answer.read_reply ha, if_pos hl]

theorem statusless_redirection {response : Response} (hs : response.payload.Sound) {e : Error}
    (h : redirection r response = .error e) : e.Statusless := by
  unfold redirection at h
  split at h
  · rename_i he
    exact .of_error h (hs _ he)
  · split at h
    · exact .of_error h trivial
    · split at h
      · exact .of_error h trivial
      · split at h
        · exact .of_error h trivial
        · rename_i location _ _
          cases hu : r.uri.resolve location with
          | ok uri => rw [hu] at h; exact nomatch h
          | error f =>
            rw [hu] at h
            exact .of_error h trivial

theorem next?_eq_some {x : Exchange} {next : Except Error Uri} (h : x.next? r = some next) :
    ∃ response, x.outcome = .ok response ∧ response.head.redirects = true ∧
      redirection r response = next := by
  unfold Exchange.next? at h
  split at h
  · rename_i response ho
    split at h
    · rename_i hredirects
      exact ⟨response, ho, hredirects, Option.some.inj h⟩
    · exact nomatch h
  · exact nomatch h

theorem next?_eq_none {x : Exchange} {response : Response} (ho : x.outcome = .ok response) :
    x.next? r = none ↔ response.head.redirects = false := by
  rw [Exchange.next?, ho]
  simp only [ite_eq_right_iff, reduceCtorEq, imp_false, Bool.not_eq_true]

theorem exchange_of_unreached (h : ¬Reaches s r) (hops : Nat) :
    ∃ e, e.Immediate ∧ exchange s r hops = ⟨.error e, [], s⟩ := by
  obtain ⟨e, he, hv⟩ := visit_of_not_reaches h
  exact ⟨e, he, by rw [exchange_of_final (by rw [hv]; rfl), hv]⟩

theorem requests_exchange (h : Reaches s r) (hops : Nat) :
    ∃ more, (exchange s r hops).requests = r :: more := by
  have hv : (visit s r).requests = [r] := by rw [visit_of_reaches h]
  cases hops with
  | zero =>
    rw [exchange]
    split
    · exact ⟨[], hv⟩
    · exact ⟨[], hv⟩
  | succ hops =>
    rw [exchange]
    split
    · exact ⟨[], hv⟩
    · exact ⟨[], hv⟩
    · exact ⟨_, by rw [hv]; rfl⟩

theorem redirected_of_mem_requests {hops : Nat} {q : Request}
    (h : q ∈ (exchange s r hops).requests) : q = r ∨ ∃ p uri, q = Request.redirected p uri := by
  have hvisit : ∀ {s : Service} {r : Request}, q ∈ (visit s r).requests → q = r := by
    intro s r hq
    by_cases hr : Reaches s r
    · rw [visit_of_reaches hr] at hq
      exact List.mem_singleton.1 hq
    · obtain ⟨e, -, hv⟩ := visit_of_not_reaches hr
      rw [hv] at hq
      exact absurd hq List.not_mem_nil
  induction hops generalizing s r with
  | zero =>
    rw [exchange] at h
    split at h
    · exact .inl (hvisit h)
    · exact .inl (hvisit h)
  | succ hops ih =>
    rw [exchange] at h
    split at h
    · exact .inl (hvisit h)
    · exact .inl (hvisit h)
    · rename_i uri hnext
      rcases List.mem_append.1 h with h | h
      · exact .inl (hvisit h)
      · rcases ih h with hq | hq
        · exact .inr ⟨r, uri, hq⟩
        · exact .inr hq

theorem exchange_of_not_reaches {uri : Uri} (h : (visit s r).next? r = some (.ok uri))
    (hr : ¬Reaches (visit s r).service (r.redirected uri)) (hops : Nat) :
    (exchange s r (hops + 1)).requests = (visit s r).requests ∧
      ∃ e, (exchange s r (hops + 1)).outcome = .error e := by
  obtain ⟨e, -, hx⟩ := exchange_of_unreached hr hops
  rw [exchange_of_onward h, hx]
  exact ⟨List.append_nil _, e, rfl⟩

theorem statusless_exchange {hops : Nat} {e : Error}
    (h : (exchange s r hops).outcome = .error e) : e.Statusless := by
  induction hops generalizing s r with
  | zero =>
    rw [exchange] at h
    split at h
    · exact .of_error h trivial
    · exact statusless_visit h
  | succ hops ih =>
    rw [exchange] at h
    split at h
    · exact statusless_visit h
    · rename_i hnext
      obtain ⟨response, ho, -, hred⟩ := next?_eq_some hnext
      obtain ⟨-, reply, rest, -, hread, -⟩ := visit_eq_ok ho
      exact .of_error h (statusless_redirection (sound_of_read hread) hred)
    · exact ih h

theorem exchange_eq_ok {hops : Nat} {response : Response}
    (h : (exchange s r hops).outcome = .ok response) : response.head.redirects = false ∧
      ∃ reply ∈ s.replies, Response.read reply.bytes reply.ending = .ok response := by
  have hfinal : ∀ {s : Service} {r : Request}, (visit s r).next? r = none →
      (visit s r).outcome = .ok response → response.head.redirects = false ∧
        ∃ reply ∈ s.replies, Response.read reply.bytes reply.ending = .ok response := by
    intro s r hnext ho
    obtain ⟨-, reply, rest, hs, hread, -⟩ := visit_eq_ok ho
    exact ⟨(next?_eq_none ho).1 hnext, reply, hs ▸ List.mem_cons_self, hread⟩
  induction hops generalizing s r with
  | zero =>
    rw [exchange] at h
    split at h
    · cases h
    · rename_i hnext
      rw [Option.not_isSome_iff_eq_none] at hnext
      exact hfinal hnext h
  | succ hops ih =>
    rw [exchange] at h
    split at h
    · rename_i hnext
      exact hfinal hnext h
    · cases h
    · rename_i hnext
      -- The answers that are left when the exchange goes on are answers of the service.
      obtain ⟨first, ho, -, -⟩ := next?_eq_some hnext
      obtain ⟨-, reply, rest, hs, -, hv⟩ := visit_eq_ok ho
      rw [hv] at h
      obtain ⟨hredirects, last, hlast, hread⟩ := ih h
      exact ⟨hredirects, last, hs ▸ List.mem_cons_of_mem reply hlast, hread⟩

end EventPost.Http
