import EventPost.Proofs.Submission.Judgment

/-!
What a failed submission says of the service. That the service could not be reached is a word for
the case that no answer came; of an answered success only the body can be at fault. The client does
not keep to that: a body that breaks off is told like a connection that never was, and so is a body
that does not unpack, and a head that the client refuses.
-/

namespace EventPost

open Http (Answer Ending Error Framing Head Payload Reaches Reply Request Response Service visit)
open Text (Bytes)

/-- The first answer to a submission that reached the service, with its head whole. -/
structure Answers (n : Notifier) (s : Service) (e : Event) (reply : Reply) (h : Head)
    (body : Bytes) : Prop where
  sent : (n.send s e).requests ≠ []
  first : s.replies.head? = some reply
  whole : Head.read reply.bytes = .ok (some (h, some body))

/-- No answer of the service sends the client to another address. -/
def Direct (s : Service) : Prop := ∀ reply ∈ s.replies, ∀ h body,
  Head.read reply.bytes = .ok (some (h, some body)) → h.redirects = false

/-- What a submission promises to say of the service. -/
structure Candid (n : Notifier) (s : Service) (e : Event) : Prop where
  unreached : ∀ message, (n.send s e).outcome = .error (.transport message false) →
    ∀ reply h body, ¬Answers n s e reply h body
  judged : ∀ reply h body, Answers n s e reply h body → 200 ≤ h.status ∧ h.status ≤ 299 →
    (∀ message, (n.send s e).outcome ≠ .error (.transport message true)) →
      (∃ a, (n.send s e).outcome = .ok a) ∨
        ∃ message text, (n.send s e).outcome = .error (.decode message text)

/-- The body of a response cannot be read, for another reason than its length or lack of time. -/
inductive Spoiled (r : Response) : Prop
  | broken {e : Error} : r.packed = false → r.payload.bytes.length < Response.maxBody →
    r.payload.error = some e → (Failure.ofHttp e).isTimeout = false → Spoiled r
  | unpacked : r.packed = true → (∀ bs cs, r.received = .ok bs → Gzip.unpack bs ≠ .ok cs) →
    Spoiled r

/-- An answer whose head came whole, and which the client takes for none. -/
inductive Flawed (reply : Reply) (h : Head) (body : Bytes) : Prop
  | length {s : String} : h.header? "content-length" = some s →
    (∀ n, Numeral.readWord s.toList ≠ .ok n) → Flawed reply h body
  | long : Response.maxHead < reply.bytes.length - body.length → Flawed reply h body
  | spoiled {framing : Framing} : Framing.ofHead h = .ok framing →
    200 ≤ h.status ∧ h.status ≤ 299 →
    Spoiled ⟨h, Payload.read framing reply.ending body⟩ → Flawed reply h body

/-- What a body that cannot be read is told by: neither its length nor lack of time. -/
def Unread (r : Response) (e : Error) : Prop :=
  r.content = .error e ∧ (∀ limit, e ≠ .bodyExceedsLimit limit) ∧
    (Failure.ofHttp e).isTimeout = false

theorem unread_of_unpacking {r : Response} {detail : String}
    (h : r.content = .error (.unpacking detail)) : Unread r (.unpacking detail) :=
  ⟨h, (fun _ hlimit => nomatch hlimit), rfl⟩

theorem unread_of_spoiled {r : Response} {framing : Framing} {ending : Ending} {body : Bytes}
    (hr : r.payload = Payload.read framing ending body) (h : Spoiled r) : ∃ e, Unread r e := by
  cases h with
  | broken hplain hshort herror htime =>
    rename_i e
    refine ⟨e, ?_, ?_, htime⟩
    · rw [Response.content, hplain, Response.received, if_neg (Nat.not_le.2 hshort), herror]
      rfl
    · rintro limit rfl
      rw [hr] at herror
      rcases Http.breaks_read herror with h | ⟨_, h⟩
      · cases ending <;> cases h
      · cases h
  | unpacked hpacked hnone =>
    cases hreceived : r.received with
    | error f =>
      refine ⟨.unpacking f.innerMessage, unread_of_unpacking ?_⟩
      rw [Response.content, if_pos hpacked, hreceived]
    | ok bs =>
      cases hunpack : Gzip.unpack bs with
      | ok cs => exact absurd hunpack (hnone bs cs hreceived)
      | error f =>
        refine ⟨.unpacking f.message, unread_of_unpacking ?_⟩
        rw [Response.content, if_pos hpacked, hreceived]
        dsimp only
        rw [hunpack]
        rfl

theorem spoiled_of_unread {r : Response} {e : Error} (h : Unread r e) : Spoiled r := by
  obtain ⟨he, hlimit, htime⟩ := h
  cases hpacked : r.packed with
  | false =>
    rw [Response.content, hpacked, Response.received] at he
    simp only [Bool.false_eq_true, if_false] at he
    split at he
    · exact absurd (Except.error.inj he).symm (hlimit _)
    · rename_i hshort
      split at he
      · rename_i herror
        rw [Except.error.inj he] at herror
        exact .broken hpacked (Nat.lt_of_not_le hshort) herror htime
      · cases he
  | true =>
    refine .unpacked hpacked ?_
    intro bs cs hbs hcs
    rw [Response.content, if_pos hpacked, hbs] at he
    dsimp only at he
    rw [hcs] at he
    cases he

variable {n : Notifier} {s : Service} {e : Event} {reply : Reply} {h : Head} {body : Bytes}

theorem outcome_of_answers (hs : Direct s) (ha : Answers n s e reply h body) :
    (n.send s e).outcome = (n.judge e.id (Response.read reply.bytes reply.ending)).1 := by
  cases hp : Request.post n.endpoint n.token e.encode with
  | error f => exact absurd (n.send_of_not_post (s := s) hp).2 ha.sent
  | ok r =>
    obtain ⟨ho, hq⟩ := n.send_of_post (s := s) hp
    have hr : Reaches s r := by
      by_cases hr : Reaches s r
      · exact hr
      · obtain ⟨f, -, hx⟩ := Http.exchange_of_unreached hr Http.maxRedirects
        rw [hx] at hq
        exact absurd hq ha.sent
    obtain ⟨rest, hreplies⟩ := List.head?_eq_some_iff.1 ha.first
    have hanswer : s.answer = (reply, { s with replies := rest }) := by
      rw [Service.answer, hreplies]
    have hv : (visit s r).outcome = Response.read reply.bytes reply.ending := by
      rw [Http.visit_of_reaches hr, hanswer]
    have hfinal : (visit s r).next? r = none := by
      cases hread : Response.read reply.bytes reply.ending with
      | error f => rw [Http.Exchange.next?, hv, hread]
      | ok response =>
        rw [Http.next?_eq_none (hv.trans hread), Http.head_of_read ha.whole hread]
        exact hs reply (List.mem_of_mem_head? ha.first) h body ha.whole
    rw [ho, Http.exchange_of_final hfinal, hv]

theorem unreached_of_error (id : String) {f : Error} (hf : f.Statusless)
    (ht : (Failure.ofHttp f).isTimeout = false) :
    ∃ message, (n.judge id (.error f)).1 = .error (.transport message false) := by
  obtain ⟨message, hm⟩ := n.classify_statusless hf
  rw [ht] at hm
  exact ⟨message, congrArg Except.error hm⟩

theorem judge_eq_unreached_of_ok (id : String) {r : Response} (hp : r.payload.Sound) :
    (∃ message, (n.judge id (.ok r)).1 = .error (.transport message false)) ↔
      r.isSuccess = true ∧ ∃ e, Unread r e := by
  have hclassify : ∀ {e}, r.content = .error e →
      ∃ message, (n.classify e).1 = .transport message (Failure.ofHttp e).isTimeout :=
    fun he => n.classify_statusless (Http.statusless_content hp he)
  constructor
  · rintro ⟨message, hm⟩
    have hsuccess : r.isSuccess = true := by
      cases hsuccess : r.isSuccess with
      | true => rfl
      | false =>
        simp only [Notifier.judge, hsuccess, Bool.not_false, if_true] at hm
        cases hm
    refine ⟨hsuccess, ?_⟩
    rcases n.judge_of_success id hsuccess with ⟨a, ha⟩ | ⟨text, body, hd⟩ | ⟨e, he, hlimit⟩
    · rw [ha] at hm
      cases hm
    · rw [hd] at hm
      cases hm
    · obtain ⟨text, ht⟩ := hclassify he
      rw [n.judge_of_unread id hsuccess he hlimit, ht] at hm
      exact ⟨e, he, hlimit, (Failure.transport.inj (Except.error.inj hm)).2⟩
  · rintro ⟨hsuccess, e, he, hlimit, htime⟩
    obtain ⟨message, hm⟩ := hclassify he
    rw [n.judge_of_unread id hsuccess he hlimit, hm, htime]
    exact ⟨message, rfl⟩

theorem judge_eq_unreached (id : String) (hw : Head.read reply.bytes = .ok (some (h, some body))) :
    (∃ message, (n.judge id (Response.read reply.bytes reply.ending)).1 =
      .error (.transport message false)) ↔ Flawed reply h body := by
  cases hf : Framing.ofHead h with
  | error f =>
    simp only [Response.read, hw, hf]
    obtain ⟨rfl, text, hs, hn⟩ := Http.ofHead_eq_error.1 hf
    exact ⟨fun _ => .length hs hn, fun _ => unreached_of_error id trivial rfl⟩
  | ok framing =>
    by_cases hlong : Response.maxHead < reply.bytes.length - body.length
    · simp only [Response.read, hw, hf, if_pos hlong]
      exact ⟨fun _ => .long hlong, fun _ => unreached_of_error id trivial rfl⟩
    · simp only [Response.read, hw, hf, if_neg hlong]
      rw [judge_eq_unreached_of_ok id (Http.sound_read _ _ _), Http.isSuccess_iff]
      constructor
      · rintro ⟨hsuccess, e, he⟩
        exact .spoiled hf hsuccess (spoiled_of_unread he)
      · intro hflawed
        cases hflawed with
        | length hs hn =>
          rw [Http.ofHead_eq_error.2 ⟨rfl, _, hs, hn⟩] at hf
          cases hf
        | long h => exact absurd h hlong
        | spoiled hframing hsuccess hspoiled =>
          obtain rfl := Except.ok.inj (hf.symm.trans hframing)
          exact ⟨hsuccess, unread_of_spoiled rfl hspoiled⟩

theorem judge_of_answered (id : String) (hw : Head.read reply.bytes = .ok (some (h, some body)))
    (hsuccess : 200 ≤ h.status ∧ h.status ≤ 299) :
    (∃ a, (n.judge id (Response.read reply.bytes reply.ending)).1 = .ok a) ∨
      (∃ message text, (n.judge id (Response.read reply.bytes reply.ending)).1 =
        .error (.decode message text)) ∨
      ∃ message timedOut, (n.judge id (Response.read reply.bytes reply.ending)).1 =
        .error (.transport message timedOut) := by
  cases hread : Response.read reply.bytes reply.ending with
  | error f =>
    obtain ⟨message, hm⟩ := n.classify_statusless (Http.statusless_read hread)
    exact .inr (.inr ⟨message, _, congrArg Except.error hm⟩)
  | ok r =>
    have hr : r.isSuccess = true := by
      rw [Http.isSuccess_iff, Http.head_of_read hw hread]
      exact hsuccess
    rcases n.judge_of_success id hr with ha | hd | ⟨e, he, hlimit⟩
    · exact .inl ha
    · exact .inr (.inl hd)
    · obtain ⟨message, hm⟩ :=
        n.classify_statusless (Http.statusless_content (Http.sound_of_read hread) he)
      rw [n.judge_of_unread id hr he hlimit]
      exact .inr (.inr ⟨message, _, congrArg Except.error hm⟩)

/-- A submission is candid exactly if the first answer, where one reaches it, has no flaw that the
client takes for silence. -/
theorem candid_iff (hs : Direct s) :
    Candid n s e ↔ ∀ reply h body, Answers n s e reply h body → ¬Flawed reply h body := by
  constructor
  · intro hc reply h body ha hflawed
    obtain ⟨message, hm⟩ := (judge_eq_unreached (n := n) e.id ha.whole).2 hflawed
    rw [← outcome_of_answers hs ha] at hm
    exact hc.unreached message hm reply h body ha
  · intro hsound
    refine { unreached := ?_, judged := ?_ }
    · intro message hm reply h body ha
      rw [outcome_of_answers hs ha] at hm
      exact hsound reply h body ha ((judge_eq_unreached e.id ha.whole).1 ⟨message, hm⟩)
    · intro reply h body ha hsuccess htime
      rw [outcome_of_answers hs ha] at htime ⊢
      rcases judge_of_answered (n := n) e.id ha.whole hsuccess with h | h | ⟨message, timedOut, hm⟩
      · exact .inl h
      · exact .inr h
      · cases timedOut with
        | true => exact absurd hm (htime message)
        | false =>
          exact absurd ((judge_eq_unreached e.id ha.whole).1 ⟨message, hm⟩) (hsound reply _ body ha)

/-- Of the answers that say how long their body is, only a success that is cut short is flawed. -/
theorem flawed_reply {a : Answer} (ha : a.Legible) (hl : a.announced ≤ Numeral.maxWord) :
    Flawed a.reply a.head a.sent ↔ (200 ≤ a.status ∧ a.status ≤ 299) ∧ a.status ≠ 204 ∧
      a.ending = .closed ∧ a.sent.length < a.announced ∧ a.sent.length < Response.maxBody := by
  have hframing : Framing.ofHead a.head = .ok a.framing := by
    rw [Answer.ofHead_head ha, if_pos hl]
  have hplain : a.response.packed = false := Answer.packed_response ha.plain
  constructor
  · intro hflawed
    cases hflawed with
    | length hs hn =>
      rw [Http.ofHead_eq_error.2 ⟨rfl, _, hs, hn⟩] at hframing
      exact nomatch hframing
    | long hlong => exact absurd (Answer.length_head ha) (Nat.not_le.2 hlong)
    | spoiled hf hsuccess hspoiled =>
      obtain rfl := Except.ok.inj (hframing.symm.trans hf)
      have hresponse : Spoiled a.response := hspoiled
      cases hresponse with
      | unpacked hpacked => exact absurd (hplain.symm.trans hpacked) Bool.false_ne_true
      | broken _ hshort herror htime =>
        by_cases hwhole : a.status = 204 ∨ a.announced ≤ a.sent.length
        · rw [Answer.error_response hwhole] at herror
          exact nomatch herror
        · obtain ⟨hstatus, hcut⟩ := not_or.1 hwhole
          have hpayload := Answer.payload_response hstatus (Nat.lt_of_not_le hcut)
          have hending : a.ending = .closed := by
            rw [hpayload] at herror
            rw [← Option.some.inj herror] at htime
            cases hending : a.ending with
            | closed => rfl
            | stalled =>
              rw [hending] at htime
              exact nomatch htime
          rw [hpayload] at hshort
          exact ⟨hsuccess, hstatus, hending, Nat.lt_of_not_le hcut, hshort⟩
  · rintro ⟨hsuccess, hstatus, hending, hcut, hshort⟩
    have hpayload := Answer.payload_response hstatus hcut
    have herror : a.response.payload.error = some .disconnected := by
      rw [hpayload, hending]
      rfl
    exact .spoiled hframing hsuccess (.broken hplain (hpayload ▸ hshort) herror rfl)

theorem direct_reply {a : Answer} (ha : a.Legible) (hr : a.head.redirects = false)
    (address : Option String) : Direct ⟨address, [a.reply]⟩ := by
  intro reply hm h body hw
  rw [List.mem_singleton.1 hm, Answer.read_head ha] at hw
  rw [← (Prod.mk.inj (Option.some.inj (Except.ok.inj hw))).1]
  exact hr

theorem candid_acknowledged :
    let n : Notifier := ⟨"http://h/api/v1/events", "t", 10⟩
    let taken : Answer := ⟨200, [], 35,
      Text.bytesOf "\x7b\"accepted\":1,\"event_ids\":[\"rs-1\"]\x7d", .closed⟩
    let s : Service := ⟨some "h", [taken.reply]⟩
    let e := Event.ofNotification (.new "t") ⟨"rs-1", "2025-01-01T00:00:00.000Z"⟩
    Direct s ∧ Candid n s e := by
  intro n taken s e
  have htaken : taken.Legible := ⟨by decide, by decide, Http.plain_nil, by decide⟩
  have hs : Direct s := direct_reply htaken rfl _
  refine ⟨hs, (candid_iff hs).2 ?_⟩
  intro reply h body ha hflawed
  obtain rfl : taken.reply = reply := Option.some.inj ha.first
  have hwhole := ha.whole
  rw [Answer.read_head htaken] at hwhole
  obtain ⟨rfl, hbody⟩ := Prod.mk.inj (Option.some.inj (Except.ok.inj hwhole))
  obtain rfl := Option.some.inj hbody
  obtain ⟨-, -, -, hcut, -⟩ := (flawed_reply htaken (by decide)).1 hflawed
  exact absurd hcut (by decide)

/-- An event may well have been taken by a service that is said to be out of reach. -/
theorem not_candid_of_cut :
    let n : Notifier := ⟨"http://h/api/v1/events", "t", 10⟩
    let cut : Answer := ⟨200, [], 35, Text.bytesOf "\x7b\"acc", .closed⟩
    let s : Service := ⟨some "h", [cut.reply]⟩
    let e := Event.ofNotification (.new "t") ⟨"rs-1", "2025-01-01T00:00:00.000Z"⟩
    Direct s ∧ Answers n s e cut.reply cut.head cut.sent ∧
      (n.send s e).outcome = .error (.transport "io: Peer disconnected" false) ∧
      ¬Candid n s e := by
  intro n cut s e
  have hu : Usable n s := usable_example _
  obtain ⟨r, hpost, hreaches⟩ := hu.post e.encode
  have hcut : cut.Legible := ⟨by decide, by decide, Http.plain_nil, by decide⟩
  have hs : Direct s := direct_reply hcut rfl _
  have ha : Answers n s e cut.reply cut.head cut.sent := by
    refine ⟨?_, rfl, Answer.read_head hcut⟩
    obtain ⟨more, hmore⟩ := Http.requests_exchange hreaches Http.maxRedirects
    rw [(n.send_of_post hpost).2, hmore]
    exact List.cons_ne_nil r more
  have ho : (n.send s e).outcome = .error (.transport "io: Peer disconnected" false) := by
    have hcontent : cut.response.content = .error .disconnected := by
      rw [Response.content, Answer.packed_response Http.plain_nil]
      rfl
    rw [outcome_of_answers hs ha, Answer.read_reply hcut, if_pos (by decide),
      n.judge_of_unread e.id (by decide) hcontent fun _ hlimit => by cases hlimit]
    rfl
  exact ⟨hs, ha, ho, fun hc => hc.unreached _ ho _ _ _ ha⟩

end EventPost
