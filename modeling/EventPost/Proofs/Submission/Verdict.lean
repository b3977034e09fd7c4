import Mathlib.Algebra.Group.Nat.Defs
import EventPost.Proofs.Submission.Judgment

/-!
The verdict on an event, by what the service did. Whatever becomes of its body, an answer without
the status of a success is a refusal with that status, and only a whole and short acknowledgment
behind the status of a success is a success. Where no head was finished there is neither.
-/

namespace EventPost

open Text (Bytes bytesOf)
open Http (Answer Head Reply Request Response Service Reaches)

/-- The reply breaks off, or goes wrong, before the end of its head. -/
def Headless (reply : Reply) : Prop :=
  ∀ h body, Head.read reply.bytes ≠ .ok (some (h, some body))

/-- What an answer makes of the outcome. The text of a refusal is that of its body, if all of the
body came, is a text, and says something. -/
structure Settles (a : Answer) (outcome : Except Failure Acknowledgment) : Prop where
  success : ∀ ack, outcome = .ok ack ↔ (200 ≤ a.status ∧ a.status ≤ 299) ∧
    ∃ body, a.Delivers body ∧ Acknowledgment.ofBody body = .ok ack
  refusal : ∀ status text, outcome = .error (.protocol status text) ↔
    status = a.status ∧ ¬(200 ≤ a.status ∧ a.status ≤ 299) ∧
      ∀ t, text = some t ↔ a.Delivers (bytesOf t) ∧ (Text.trim t).isEmpty = false

/-- What is left without a head: no success, and no refusal but by a status that says that nothing
changed, in a head that breaks off behind the address to go to. -/
structure Unsettled (s : Service) (outcome : Except Failure Acknowledgment) : Prop where
  success : ∀ ack, outcome ≠ .ok ack
  refusal : ∀ status text, outcome = .error (.protocol status text) → status = 304 ∧ text = none ∧
    ∃ reply ∈ s.replies, reply.ending = .closed ∧ ∃ h, Head.read reply.bytes = .ok (some (h, none)) ∧
      h.status = 304 ∧ (h.lastHeader? "location").isSome = true

theorem redirects_response {a : Answer} (h : a.status ≤ 299 ∨ 400 ≤ a.status) :
    a.response.head.redirects = false := by
  have hstatus : a.response.head.status = a.status := rfl
  rw [Head.redirects, hstatus, Bool.and_eq_false_iff, Bool.and_eq_false_iff]
  simp only [decide_eq_false_iff_not]
  omega

theorem text?_response {a : Answer} (h : Http.Plain a.headers) {text : String} :
    a.response.text? = some text ↔ a.Delivers (bytesOf text) := by
  unfold Response.text?
  split
  · rename_i f hf
    constructor
    · intro ht
      exact nomatch ht
    · intro hd
      rw [(Answer.content_response h).2 hd] at hf
      exact nomatch hf
  · rename_i body hbody
    rw [Text.decodeString?_eq_some]
    constructor
    · rintro rfl
      exact (Answer.content_response h).1 hbody
    · intro hd
      rw [(Answer.content_response h).2 hd] at hbody
      exact (Except.ok.inj hbody).symm

theorem settles_of_answer {n : Notifier} {s : Service} (hu : Usable n s) (e : Event) {a : Answer}
    {rest : List Reply} (hs : s.replies = a.reply :: rest) (ha : a.Legible)
    (hl : a.announced ≤ Numeral.maxWord) (hstatus : a.status ≤ 299 ∨ 400 ≤ a.status) :
    Settles a (n.send s e).outcome := by
  obtain ⟨r, hpost, hreaches⟩ := hu.post e.encode
  have hv := Http.visit_answer hreaches hs ha hl
  have hfinal : (Http.visit s r).next? r = none := by
    rw [hv, Http.next?_eq_none rfl]
    exact redirects_response hstatus
  have ho : (n.send s e).outcome = (n.judge e.id (.ok a.response)).1 := by
    rw [(n.send_of_post hpost).1, Http.exchange_of_final hfinal, hv]
  have hattested : Attested (.ok a.response) := Http.sound_read a.framing a.ending a.sent
  have hsuccess : a.response.isSuccess = true ↔ 200 ≤ a.status ∧ a.status ≤ 299 :=
    Http.isSuccess_iff
  rw [ho]
  refine ⟨?_, ?_⟩
  · intro ack
    rw [n.judge_eq_ok]
    constructor
    · rintro ⟨response, body, hr, hok, hbody, hack⟩
      obtain rfl := Except.ok.inj hr
      exact ⟨hsuccess.1 hok, body, (Answer.content_response ha.plain).1 hbody, hack⟩
    · rintro ⟨hok, body, hbody, hack⟩
      exact ⟨a.response, body, rfl, hsuccess.2 hok, (Answer.content_response ha.plain).2 hbody, hack⟩
  · intro status text
    have htext : text = saying a.response.text? ↔
        ∀ t, text = some t ↔ a.Delivers (bytesOf t) ∧ (Text.trim t).isEmpty = false := by
      rw [Option.ext_iff]
      refine forall_congr' fun t => ?_
      rw [saying_eq_some, text?_response ha.plain]
    rw [n.judge_eq_protocol hattested]
    constructor
    · rintro ⟨response, hr, hfail, rfl, hsaying⟩
      obtain rfl := Except.ok.inj hr
      refine ⟨rfl, ?_, htext.1 hsaying⟩
      rw [← hsuccess, hfail]
      exact Bool.false_ne_true
    · rintro ⟨rfl, hfail, hsaying⟩
      refine ⟨a.response, rfl, ?_, rfl, htext.2 hsaying⟩
      rw [Bool.eq_false_iff, ne_eq, hsuccess]
      exact hfail

theorem saying_of_empty (h : Head) : saying (Response.text? ⟨h, ⟨[], none⟩⟩) = none := by
  have hreceived : Response.received ⟨h, ⟨[], none⟩⟩ = .ok [] := rfl
  unfold Response.text? Response.content
  rw [hreceived]
  split
  · rfl
  · rename_i body hbody
    split at hbody
    · have hunpack : Gzip.unpack [] = .error .truncated := rfl
      dsimp only at hbody
      rw [hunpack] at hbody
      exact nomatch hbody
    · rw [← Except.ok.inj hbody]
      decide +kernel

theorem read_of_headless {reply : Reply} (h : Headless reply) {response : Response}
    (hread : Response.read reply.bytes reply.ending = .ok response) :
    Head.read reply.bytes = .ok (some (response.head, none)) ∧ reply.ending = .closed ∧
      Response.ofPartial response.head = some response := by
  rcases Http.read_eq_ok hread with ⟨body, _, hwhole, -⟩ | hbroken
  · exact absurd hwhole (h response.head body)
  · exact hbroken

theorem unsettled_of_headless {n : Notifier} {s : Service} (hu : Usable n s) (e : Event)
    (h : ∀ reply ∈ s.replies, Headless reply) : Unsettled s (n.send s e).outcome := by
  obtain ⟨r, hpost, -⟩ := hu.post e.encode
  rw [(n.send_of_post hpost).1]
  refine ⟨?_, ?_⟩
  · intro ack hack
    rw [n.judge_eq_ok] at hack
    obtain ⟨response, -, hresponse, hsuccess, -⟩ := hack
    obtain ⟨-, reply, hmem, hread⟩ := Http.exchange_eq_ok hresponse
    obtain ⟨-, -, hpartial⟩ := read_of_headless (h reply hmem) hread
    have hstatus := (Http.ofPartial_eq_some hpartial).1
    rw [Http.isSuccess_iff] at hsuccess
    omega
  · intro status text hrefused
    rw [n.judge_eq_protocol (attested_exchange s r _)] at hrefused
    obtain ⟨response, hresponse, -, rfl, rfl⟩ := hrefused
    obtain ⟨hredirects, reply, hmem, hread⟩ := Http.exchange_eq_ok hresponse
    obtain ⟨hhead, hclosed, hpartial⟩ := read_of_headless (h reply hmem) hread
    obtain ⟨hstatus, hlocation, heq⟩ := Http.ofPartial_eq_some hpartial
    have h304 : response.head.status = 304 := by
      rw [Head.redirects, Bool.and_eq_false_iff, Bool.and_eq_false_iff] at hredirects
      simp only [decide_eq_false_iff_not, bne_eq_false_iff_eq] at hredirects
      omega
    refine ⟨h304, ?_, reply, hmem, hclosed, response.head, hhead, h304, hlocation⟩
    rw [heq]
    exact saying_of_empty response.head

theorem unread_of_overlong {n : Notifier} {s : Service} (hu : Usable n s) (e : Event) {a : Answer}
    {rest : List Reply} (hs : s.replies = a.reply :: rest) (ha : a.Legible)
    (hl : ¬a.announced ≤ Numeral.maxWord) : (n.send s e).outcome =
      .error (.transport "protocol: content-length header not a number" false) := by
  obtain ⟨r, hpost, hreaches⟩ := hu.post e.encode
  have hanswer : s.answer = (a.reply, { s with replies := rest }) := by rw [Service.answer, hs]
  have hv := Http.visit_of_reaches hreaches
  rw [hanswer, Answer.read_reply ha, if_neg hl] at hv
  rw [(n.send_of_post hpost).1, Http.exchange_of_final (by rw [hv]; rfl), hv]
  rfl

/-- What a service does decides the outcome. An answer decides it by its status and its body, if
its length is a number at all, and replies without a head bring neither success nor refusal. -/
theorem send_verdict {n : Notifier} {s : Service} (hu : Usable n s) (e : Event) :
    (∀ a rest, s.replies = a.reply :: rest → a.Legible → a.status ≤ 299 ∨ 400 ≤ a.status →
      (a.announced ≤ Numeral.maxWord → Settles a (n.send s e).outcome) ∧
      (Numeral.maxWord < a.announced → (n.send s e).outcome =
        .error (.transport "protocol: content-length header not a number" false))) ∧
    ((∀ reply ∈ s.replies, Headless reply) → Unsettled s (n.send s e).outcome) := by
  refine ⟨?_, unsettled_of_headless hu e⟩
  intro a rest hs ha hstatus
  refine ⟨?_, ?_⟩
  · intro hl
    exact settles_of_answer hu e hs ha hl hstatus
  · intro hl
    exact unread_of_overlong hu e hs ha (Nat.not_le_of_lt hl)

theorem send_verdict_busy :
    let n : Notifier := ⟨"http://h/api/v1/events", "t", 10⟩
    let a : Answer := ⟨503, [], 4, bytesOf "busy", .closed⟩
    let s : Service := ⟨some "h", [a.reply]⟩
    let e := Event.ofNotification (.new "t") ⟨"rs-1", "2025-01-01T00:00:00.000Z"⟩
    Usable n s ∧ a.Legible ∧ (n.send s e).outcome = .error (.protocol 503 (some "busy")) := by
  intro n a s e
  have ha : a.Legible := Answer.legible_of_bare (by decide) (by decide) rfl (by decide)
  have hu : Usable n s := usable_example _
  refine ⟨hu, ha, ?_⟩
  rw [(((send_verdict hu e).1 a [] rfl ha (by decide)).1 (by decide)).refusal]
  refine ⟨rfl, by decide, ?_⟩
  intro t
  constructor
  · intro ht
    obtain rfl := Option.some.inj ht
    exact ⟨⟨.inr (by decide), rfl, by decide⟩, by decide +kernel⟩
  · intro ht
    exact congrArg some (Text.bytesOf_injective ht.1.bytes.symm)

/-- The refusal is lost where the length of its body is no number to the client. -/
theorem not_settles_of_overlong :
    let n : Notifier := ⟨"http://h/api/v1/events", "t", 10⟩
    let a : Answer := ⟨500, [], 2 ^ 64, [], .closed⟩
    let s : Service := ⟨some "h", [a.reply]⟩
    let e := Event.ofNotification (.new "t") ⟨"rs-1", "2025-01-01T00:00:00.000Z"⟩
    Usable n s ∧ a.Legible ∧ ¬Settles a (n.send s e).outcome := by
  intro n a s e
  have ha : a.Legible := Answer.legible_of_bare (by decide) (by decide) rfl (by decide)
  have hu : Usable n s := usable_example _
  refine ⟨hu, ha, ?_⟩
  rw [unread_of_overlong hu e rfl ha (by decide)]
  intro h
  have hrefusal := (h.refusal 500 none).2
  refine Failure.noConfusion (Except.error.inj (hrefusal ⟨rfl, by decide, ?_⟩))
  intro t
  constructor
  · intro ht
    exact nomatch ht
  · intro ht
    -- Nothing at all came, so nothing of that length did.
    rcases ht.1.whole with h204 | hlength
    · exact absurd h204 (by decide)
    · exact absurd hlength (by decide)

end EventPost
