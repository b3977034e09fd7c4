import EventPost.Proofs.Http.Message
import EventPost.Proofs.Http.Uri
import EventPost.Proofs.Submission.SinglePost
import EventPost.Proofs.Submission.Verdict

/-!
What the token can do to a request. It is shown as it is, in the one header it is meant for, or
nothing is sent: a token that could end its line is refused before any service hears of it.
-/

namespace EventPost

open Text (Bytes bytesOf)
open Http (Request Service Uri Reaches Reads Writes Tidy IsLine OnLine fieldName fieldLine exchange)

/-- Nothing went out, and not for lack of time. -/
structure Unsent (n : Notifier) (s : Service) (e : Event) : Prop where
  outcome : ∃ message, (n.send s e).outcome = .error (.transport message false)
  requests : (n.send s e).requests = []
  service : (n.send s e).service = s

/-- The request for the event shows the token as it is, and however the client writes it, its bytes
are taken apart in one way, with the token in the one header of its name. -/
structure Shows (n : Notifier) (e : Event) (q : Request) : Prop extends Posts n e q where
  headers : q.headers =
    [("authorization", "Bearer " ++ n.token), ("content-type", "application/json")]
  target : ∀ c ∈ q.uri.target.toList, 0x20 < c.toNat
  read : ∀ bs, Writes q bs → ∃ lines,
    (∀ heads body, Reads bs heads body ↔
      heads = bytesOf ("POST " ++ q.uri.target ++ " HTTP/1.1") :: lines ∧
        body = bytesOf e.encode) ∧
    lines.filter (fieldName · = "authorization") =
      [bytesOf ("authorization: Bearer " ++ n.token)] ∧
    lines.filter (fieldName · = "content-type") = [bytesOf "content-type: application/json"]

def IsControl (c : Char) : Prop := c.toNat < 0x20 ∨ c.toNat = 0x7f

theorem not_isHeaderChar {c : Char} (h : IsControl c) (ht : c ≠ '\t') :
    Http.isHeaderChar c = false := by
  rw [Bool.eq_false_iff]
  intro hc
  simp only [Http.isHeaderChar, Bool.or_eq_true, Bool.and_eq_true, beq_iff_eq, decide_eq_true_eq,
    bne_iff_ne, ht, false_or] at hc
  rcases h with h | h
  · omega
  · exact hc.2 h

theorem isValueByte_of_isHeaderChar {value : String}
    (h : ∀ c ∈ value.toList, Http.isHeaderChar c = true) :
    ∀ b ∈ bytesOf value, Http.Head.isValueByte b = true := by
  intro b hb
  simp only [Http.Head.isValueByte, Bool.or_eq_true, Bool.and_eq_true, beq_iff_eq, bne_iff_ne,
    decide_eq_true_eq, UInt8.le_iff_toNat_le, ne_eq, ← UInt8.toNat_inj, UInt8.reduceToNat]
  rcases Text.large_or_eq_of_mem_encode hb with hlarge | ⟨c, hc, heq⟩
  · omega
  · have hheader := h c hc
    simp only [Http.isHeaderChar, Bool.or_eq_true, Bool.and_eq_true, beq_iff_eq, bne_iff_ne,
      decide_eq_true_eq, ne_eq] at hheader
    rcases hheader with rfl | hheader
    · exact .inl heq
    · omega

theorem within_of_printable {text : String} (h : ∀ c ∈ text.toList, 0x20 ≤ c.toNat) :
    ∀ b ∈ bytesOf text, b ≠ 0x0d ∧ b ≠ 0x0a := by
  intro b hb
  have hlow : 0x20 ≤ b.toNat := by
    rcases Text.large_or_eq_of_mem_encode hb with hlarge | ⟨c, hc, heq⟩
    · omega
    · exact heq ▸ h c hc
  constructor <;>
    rintro rfl <;>
    exact absurd hlow (by decide)

variable {n : Notifier} {s : Service} {e : Event} {r : Request}

theorem onLine_authorization {token : String}
    (h : ∀ c ∈ token.toList, Http.isHeaderChar c = true) :
    OnLine ("authorization", "Bearer " ++ token) := by
  have hname : bytesOf "authorization" ≠ [] ∧
      (bytesOf "authorization").all Http.Head.isNameByte = true := by decide
  have hbearer : "Bearer ".toList.all Http.isHeaderChar = true := by decide
  refine ⟨hname.1, List.all_eq_true.1 hname.2, ?_⟩
  apply isValueByte_of_isHeaderChar
  intro c hc
  rw [String.toList_append, List.mem_append] at hc
  rcases hc with hc | hc
  · exact List.all_eq_true.1 hbearer c hc
  · exact h c hc

theorem onLine_contentType : OnLine ("content-type", "application/json") where
  name_ne := by decide
  name := List.all_eq_true.1 (by decide)
  value := List.all_eq_true.1 (by decide)

theorem isLine_of_target {target : String} (h : ∀ c ∈ target.toList, 0x20 < c.toNat) :
    IsLine (bytesOf ("POST " ++ target ++ " HTTP/1.1")) := by
  have hends : "POST ".toList.all (0x20 ≤ ·.toNat) = true ∧
      " HTTP/1.1".toList.all (0x20 ≤ ·.toNat) = true := by decide
  refine ⟨?_, within_of_printable ?_⟩
  · rw [Text.bytesOf_append, Text.bytesOf_append, List.append_assoc]
    exact ⟨0x50, _, rfl, by decide⟩
  · intro c hc
    rw [String.toList_append, String.toList_append, List.mem_append, List.mem_append] at hc
    rcases hc with (hc | hc) | hc
    · exact of_decide_eq_true (List.all_eq_true.1 hends.1 c hc)
    · exact Nat.le_of_lt (h c hc)
    · exact of_decide_eq_true (List.all_eq_true.1 hends.2 c hc)

theorem tidy_of_post {address token body : String} (h : Request.post address token body = .ok r) :
    Tidy r := by
  obtain ⟨uri, huri, htoken, rfl⟩ := Http.post_eq_ok.1 h
  have hnames : "authorization".toLower = "authorization" ∧
      "content-type".toLower = "content-type" := by constructor <;> decide +kernel
  refine { line := ?_, onLine := ?_, once := ?_ }
  · exact isLine_of_target (Uri.beyond_blank_of_target huri)
  · intro g hg
    rcases List.mem_cons.1 hg with rfl | hg
    · exact onLine_authorization htoken
    · rw [List.mem_singleton.1 hg]
      exact onLine_contentType
  · intro g hg
    rcases List.mem_cons.1 hg with rfl | hg
    · simp [hnames]
    · rw [List.mem_singleton.1 hg]
      simp [hnames]

theorem shows_of_post (h : Request.post n.endpoint n.token e.encode = .ok r) : Shows n e r := by
  obtain ⟨uri, huri, -, rfl⟩ := Http.post_eq_ok.1 h
  have htidy := tidy_of_post h
  refine { posts_of_post h with headers := rfl, target := ?_, read := ?_ }
  · exact Uri.beyond_blank_of_target huri
  · intro bs hbs
    obtain ⟨lines, hread, hfields⟩ := Http.reads_written htidy hbs
    refine ⟨lines, hread, ?_, ?_⟩
    · exact hfields ("authorization", "Bearer " ++ n.token) List.mem_cons_self
    · exact hfields ("content-type", "application/json") (by simp)

theorem Notifier.classify_immediate (n : Notifier) {f : Http.Error} (h : f.Immediate) :
    ∃ message, (n.classify f).1 = .transport message false := by
  obtain ⟨message, hm⟩ := n.classify_statusless h.statusless
  refine ⟨message, ?_⟩
  rw [hm]
  cases f with
  | statusCode | timeout => exact h.elim
  | io timedOut text =>
    cases timedOut with
    | true => exact h.elim
    | false => rfl
  | _ => rfl

theorem immediate_of_post {address token body : String} {f : Http.Error}
    (h : Request.post address token body = .error f) : f.Immediate := by
  unfold Request.post at h
  split at h
  · rw [← Except.error.inj h]
    exact trivial
  · split at h
    · exact nomatch h
    · rw [← Except.error.inj h]
      exact trivial

theorem unsent_of_not_post {f : Http.Error}
    (h : Request.post n.endpoint n.token e.encode = .error f) : Unsent n s e := by
  obtain ⟨ho, hq⟩ := n.send_of_not_post (s := s) h
  obtain ⟨message, hm⟩ := n.classify_immediate (immediate_of_post h)
  refine ⟨⟨message, ?_⟩, hq, ?_⟩
  · rw [ho, hm]
  · rw [Notifier.send, h]

theorem unsent_of_not_reaches (h : Request.post n.endpoint n.token e.encode = .ok r)
    (hr : ¬Reaches s r) : Unsent n s e := by
  obtain ⟨f, hf, hx⟩ := Http.exchange_of_unreached hr Http.maxRedirects
  obtain ⟨ho, hq⟩ := n.send_of_post (s := s) h
  obtain ⟨message, hm⟩ := n.classify_immediate hf
  refine ⟨⟨message, ?_⟩, ?_, ?_⟩
  · rw [ho, hx, ← hm]
    rfl
  · rw [hq, hx]
  · rw [Notifier.send, h]
    dsimp only
    rw [hx]

theorem requests_of_reaches (h : Request.post n.endpoint n.token e.encode = .ok r)
    (hr : Reaches s r) : ∃ more, (n.send s e).requests = r :: more := by
  rw [(n.send_of_post h).2]
  exact Http.requests_exchange hr Http.maxRedirects

theorem unsent_or_reaches (n : Notifier) (s : Service) (e : Event) :
    Unsent n s e ∨ ∃ r, Request.post n.endpoint n.token e.encode = .ok r ∧ Reaches s r := by
  cases hp : Request.post n.endpoint n.token e.encode with
  | error f => exact .inl (unsent_of_not_post hp)
  | ok r =>
    by_cases hr : Reaches s r
    · exact .inr ⟨r, rfl, hr⟩
    · exact .inl (unsent_of_not_reaches hp hr)

theorem isVisible_of_reaches (h : Request.post n.endpoint n.token e.encode = .ok r)
    (hr : Reaches s r) : ∀ c ∈ n.token.toList, Http.isVisible c = true := by
  obtain ⟨uri, -, -, rfl⟩ := Http.post_eq_ok.1 h
  have hsendable := hr.sendable
  rw [Request.sendable, Request.header?, Request.authorization, List.lookup_cons_self,
    Option.all_some, String.toList_append, List.all_append, Bool.and_eq_true] at hsendable
  exact List.all_eq_true.1 hsendable.2

/-- The token is shown as it is in the one header it is meant for, or nothing goes out. Nothing goes
out with a control in it that is no tab, and to a service that listens exactly the visible tokens
go out. -/
theorem send_shows_token (n : Notifier) (s : Service) (e : Event) :
    (Unsent n s e ∨ ∃ q more, (n.send s e).requests = q :: more ∧ Shows n e q) ∧
      (∀ c ∈ n.token.toList, IsControl c → c ≠ '\t' → Unsent n s e) ∧
      ∀ uri, Uri.parse n.endpoint = .ok uri → uri.check = .ok () → s.address = some uri.host →
        ((n.send s e).requests ≠ [] ↔ ∀ c ∈ n.token.toList, Http.isVisible c = true) := by
  have hcases := unsent_or_reaches n s e
  refine ⟨?_, ?_, ?_⟩
  · rcases hcases with hu | ⟨r, hp, hr⟩
    · exact .inl hu
    · obtain ⟨more, hmore⟩ := requests_of_reaches hp hr
      exact .inr ⟨r, more, hmore, shows_of_post hp⟩
  · intro c hc hcontrol htab
    rcases hcases with hu | ⟨r, hp, -⟩
    · exact hu
    · obtain ⟨uri, -, htoken, -⟩ := Http.post_eq_ok.1 hp
      have hheader := htoken c hc
      rw [not_isHeaderChar hcontrol htab] at hheader
      exact absurd hheader Bool.false_ne_true
  · intro uri huri hcheck haddress
    constructor
    · intro hsent
      rcases hcases with hu | ⟨r, hp, hr⟩
      · exact absurd hu.requests hsent
      · exact isVisible_of_reaches hp hr
    · intro hvisible
      have hu : Usable n s := ⟨uri, huri, hcheck, haddress, List.all_eq_true.2 hvisible⟩
      obtain ⟨r, hp, hr⟩ := hu.post e.encode
      obtain ⟨more, hmore⟩ := requests_of_reaches hp hr
      rw [hmore]
      exact List.cons_ne_nil r more

/-- A request with the headers that a client is used to add, and with a token that could not stand
on a line of its own. -/
theorem send_shows_token_example :
    let n : Notifier := ⟨"http://h/api/v1/events", "t\r\nX: y", 10⟩
    let m : Notifier := ⟨"http://h/api/v1/events", "t t\t", 10⟩
    let s : Service := ⟨some "h", []⟩
    let e := Event.ofNotification (.new "t") ⟨"rs-1", "2025-01-01T00:00:00.000Z"⟩
    Unsent n s e ∧ ∃ q more bs, (m.send s e).requests = q :: more ∧ Shows m e q ∧ Writes q bs := by
  intro n m s e
  obtain ⟨hshows, -, hsent⟩ := send_shows_token m s e
  have hcontrol := (send_shows_token n s e).2.1 '\r' (by decide) (.inl (by decide)) (by decide)
  have hvisible : ∀ c ∈ m.token.toList, Http.isVisible c = true :=
    List.all_eq_true.1 (by decide)
  have hrequests := (hsent _ parse_example (Http.check_http rfl) rfl).2 hvisible
  refine ⟨hcontrol, ?_⟩
  rcases hshows with hu | ⟨q, more, hq, hshow⟩
  · exact absurd hu.requests hrequests
  · let own := [("accept", "*/*"), ("host", "h")]
    have honLine : ∀ h ∈ own, OnLine h := by
      intro h hh
      rcases List.mem_cons.1 hh with rfl | hh
      · exact ⟨by decide, List.all_eq_true.1 (by decide), List.all_eq_true.1 (by decide)⟩
      · rw [List.mem_singleton.1 hh]
        exact ⟨by decide, List.all_eq_true.1 (by decide), List.all_eq_true.1 (by decide)⟩
    have hadds : Http.Adds q own := by
      refine ⟨honLine, ?_⟩
      have hnames : own.map (·.1.toLower) = ["accept", "host"] := by decide +kernel
      have hgiven : q.headers.map (·.1) = ["authorization", "content-type"] := by
        rw [hshow.headers]
        rfl
      intro h hh g hg heq
      have hh' := List.mem_map_of_mem (f := (·.1.toLower)) hh
      have hg' := List.mem_map_of_mem (f := (·.1)) hg
      rw [hnames, heq] at hh'
      rw [hgiven] at hg'
      grind
    exact ⟨q, more, _, hq, hshow, own, own ++ q.headers, hadds, .refl _, rfl⟩

end EventPost
