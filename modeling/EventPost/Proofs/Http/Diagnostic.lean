import Mathlib.Data.FinEnum
import Mathlib.Data.List.TakeWhile
import EventPost.Proofs.Http.Exchange
import EventPost.Proofs.Http.Message
import EventPost.Proofs.Http.Uri
import EventPost.Proofs.Result
import EventPost.Proofs.Text.Line

/-!
The words of an exchange that fails stand on one line. They are the client's own, but for what is
quoted of an address or of the header that leads to another one, and no line ends in either.
-/

namespace EventPost.Http

open Text (Bytes OneLine oneLine_append oneLine_ofList isLineEnd_of_visible)

def Error.OneLine : Error → Prop
  | .io _ s | .badUri s | .invalidRequest s | .brokenProtocol s | .unpacking s => Text.OneLine s
  | _ => True

attribute [grind =] Error.OneLine

theorem Error.OneLine.message {e : Error} (h : e.OneLine) : Text.OneLine e.message := by
  have hnumber := Text.oneLine_decimalText
  cases e with
  | statusCode n => exact Text.OneLine.append (by decide) (hnumber n)
  | timeout stage => cases stage <;> decide
  | headExceedsLimit n limit =>
    exact ((Text.OneLine.append (by decide) (hnumber n)).append (by decide)).append (hnumber limit)
  | bodyExceedsLimit n => exact Text.OneLine.append (by decide) (hnumber n)
  | io timedOut s => exact Text.OneLine.append (by decide) h
  | badUri s => exact Text.OneLine.append (by decide) h
  | invalidRequest s => exact Text.OneLine.append (by decide) h
  | brokenProtocol s => exact Text.OneLine.append (by decide) h
  | unpacking s => exact Text.OneLine.append (by decide) h
  | _ => decide

theorem Error.OneLine.innerMessage {e : Error} (h : e.OneLine) : Text.OneLine e.innerMessage := by
  cases e with
  | io timedOut s => exact h
  | _ => exact h.message

variable {e : Error}

@[grind .] theorem oneLine_headFault (why : HeadFault) : OneLine why.message := by
  cases why <;> decide

@[grind .] theorem oneLine_uriFault (why : UriFault) : OneLine why.message := by
  cases why <;> decide

@[grind .] theorem oneLine_gzipFault (why : Gzip.Fault) : OneLine why.message := by
  cases why <;> decide

@[grind .] theorem oneLine_ending (stage : Stage) (ending : Ending) :
    (ending.error stage).OneLine := by
  cases ending with
  | closed => exact (by decide : Text.OneLine "Peer disconnected")
  | stalled => trivial

@[grind →] theorem oneLine_chunkLength {line : Bytes} (h : chunkLength line = .error e) :
    e.OneLine := by
  have hascii : Text.OneLine "chunk length is not ascii" := by decide
  have hnumber : Text.OneLine "chunk length cannot be read as a number" := by decide
  unfold chunkLength at h
  grind

theorem oneLine_readChunks {ending : Ending} {fuel : Nat} {seen : List Bytes} {bs : Bytes}
    (h : (readChunks ending fuel seen bs).error = some e) : e.OneLine := by
  have hcrlf : Text.OneLine "chunk expected crlf as next character" := by decide
  induction fuel generalizing seen bs with
  | zero => grind [readChunks]
  | succ fuel ih =>
    unfold readChunks at h
    grind

theorem oneLine_payload {framing : Framing} {ending : Ending} {bs : Bytes}
    (h : (Payload.read framing ending bs).error = some e) : e.OneLine := by
  cases framing with
  | nothing => cases h
  | counted n => grind [Payload.read]
  | chunked => exact oneLine_readChunks h
  | untilClosed => cases ending <;> grind [Payload.read]

@[grind →] theorem oneLine_framing {h : Head} (he : Framing.ofHead h = .error e) : e.OneLine := by
  rw [(ofHead_eq_error.1 he).1]
  exact (by decide : Text.OneLine "content-length header not a number")

@[grind →] theorem oneLine_ofStart {start : Option Head} {length : Nat} {ending : Ending}
    (h : Response.ofStart start length ending = .error e) : e.OneLine := by
  unfold Response.ofStart at h
  grind

@[grind →] theorem oneLine_read {bs : Bytes} {ending : Ending}
    (h : Response.read bs ending = .error e) : e.OneLine := by
  unfold Response.read at h
  grind

/-- The bytes of header values are those that may stand in one. -/
def Clean (headers : List (String × Bytes)) : Prop :=
  ∀ m ∈ headers, ∀ b ∈ m.2, Head.isValueByte b = true

theorem clean_readHeader {bs rest : Bytes} {m : String × Bytes}
    (h : Head.readHeader bs = .done m rest) : ∀ b ∈ m.2, Head.isValueByte b = true := by
  simp only [Head.readHeader, Step.andThen] at h
  split at h
  · split at h
    · rename_i gap _ after _ _ _ _ _
      obtain ⟨rfl, -⟩ := Step.done.inj h
      intro b hb
      -- Trimming keeps a part of the bytes that were taken.
      rw [List.mem_reverse] at hb
      have htaken := (List.dropWhile_sublist _).subset hb
      exact List.mem_takeWhile_imp (List.mem_reverse.1 htaken)
    · cases h
    · cases h
  · cases h
  · cases h

theorem clean_readHeaders {limit : Nat} {seen headers : List (String × Bytes)} {bs : Bytes}
    {rest : Option Bytes} (hseen : Clean seen)
    (h : Head.readHeaders limit seen bs = .ok (headers, rest)) : Clean headers := by
  have hdone : ∀ {seen rest'}, Clean seen →
      (.ok (seen.reverse, rest') : Except HeadFault _) = .ok (headers, rest) → Clean headers := by
    intro seen rest' hseen h m hm
    rw [← (Prod.mk.inj (Except.ok.inj h)).1, List.mem_reverse] at hm
    exact hseen m hm
  induction limit generalizing seen bs with
  | zero =>
    unfold Head.readHeaders at h
    grind
  | succ limit ih =>
    have hnext : ∀ {m rest}, Head.readHeader bs = .done m rest → Clean (m :: seen) :=
      fun hm => List.forall_mem_cons.2 ⟨clean_readHeader hm, hseen⟩
    unfold Head.readHeaders at h
    grind

theorem clean_read {bs : Bytes} {h : Head} {rest : Option Bytes}
    (hread : Head.read bs = .ok (some (h, rest))) : Clean h.headers := by
  unfold Head.read at hread
  split at hread
  · cases hread
  · cases hread
  · split at hread
    · cases hread
    · rename_i hheaders
      split at hread
      · cases hread
      · rw [← (Prod.mk.inj (Option.some.inj (Except.ok.inj hread))).1]
        exact clean_readHeaders (fun m hm => absurd hm List.not_mem_nil) hheaders

/-- A response whose head and whose body say nothing that takes more than one line. -/
structure Response.Brief (r : Response) : Prop where
  clean : Clean r.head.headers
  payload : ∀ e, r.payload.error = some e → e.OneLine

theorem brief_of_read {bs : Bytes} {ending : Ending} {r : Response}
    (h : Response.read bs ending = .ok r) : r.Brief := by
  rcases read_eq_ok h with ⟨rest, framing, hhead, -, -, hp⟩ | ⟨hhead, -, hpartial⟩
  · exact ⟨clean_read hhead, fun e he => oneLine_payload (hp ▸ he)⟩
  · refine ⟨clean_read hhead, fun e he => ?_⟩
    rw [(ofPartial_eq_some hpartial).2.2] at he
    cases he

theorem Response.Brief.received {r : Response} (hr : r.Brief) (h : r.received = .error e) :
    e.OneLine := by
  have hpayload := hr.payload
  unfold Response.received at h
  grind

theorem Response.Brief.content {r : Response} (hr : r.Brief) (h : r.content = .error e) :
    e.OneLine := by
  unfold Response.content at h
  split at h
  · split at h
    · rename_i he
      rw [← Except.error.inj h]
      exact (hr.received he).innerMessage
    · obtain ⟨why, -, rfl⟩ := mapError_eq_error.1 h
      exact oneLine_gzipFault why
  · exact hr.received h

theorem Clean.oneLine_lossy {h : Head} (hc : Clean h.headers) {name : String} {value : Bytes}
    (hv : h.lastHeader? name = some value) : OneLine (Text.decodeLossy value) := by
  obtain ⟨before, after, hlist, -⟩ := List.lookup_eq_some_iff.1 hv
  have hm : (name, value) ∈ h.headers := by
    rw [← List.mem_reverse, hlist]
    exact List.mem_append_right _ List.mem_cons_self
  exact Text.oneLine_decodeLossy fun b hb => isValueByte_spec (hc _ hm b hb)

theorem oneLine_textOf? {value : Bytes} {s : String} (h : Head.textOf? value = some s) :
    OneLine s := by
  have hshown : ∀ b : UInt8, Head.isVisibleByte b = true →
      Text.isLineEnd (Char.ofNat b.toNat) = false := by decide +kernel
  unfold Head.textOf? at h
  split at h
  · rename_i hall
    rw [← Option.some.inj h, oneLine_ofList]
    intro c hc
    obtain ⟨b, hb, rfl⟩ := List.mem_map.1 hc
    exact hshown b (List.all_eq_true.1 hall b hb)
  · cases h

theorem oneLine_redirection {r : Request} {response : Response} (hr : response.Brief)
    (h : redirection r response = .error e) : e.OneLine := by
  have hmalformed : ∀ {s}, Text.OneLine s →
      (Error.brokenProtocol ("location header is malformed: " ++ s)).OneLine :=
    fun hs => oneLine_append.2 ⟨by decide, hs⟩
  unfold redirection at h
  split at h
  · rename_i he
    exact Except.error.inj h ▸ hr.payload _ he
  · split at h
    · rw [← Except.error.inj h]
      exact (by decide : Text.OneLine "missing a location header")
    · rename_i value hvalue
      split at h
      · rw [← Except.error.inj h]
        exact hmalformed (hr.clean.oneLine_lossy hvalue)
      · rename_i location hlocation
        split at h
        · rw [← Except.error.inj h]
          trivial
        · obtain ⟨why, -, rfl⟩ := mapError_eq_error.1 h
          exact hmalformed (oneLine_textOf? hlocation)

/-- The scheme and the path of an address that was read stand on one line. -/
structure Uri.Brief (u : Uri) : Prop where
  scheme : ∀ s, u.scheme = some s → OneLine s
  path : OneLine u.path

theorem oneLine_scheme {cs scheme rest : List Char}
    (h : Uri.splitScheme? cs = some (scheme, rest)) : OneLine (String.ofList scheme) := by
  unfold Uri.splitScheme? at h
  dsimp only at h
  split at h
  · rw [← (Prod.mk.inj (Option.some.inj h)).1, oneLine_ofList]
    intro c hc
    have hchar : Uri.isSchemeChar c = true := List.mem_takeWhile_imp hc
    rw [Text.isLineEnd_eq_false]
    constructor
    · rintro rfl
      exact absurd hchar (by decide)
    · rintro rfl
      exact absurd hchar (by decide)
  · cases h

theorem oneLine_readFull {cs : List Char} {u : Uri} (h : Uri.readFull cs = .ok u) :
    ∀ s, u.scheme = some s → OneLine s := by
  intro s hs
  unfold Uri.readFull at h
  split at h
  · rename_i scheme rest hscheme
    split at h
    · cases h
    · dsimp only at h
      split at h
      · cases h
      · split at h
        · cases h
        · obtain ⟨path, -, rfl⟩ := map_eq_ok.1 h
          rw [← Option.some.inj hs]
          exact oneLine_scheme hscheme
  · dsimp only at h
    split at h
    · cases h
    · split at h
      · rw [← Except.ok.inj h] at hs
        cases hs
      · cases h

theorem brief_of_parse {text : String} {u : Uri} (h : Uri.parse text = .ok u) : u.Brief := by
  refine ⟨?_, fun c hc => isLineEnd_of_visible (Nat.le_of_lt (Uri.beyond_blank_of_parse h c hc))⟩
  unfold Uri.parse at h
  split at h
  · cases h
  · split at h
    · cases h
    · intro s hs
      rw [← Except.ok.inj h] at hs
      cases hs
    · intro s hs
      obtain ⟨path, -, rfl⟩ := map_eq_ok.1 h
      cases hs
    · exact oneLine_readFull h

theorem brief_of_resolve {u v : Uri} {reference : String} (h : u.resolve reference = .ok v) :
    v.Brief := by
  unfold Uri.resolve at h
  dsimp only at h
  split at h
  · exact brief_of_parse h
  · exact brief_of_parse h

theorem brief_of_redirection {r : Request} {response : Response} {uri : Uri}
    (h : redirection r response = .ok uri) : uri.Brief := by
  unfold redirection at h
  split at h
  · cases h
  · split at h
    · cases h
    · split at h
      · cases h
      · split at h
        · cases h
        · exact brief_of_resolve (mapError_eq_ok.1 h)

theorem Uri.Brief.check {u : Uri} (hu : u.Brief) (h : u.check = .error e) : e.OneLine := by
  unfold Uri.check at h
  split at h
  · rw [← Except.error.inj h]
    exact oneLine_append.2 ⟨hu.path, by decide⟩
  · rename_i s hs
    split at h
    · cases h
    · rw [← Except.error.inj h]
      exact oneLine_append.2 ⟨by decide, hu.scheme s hs⟩

variable {s : Service} {r : Request}

theorem oneLine_visit (hr : r.uri.Brief) (h : (visit s r).outcome = .error e) : e.OneLine := by
  have hrefused : Error.refused.OneLine :=
    (by decide : Text.OneLine "Connection refused (os error 111)")
  have hunsendable : Text.OneLine "authorization header is not a string" := by decide
  unfold visit at h
  split at h
  · rename_i he
    exact Except.error.inj h ▸ hr.check he
  · grind

theorem oneLine_exchange {hops : Nat} (hr : r.uri.Brief)
    (h : (exchange s r hops).outcome = .error e) : e.OneLine := by
  induction hops generalizing s r with
  | zero =>
    rw [exchange] at h
    split at h
    · rw [← Except.error.inj h]
      trivial
    · exact oneLine_visit hr h
  | succ hops ih =>
    rw [exchange] at h
    split at h
    · exact oneLine_visit hr h
    · rename_i hnext
      obtain ⟨response, ho, -, hred⟩ := next?_eq_some hnext
      obtain ⟨-, reply, rest, -, hread, -⟩ := visit_eq_ok ho
      exact Except.error.inj h ▸ oneLine_redirection (brief_of_read hread) hred
    · rename_i uri hnext
      obtain ⟨response, -, -, hred⟩ := next?_eq_some hnext
      exact ih (r := r.redirected uri) (brief_of_redirection hred) h

theorem oneLine_post {address token body : String}
    (h : Request.post address token body = .error e) : e.OneLine := by
  have htoken : Text.OneLine "failed to parse header value" := by decide
  unfold Request.post at h
  grind

end EventPost.Http
