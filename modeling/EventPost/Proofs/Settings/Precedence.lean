import EventPost.Proofs.CommandLine.Request
import EventPost.Proofs.Numeral.Decimal
import EventPost.Proofs.Settings.Said
import EventPost.Proofs.Text.Blank
import EventPost.Settings.Loading

/-!
Which source settles a setting: the command line, then the environment, then the file, then the
default, for each field by itself. The sources differ in what they count for nothing: an empty
address and a time that is no positive number in the environment, but not an empty token, and
nothing at all on the command line.
-/

namespace EventPost.Settings

open CommandLine (Arguments noteServer)
open Numeral (Spells)
open Text (isBlank)

/-- A positive number of seconds, as a variable may hold it: with blanks around it. -/
def Seconds (s : String) (n : UInt64) : Prop :=
  0 < n ∧ ∃ first inner last, s.toList = first ++ inner ++ last ∧
    (∀ c ∈ first ++ last, isBlank c = true) ∧ Spells inner n.toNat

theorem isBlank_of_spells {cs : List Char} {n : Nat} (h : Spells cs n) :
    ∀ c ∈ cs, isBlank c = false := by
  obtain ⟨ds, hcs, -, hdigits, -⟩ := h
  have hds : ∀ c ∈ ds, isBlank c = false := fun c hc => Text.isBlank_of_isDigit (hdigits c hc)
  rcases hcs with rfl | rfl
  · exact hds
  · intro c hc
    rcases List.mem_cons.1 hc with rfl | hc
    · rfl
    · exact hds c hc

theorem readTimeout?_eq_some {s : String} {n : UInt64} :
    readTimeout? s = some n ↔ Seconds s n := by
  constructor
  · intro h
    unfold readTimeout? at h
    split at h
    · rename_i k hk
      split at h
      · rename_i hpos
        obtain rfl := Option.some.inj h
        obtain ⟨first, last, hs, hblank⟩ := Text.trimChars_append s.toList
        exact ⟨hpos, first, _, last, hs, hblank, Numeral.readWord_eq_ok.1 hk⟩
      · exact nomatch h
    · exact nomatch h
  · rintro ⟨hpos, first, inner, last, hs, hblank, hspells⟩
    rw [readTimeout?, hs, Text.trimChars_around hblank (isBlank_of_spells hspells),
      Numeral.readWord_eq_ok.2 hspells]
    exact if_pos hpos

/-- Where a file's word on the settings comes from: the file that is asked for, or else the first of
those tried that loads, or none of them. -/
inductive Source (env : Environment) (files : Files) : Option String → Said → Prop
  | named {p text : String} {f : Said} : files.readText (expand env p) = .ok text → Says text f →
    Source env files (some p) f
  | found {before after : List Candidate} {c : Candidate} {text : String} {f : Said} :
    candidates env = before ++ c :: after →
    (∀ b ∈ before, files.exist b.path = true → ∀ s, readFile files b.path ≠ .ok s) →
    files.readText c.path = .ok text → Says text f → Source env files none f
  | absent : (∀ c ∈ candidates env, files.exist c.path = true →
    ∀ s, readFile files c.path ≠ .ok s) → Source env files none .nothing

theorem says_of_readFile {files : Files} {path : String} {s : Settings}
    (h : readFile files path = .ok s) :
    ∃ text f, files.readText path = .ok text ∧ Says text f ∧ f.Gives s := by
  unfold readFile at h
  split at h
  · exact nomatch h
  · rename_i text htext
    split at h
    · exact nomatch h
    · rename_i s' hparse
      obtain rfl := Except.ok.inj h
      obtain ⟨f, hsays, hgives⟩ := says_of_parse hparse
      exact ⟨text, f, htext, hsays, hgives⟩

theorem firstOf_eq_some {files : Files} {cs : List Candidate} {s : Settings}
    (h : (firstOf files cs).1 = some s) : ∃ before c after, cs = before ++ c :: after ∧
      (∀ b ∈ before, files.exist b.path = true → ∀ t, readFile files b.path ≠ .ok t) ∧
      readFile files c.path = .ok s := by
  induction cs with
  | nil => exact nomatch h
  | cons c cs ih =>
    have hlater (hfails : files.exist c.path = true → ∀ t, readFile files c.path ≠ .ok t)
        (h : (firstOf files cs).1 = some s) : ∃ before c' after, c :: cs = before ++ c' :: after ∧
          (∀ b ∈ before, files.exist b.path = true → ∀ t, readFile files b.path ≠ .ok t) ∧
          readFile files c'.path = .ok s := by
      obtain ⟨before, c', after, rfl, hbefore, hread⟩ := ih h
      exact ⟨c :: before, c', after, rfl, List.forall_mem_cons.2 ⟨hfails, hbefore⟩, hread⟩
    rw [firstOf] at h
    split at h
    · split at h
      · rename_i hread
        refine ⟨[], c, cs, rfl, fun b hb => absurd hb List.not_mem_nil, ?_⟩
        exact hread.trans (congrArg _ (Option.some.inj h))
      · rename_i hread
        exact hlater (fun _ t ht => nomatch hread.symm.trans ht) h
    · rename_i hmissing
      exact hlater (fun hexist => absurd hexist hmissing) h

theorem firstOf_eq_none {files : Files} {cs : List Candidate} (h : (firstOf files cs).1 = none) :
    ∀ c ∈ cs, files.exist c.path = true → ∀ s, readFile files c.path ≠ .ok s := by
  induction cs with
  | nil => exact fun c hc => absurd hc List.not_mem_nil
  | cons c cs ih =>
    rw [firstOf] at h
    split at h
    · split at h
      · exact nomatch h
      · rename_i hread
        intro c' hc' hexist s hs
        rcases List.mem_cons.1 hc' with rfl | hc'
        · rw [hread] at hs
          exact nomatch hs
        · exact ih h c' hc' hexist s hs
    · rename_i hmissing
      intro c' hc' hexist
      rcases List.mem_cons.1 hc' with rfl | hc'
      · exact absurd hexist hmissing
      · exact ih h c' hc' hexist

variable {env : Environment} {files : Files} {path : Option String} {s : Settings}
  {notes : Journal}

theorem source_of_loadFile (h : loadFile env files path = (.ok s, notes)) :
    ∃ f, Source env files path f ∧ f.Gives s := by
  unfold loadFile at h
  split at h
  · dsimp only at h
    split at h
    · rename_i hread
      obtain rfl := Except.ok.inj (Prod.mk.inj h).1
      obtain ⟨text, f, htext, hsays, hgives⟩ := says_of_readFile hread
      exact ⟨f, .named htext hsays, hgives⟩
    · exact nomatch (Prod.mk.inj h).1
  · split at h
    · rename_i hfirst
      obtain rfl := Except.ok.inj (Prod.mk.inj h).1
      obtain ⟨before, c, after, hcs, hbefore, hread⟩ := firstOf_eq_some (congrArg Prod.fst hfirst)
      obtain ⟨text, f, htext, hsays, hgives⟩ := says_of_readFile hread
      exact ⟨f, .found hcs hbefore htext hsays, hgives⟩
    · rename_i hfirst
      obtain rfl := Except.ok.inj (Prod.mk.inj h).1
      exact ⟨.nothing, .absent (firstOf_eq_none (congrArg Prod.fst hfirst)), rfl, rfl, rfl, rfl⟩

/-- The settings of the service, each by the first source that has something to say of it. -/
structure Resolved (env : Environment) (f : Said) (a : Arguments) (server : ServerSettings) :
    Prop where
  url : server.url = ((a.server.or ((env.get? urlVariable).filter (· ≠ ""))).or f.url).getD
    "http://localhost:8080"
  token : server.token = ((env.get? tokenVariable).or f.token).getD ""
  timeoutSecs : ∃ secs : Option UInt64,
    (∀ n, secs = some n ↔ ∃ v, env.get? timeoutVariable = some v ∧ Seconds v n) ∧
      server.timeoutSecs = ((a.timeoutSecs.or secs).or f.timeoutSecs).getD 10

theorem overrideUrl_eq (lookup : String → Option String) (url : String) :
    overrideUrl lookup url = ((lookup urlVariable).filter (· ≠ "")).getD url := by
  unfold overrideUrl
  split
  · rename_i v hv
    rw [hv]
    by_cases hempty : v = ""
    · subst hempty
      rfl
    · rw [if_neg (fun h => hempty (String.isEmpty_iff.1 h)), Option.filter_some,
        if_pos (decide_eq_true hempty)]
      rfl
  · rename_i hnone
    rw [hnone]
    rfl

theorem resolved_of_gives {f : Said} (h : f.Gives s) (a : Arguments) :
    Resolved env f a (a.serverSettings (override env.get? s).1.server) := by
  refine { url := ?_, token := ?_, timeoutSecs := ?_ }
  · rw [Option.getD_or, Option.getD_or, ← h.url, ← overrideUrl_eq]
    rfl
  · rw [Option.getD_or, ← h.token]
    rfl
  · refine ⟨(env.get? timeoutVariable).bind readTimeout?, ?_, ?_⟩
    · intro n
      rw [Option.bind_eq_some_iff]
      simp only [readTimeout?_eq_some]
    · rw [Option.getD_or, Option.getD_or, ← h.timeoutSecs]
      rfl

/-- Every field of the settings that a run goes by has its value from the first source that has a
word for it, whatever the others say of other fields. -/
theorem settings_precedence (h : load env files path = (.ok s, notes)) (a : Arguments) :
    let server := a.serverSettings s.server
    let n := Notifier.ofSettings server
    ∃ f, Source env files path f ∧ Resolved env f a server ∧
      s.logLevel = f.logLevel.getD .info ∧
      n.timeoutSecs = max 1 server.timeoutSecs.toNat ∧ n.timeoutSecs ≠ 0 ∧
      ∀ title terminal coloured stamp service,
        let x := a.run title terminal coloured s.server stamp service
        x.journal.head? = some (noteServer server) ∧ (a.dryRun = false → x.requests =
          (n.send service (.ofNotification (a.notification title) stamp)).requests) := by
  intro server n
  unfold load at h
  split at h
  · exact nomatch (Prod.mk.inj h).1
  · rename_i given given_notes hload
    obtain ⟨f, hsource, hgives⟩ := source_of_loadFile hload
    obtain rfl := Except.ok.inj (Prod.mk.inj h).1
    refine ⟨f, hsource, resolved_of_gives hgives a, hgives.logLevel, rfl, ?_, ?_⟩
    · exact Nat.ne_of_gt (ServerSettings.effectiveTimeout_pos server)
    · intro title terminal coloured stamp service x
      exact ⟨rfl, fun hd => CommandLine.requests_run hd title terminal coloured _ stamp service⟩

theorem settings_precedence_mixed :
    let env : Environment := [("BREAKPOINT_URL", ""), ("BREAKPOINT_API_TOKEN", ""),
      ("BREAKPOINT_TIMEOUT_SECS", " +7\n")]
    let text := "server:\n  url: http://a\n  token: t\n  timeout_secs: 5\nlog_level: debug\n"
    let files : Files := fun path =>
      if path = localName then .file (Text.bytesOf text) else .nothing .missing
    let s : Settings := ⟨⟨"http://a", "", 7⟩, .debug⟩
    ∃ notes, load env files none = (.ok s, notes) ∧
      ∃ f, Source env files none f ∧
        Resolved env f .none (Arguments.none.serverSettings s.server) := by
  intro env text files s
  have hload : load env files none = (.ok s, (load env files none).2) := by
    have hgiven : (load env files none).1.toOption = some s := by decide +kernel +revert
    generalize load env files none = given at hgiven ⊢
    obtain ⟨given | given, notes⟩ := given
    · exact nomatch hgiven
    · rw [Option.some.inj hgiven]
  obtain ⟨f, hsource, hresolved, -⟩ := settings_precedence hload .none
  exact ⟨_, hload, f, hsource, hresolved⟩

end EventPost.Settings
