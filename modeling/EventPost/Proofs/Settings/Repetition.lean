import Mathlib.Data.List.Induction
import EventPost.Proofs.Settings.Precedence

/-!
Overrides that are applied one after the other. Each field goes by the last environment that has a
usable word for it, and by what it was if none has; which words are usable differs from field to
field, and no field looks at another's. A second look at the same environment changes nothing.
-/

namespace EventPost.Settings

def overrideAll (s : Settings) (lookups : List (String → Option String)) : Settings :=
  lookups.foldl (fun s lookup => (override lookup s).1) s

/-- The last source that has a word for a value settles it; without one it stays as it was. -/
inductive Settled {ε α : Type} (tells : ε → α → Prop) (start : α) : List ε → α → Prop
  | kept {sources : List ε} : (∀ e ∈ sources, ∀ v, ¬tells e v) → Settled tells start sources start
  | last {earlier later : List ε} {e : ε} {v : α} : tells e v →
    (∀ e' ∈ later, ∀ v', ¬tells e' v') → Settled tells start (earlier ++ e :: later) v

/-- The time that a step finds and cannot use is told. -/
inductive Warns (lookup : String → Option String) : Journal → Prop
  | silent : (∀ t, lookup "BREAKPOINT_TIMEOUT_SECS" = some t → ∃ n, Seconds t n) → Warns lookup []
  | unusable {t : String} : lookup "BREAKPOINT_TIMEOUT_SECS" = some t → (∀ n, ¬Seconds t n) →
    Warns lookup
      [⟨.warn, .settings, "Ignoring invalid BREAKPOINT_TIMEOUT_SECS=" ++ Text.quote t⟩]

/-- That a step leaves no token behind is told. -/
inductive Hints (token : String) : Journal → Prop
  | silent : token ≠ "" → Hints token []
  | empty : token = "" → Hints token
    [⟨.debug, .settings, "No API token configured, requests will carry an empty bearer token"⟩]

theorem overrideAll_concat (s : Settings) (lookups : List (String → Option String))
    (lookup : String → Option String) :
    overrideAll s (lookups ++ [lookup]) = (override lookup (overrideAll s lookups)).1 := by
  rw [overrideAll, List.foldl_append]
  rfl

theorem Settled.concat_tells {ε α : Type} {tells : ε → α → Prop} {start v : α} {sources : List ε}
    {e : ε} (h : tells e v) : Settled tells start (sources ++ [e]) v :=
  .last h fun _ he => absurd he List.not_mem_nil

theorem Settled.concat_silent {ε α : Type} {tells : ε → α → Prop} {start v : α} {sources : List ε}
    {e : ε} (h : Settled tells start sources v) (he : ∀ v, ¬tells e v) :
    Settled tells start (sources ++ [e]) v := by
  cases h with
  | kept hnone =>
    refine .kept fun e' he' => ?_
    rcases List.mem_append.1 he' with he' | he'
    · exact hnone e' he'
    · exact List.mem_singleton.1 he' ▸ he
  | last hv hlater =>
    rw [List.append_assoc, List.cons_append]
    refine .last hv fun e' he' => ?_
    rcases List.mem_append.1 he' with he' | he'
    · exact hlater e' he'
    · exact List.mem_singleton.1 he' ▸ he

theorem settled_overrideAll {α : Type} {f : Settings → α}
    {tells : (String → Option String) → α → Prop}
    (htells : ∀ {lookup v}, tells lookup v → ∀ s, f (override lookup s).1 = v)
    (hsilent : ∀ {lookup}, (∀ v, ¬tells lookup v) → ∀ s, f (override lookup s).1 = f s)
    (s : Settings) (lookups : List (String → Option String)) :
    Settled tells (f s) lookups (f (overrideAll s lookups)) := by
  -- What settles a field is found from the end of the sequence.
  induction lookups using List.reverseRecOn with
  | nil => exact .kept fun _ he => absurd he List.not_mem_nil
  | append_singleton lookups lookup ih =>
    rw [overrideAll_concat]
    by_cases h : ∃ v, tells lookup v
    · obtain ⟨v, hv⟩ := h
      rw [htells hv]
      exact .concat_tells hv
    · rw [hsilent (not_exists.1 h)]
      exact ih.concat_silent (not_exists.1 h)

variable (lookup : String → Option String)

theorem settled_url (s : Settings) (lookups : List (String → Option String)) :
    Settled (fun lookup v => lookup "BREAKPOINT_URL" = some v ∧ v ≠ "") s.server.url lookups
      (overrideAll s lookups).server.url := by
  refine settled_overrideAll (f := (·.server.url)) ?_ ?_ s lookups
  · intro lookup v hv s
    change overrideUrl lookup s.server.url = v
    rw [overrideUrl_eq, show lookup urlVariable = some v from hv.1, Option.filter_some,
      if_pos (decide_eq_true hv.2)]
    rfl
  · intro lookup hnone s
    change overrideUrl lookup s.server.url = s.server.url
    rw [overrideUrl_eq]
    cases hfound : (lookup urlVariable).filter (· ≠ "") with
    | none => rfl
    | some v =>
      rw [Option.filter_eq_some_iff, decide_eq_true_eq] at hfound
      exact absurd hfound (hnone v)

theorem settled_token (s : Settings) (lookups : List (String → Option String)) :
    Settled (fun lookup v => lookup "BREAKPOINT_API_TOKEN" = some v) s.server.token lookups
      (overrideAll s lookups).server.token := by
  refine settled_overrideAll (f := (·.server.token)) ?_ ?_ s lookups
  · intro lookup v hv s
    change (lookup tokenVariable).getD s.server.token = v
    rw [show lookup tokenVariable = some v from hv]
    rfl
  · intro lookup hnone s
    change (lookup tokenVariable).getD s.server.token = s.server.token
    rw [show lookup tokenVariable = none from Option.eq_none_iff_forall_ne_some.2 hnone]
    rfl

theorem bind_readTimeout?_eq_some {n : UInt64} :
    (lookup timeoutVariable).bind readTimeout? = some n ↔
      ∃ t, lookup "BREAKPOINT_TIMEOUT_SECS" = some t ∧ Seconds t n := by
  simp only [Option.bind_eq_some_iff, readTimeout?_eq_some]
  rfl

theorem settled_timeout (s : Settings) (lookups : List (String → Option String)) :
    Settled (fun lookup n => ∃ t, lookup "BREAKPOINT_TIMEOUT_SECS" = some t ∧ Seconds t n)
      s.server.timeoutSecs lookups (overrideAll s lookups).server.timeoutSecs := by
  refine settled_overrideAll (f := (·.server.timeoutSecs)) ?_ ?_ s lookups
  · intro lookup n hn s
    change ((lookup timeoutVariable).bind readTimeout?).getD s.server.timeoutSecs = n
    rw [(bind_readTimeout?_eq_some lookup).2 hn]
    rfl
  · intro lookup hnone s
    change ((lookup timeoutVariable).bind readTimeout?).getD s.server.timeoutSecs = _
    rw [Option.eq_none_iff_forall_ne_some.2 fun n hn =>
      hnone n ((bind_readTimeout?_eq_some lookup).1 hn)]
    rfl

theorem logLevel_overrideAll (s : Settings) (lookups : List (String → Option String)) :
    (overrideAll s lookups).logLevel = s.logLevel := by
  induction lookups using List.reverseRecOn with
  | nil => rfl
  | append_singleton lookups lookup ih =>
    rw [overrideAll_concat]
    exact ih

theorem Settled.positive {ε : Type} {tells : ε → UInt64 → Prop} {start v : UInt64}
    {sources : List ε} (h : Settled tells start sources v) (hs : ∀ e v, tells e v → 0 < v)
    (hstart : 0 < start) : 0 < v := by
  cases h with
  | kept => exact hstart
  | last hv => exact hs _ _ hv

theorem override_override (s : Settings) :
    override lookup (override lookup s).1 = override lookup s := by
  have hurl : overrideUrl lookup (overrideUrl lookup s.server.url) =
      overrideUrl lookup s.server.url := by
    rw [overrideUrl_eq, overrideUrl_eq]
    cases (lookup urlVariable).filter (· ≠ "") <;> rfl
  have htoken : overrideToken lookup (overrideToken lookup s.server.token) =
      overrideToken lookup s.server.token := by
    unfold overrideToken
    cases lookup tokenVariable <;> rfl
  have htimeout : overrideTimeout lookup (overrideTimeout lookup s.server.timeoutSecs) =
      overrideTimeout lookup s.server.timeoutSecs := by
    unfold overrideTimeout
    cases (lookup timeoutVariable).bind readTimeout? <;> rfl
  simp only [override, overrideServer, hurl, htoken, htimeout]

theorem warns_noteTimeout : Warns lookup (noteTimeout lookup) := by
  unfold noteTimeout
  split
  · rename_i hnone
    exact .silent fun t ht => nomatch hnone.symm.trans ht
  · rename_i t ht
    split
    · rename_i hread
      obtain ⟨n, hn⟩ := Option.isSome_iff_exists.1 hread
      refine .silent fun t' ht' => ⟨n, ?_⟩
      obtain rfl := Option.some.inj (ht.symm.trans ht')
      exact readTimeout?_eq_some.1 hn
    · rename_i hread
      rw [Option.not_isSome_iff_eq_none] at hread
      refine .unusable ht fun n hn => ?_
      rw [readTimeout?_eq_some.2 hn] at hread
      cases hread

theorem hints_noteToken (token : String) : Hints token (noteToken token) := by
  unfold noteToken
  split
  · rename_i hempty
    exact .empty (String.isEmpty_iff.1 hempty)
  · rename_i hpresent
    exact .silent fun hempty => hpresent (String.isEmpty_iff.2 hempty)

/-- Whatever the sequence of environments, each field of the service is settled by the last one with
a usable word for it, a time that is positive stays so, and the log level is left alone. A second
look at an environment finds what the first one did. Each step warns of the time that it cannot use,
and then hints at the token that is missing after it. -/
theorem last_override_wins (s : Settings) (lookups : List (String → Option String)) :
    let last := overrideAll s lookups
    Settled (fun lookup v => lookup "BREAKPOINT_URL" = some v ∧ v ≠ "") s.server.url lookups
      last.server.url ∧
    Settled (fun lookup v => lookup "BREAKPOINT_API_TOKEN" = some v) s.server.token lookups
      last.server.token ∧
    Settled (fun lookup n => ∃ t, lookup "BREAKPOINT_TIMEOUT_SECS" = some t ∧ Seconds t n)
      s.server.timeoutSecs lookups last.server.timeoutSecs ∧
    last.logLevel = s.logLevel ∧
    (0 < s.server.timeoutSecs → 0 < last.server.timeoutSecs) ∧
    (∀ lookup, override lookup (override lookup s).1 = override lookup s) ∧
    ∀ earlier lookup later, lookups = earlier ++ lookup :: later →
      ∃ after warning hint, override lookup (overrideAll s earlier) = (after, warning ++ hint) ∧
        after = overrideAll s (earlier ++ [lookup]) ∧ Warns lookup warning ∧
        Hints after.server.token hint := by
  intro last
  refine ⟨settled_url s lookups, settled_token s lookups, settled_timeout s lookups,
    logLevel_overrideAll s lookups, ?_, fun lookup => override_override lookup s, ?_⟩
  · refine (settled_timeout s lookups).positive fun lookup n hn => ?_
    obtain ⟨t, -, hseconds⟩ := hn
    exact hseconds.1
  · intro earlier lookup later _
    exact ⟨(override lookup (overrideAll s earlier)).1, noteTimeout lookup, _, rfl,
      (overrideAll_concat s earlier lookup).symm, warns_noteTimeout lookup, hints_noteToken _⟩

example : (overrideAll ⟨⟨"http://a", "t", 5⟩, .info⟩
    [Environment.get? [("BREAKPOINT_URL", "http://b"), ("BREAKPOINT_TIMEOUT_SECS", " +07 ")],
      Environment.get? [("BREAKPOINT_URL", ""), ("BREAKPOINT_API_TOKEN", ""),
        ("BREAKPOINT_TIMEOUT_SECS", "18446744073709551616")]]).server = ⟨"http://b", "", 7⟩ := by
  decide +kernel

end EventPost.Settings
