import Mathlib.Tactic.FinCases
import EventPost.Proofs.Settings.Directory
import EventPost.Proofs.Text.Utf8

/-!
Which file the settings come from. A file that is asked for is the only one looked at, and must
load. Otherwise the candidates are tried in turn: the first one that loads is taken, each one before
it that is there leaves a warning, and what stands behind it plays no part. The log says of one file
that it was taken, or once that there was none.
-/

namespace EventPost.Settings

/-- What is found at the path is a text of settings. -/
def Loads (files : Files) (path : String) (s : Settings) : Prop :=
  ∃ text, files path = .file (Text.bytesOf text) ∧ parse text = .ok s

variable {env : Environment} {files files' : Files} {path : String} {s t : Settings}

theorem readText_eq_ok {text : String} :
    files.readText path = .ok text ↔ files path = .file (Text.bytesOf text) := by
  constructor
  · intro h
    unfold Files.readText at h
    split at h
    · rename_i content hfile
      split at h
      · rename_i decoded hdecoded
        rw [hfile, Text.decodeString?_eq_some.1 hdecoded, Except.ok.inj h]
      · exact nomatch h
    · exact nomatch h
    · exact nomatch h
    · exact nomatch h
  · intro h
    simp [Files.readText, h, Text.decodeString?_eq_some.2 rfl]

theorem readFile_eq_ok : readFile files path = .ok s ↔ Loads files path s := by
  constructor
  · intro h
    unfold readFile at h
    split at h
    · exact nomatch h
    · rename_i text htext
      split at h
      · exact nomatch h
      · rename_i s' hparse
        obtain rfl := Except.ok.inj h
        exact ⟨text, readText_eq_ok.1 htext, hparse⟩
  · intro h
    obtain ⟨text, hfile, hparse⟩ := h
    simp [readFile, readText_eq_ok.2 hfile, hparse]

theorem exist_iff : files.exist path = true ↔ ∀ why, files path ≠ .nothing why := by
  unfold Files.exist
  split <;> simp_all

theorem Loads.exist (h : Loads files path s) : files.exist path = true := by
  obtain ⟨text, hfile, -⟩ := h
  simp [Files.exist, hfile]

theorem Loads.unique (hs : Loads files path s) (ht : Loads files path t) : s = t := by
  rw [← readFile_eq_ok] at hs ht
  exact Except.ok.inj (hs.symm.trans ht)

theorem Loads.congr (h : files' path = files path) : Loads files' path s ↔ Loads files path s := by
  simp only [Loads, h]

theorem exist_congr (h : files' path = files path) : files'.exist path = files.exist path := by
  rw [Files.exist, Files.exist, h]

theorem readFile_congr (h : files' path = files path) :
    readFile files' path = readFile files path := by
  simp only [readFile, Files.readText, h]

def warning? (files : Files) (c : Candidate) : Option Record :=
  if files.exist c.path then
    match readFile files c.path with
    | .ok _ => none
    | .error trouble => some (noteFailed c trouble)
  else none

theorem warning?_congr {c : Candidate} (h : files' c.path = files c.path) :
    warning? files' c = warning? files c := by
  simp only [warning?, exist_congr h, readFile_congr h]

theorem firstOf_skip {c : Candidate} (h : ∀ t, ¬Loads files c.path t) (cs : List Candidate) :
    firstOf files (c :: cs) =
      ((firstOf files cs).1, (warning? files c).toList ++ (firstOf files cs).2) := by
  have hread : ∃ trouble, readFile files c.path = .error trouble := by
    cases hread : readFile files c.path with
    | error trouble => exact ⟨trouble, rfl⟩
    | ok t => exact absurd (readFile_eq_ok.1 hread) (h t)
  obtain ⟨trouble, hread⟩ := hread
  by_cases hexist : files.exist c.path = true
  · simp [firstOf, warning?, hread, hexist]
  · simp [firstOf, warning?, hexist]

theorem firstOf_take {c : Candidate} (h : Loads files c.path s) (cs : List Candidate) :
    firstOf files (c :: cs) = (some s, noteLoaded c.path s) := by
  simp [firstOf, h.exist, readFile_eq_ok.2 h]

theorem firstOf_append {before : List Candidate}
    (h : ∀ c ∈ before, ∀ t, ¬Loads files c.path t) (cs : List Candidate) :
    firstOf files (before ++ cs) =
      ((firstOf files cs).1, before.filterMap (warning? files) ++ (firstOf files cs).2) := by
  induction before with
  | nil => rfl
  | cons c before ih =>
    rw [List.cons_append, firstOf_skip (h c List.mem_cons_self),
      ih fun b hb => h b (List.mem_cons_of_mem c hb), List.filterMap_cons]
    cases warning? files c <;> rfl

/-- Which candidate is taken, with what it holds, and which ones come before it. Without one the
defaults are taken. -/
inductive Choice (files : Files) (cs : List Candidate) :
    List Candidate → Option Candidate → Settings → Prop
  | first {before after : List Candidate} {c : Candidate} {s : Settings} :
    cs = before ++ c :: after → (∀ b ∈ before, ∀ t, ¬Loads files b.path t) →
    Loads files c.path s → Choice files cs before (some c) s
  | defaults : (∀ c ∈ cs, ∀ t, ¬Loads files c.path t) → Choice files cs cs none .default

theorem exists_choice (files : Files) (cs : List Candidate) :
    ∃ before chosen s, Choice files cs before chosen s := by
  induction cs with
  | nil => exact ⟨[], none, .default, .defaults fun c hc => absurd hc List.not_mem_nil⟩
  | cons c cs ih =>
    by_cases hc : ∃ s, Loads files c.path s
    · obtain ⟨s, hs⟩ := hc
      exact ⟨[], some c, s, .first rfl (fun b hb => absurd hb List.not_mem_nil) hs⟩
    · have hfails : ∀ t, ¬Loads files c.path t := fun t ht => hc ⟨t, ht⟩
      obtain ⟨before, chosen, s, hchoice⟩ := ih
      cases hchoice with
      | first hcs hbefore hs =>
        refine ⟨c :: before, some _, s, .first (by rw [hcs]; rfl) ?_ hs⟩
        exact List.forall_mem_cons.2 ⟨hfails, hbefore⟩
      | defaults hcs =>
        exact ⟨c :: cs, none, .default, .defaults (List.forall_mem_cons.2 ⟨hfails, hcs⟩)⟩

theorem Choice.congr {cs before : List Candidate} {chosen : Option Candidate}
    (h : Choice files cs before chosen s)
    (hsame : ∀ c ∈ before ++ chosen.toList, files' c.path = files c.path) :
    Choice files' cs before chosen s := by
  cases h with
  | first hcs hbefore hs =>
    refine .first hcs ?_ ((Loads.congr (hsame _ (by simp))).2 hs)
    intro b hb t
    rw [Loads.congr (hsame b (List.mem_append_left _ hb))]
    exact hbefore b hb t
  | defaults hcs =>
    refine .defaults ?_
    intro c hc t
    rw [Loads.congr (hsame c (List.mem_append_left _ hc))]
    exact hcs c hc t

def noteChosen (s : Settings) : Option Candidate → Journal
  | some c => noteLoaded c.path s
  | none => [noteDefaults]

theorem Choice.load {before : List Candidate} {chosen : Option Candidate}
    (h : Choice files (candidates env) before chosen s) :
    load env files none = (.ok (override env.get? s).1,
      before.filterMap (warning? files) ++ noteChosen s chosen ++ (override env.get? s).2) := by
  cases h with
  | first hcs hbefore hs =>
    simp [Settings.load, loadFile, hcs, firstOf_append hbefore, firstOf_take hs, noteChosen]
  | defaults hcs =>
    have hnone := firstOf_append hcs []
    rw [List.append_nil] at hnone
    simp [Settings.load, loadFile, hnone, firstOf, noteChosen]

/-- The records of a log that begin with the given words. -/
def opening (words : String) (notes : Journal) : Journal :=
  notes.filter fun r => words.toList.isPrefixOf r.text.toList

theorem opening_append (words : String) (notes more : Journal) :
    opening words (notes ++ more) = opening words notes ++ opening words more :=
  List.filter_append ..

def fileWords : List String :=
  ["Failed to load ", "server.token is set", "Loaded config from: ", "No config file found"]

theorem opening_override {words : String} (h : words ∈ fileWords) (lookup : String → Option String)
    (s : Settings) : opening words (override lookup s).2 = [] := by
  have htimeout : opening words (noteTimeout lookup) = [] := by
    unfold noteTimeout
    split
    · rfl
    · split_ifs
      · rfl
      · fin_cases h <;> simp [opening, List.isPrefixOf]
  have htoken : ∀ token, opening words (noteToken token) = [] := by
    intro token
    unfold noteToken
    split_ifs
    · fin_cases h <;> simp [opening, List.isPrefixOf]
    · rfl
  rw [override, opening_append, htimeout, htoken]
  rfl

theorem exists_of_mem_warnings {cs : List Candidate} {r : Record}
    (h : r ∈ cs.filterMap (warning? files)) : ∃ c trouble, r = noteFailed c trouble := by
  obtain ⟨c, -, hc⟩ := List.mem_filterMap.1 h
  unfold warning? at hc
  split_ifs at hc
  split at hc
  · exact nomatch hc
  · exact ⟨c, _, (Option.some.inj hc).symm⟩

theorem opening_warnings (cs : List Candidate) :
    opening "Failed to load " (cs.filterMap (warning? files)) = cs.filterMap (warning? files) := by
  apply List.filter_eq_self.2
  intro r hr
  obtain ⟨c, trouble, rfl⟩ := exists_of_mem_warnings hr
  simp [noteFailed, List.isPrefixOf]

theorem opening_warnings_other {words : String} (h : words ∈ fileWords.tail)
    (cs : List Candidate) : opening words (cs.filterMap (warning? files)) = [] := by
  apply List.filter_eq_nil_iff.2
  intro r hr
  obtain ⟨c, trouble, rfl⟩ := exists_of_mem_warnings hr
  fin_cases h <;> simp [noteFailed, List.isPrefixOf]

theorem warnings_spec {cs : List Candidate} (h : ∀ c ∈ cs, ∀ t, ¬Loads files c.path t) :
    List.Forall₂ (fun c r => ∃ trouble, readFile files c.path = .error trouble ∧
      r = noteFailed c trouble)
      (cs.filter (files.exist ·.path)) (cs.filterMap (warning? files)) := by
  induction cs with
  | nil => exact .nil
  | cons c cs ih =>
    have hrest := ih fun b hb => h b (List.mem_cons_of_mem c hb)
    by_cases hexist : files.exist c.path = true
    · cases hread : readFile files c.path with
      | error trouble =>
        simp only [List.filter_cons, hexist, if_true, List.filterMap_cons, warning?, hread]
        exact .cons ⟨trouble, hread, rfl⟩ hrest
      | ok t => exact absurd (readFile_eq_ok.1 hread) (h c List.mem_cons_self t)
    · simp only [List.filter_cons, hexist, List.filterMap_cons, warning?]
      exact hrest

theorem opening_noteLoaded (path : String) (s : Settings) :
    opening "Failed to load " (noteLoaded path s) = [] ∧
    opening "server.token is set" (noteLoaded path s) = (if s.server.token = "" then [] else
      [⟨.warn, .settings,
        "server.token is set in config file, prefer the BREAKPOINT_API_TOKEN env var"⟩]) ∧
    opening "Loaded config from: " (noteLoaded path s) =
      [⟨.info, .settings, "Loaded config from: " ++ path⟩] ∧
    opening "No config file found" (noteLoaded path s) = [] := by
  have htext : "server.token is set in config file, prefer the " ++ tokenVariable ++ " env var" =
      "server.token is set in config file, prefer the BREAKPOINT_API_TOKEN env var" := by decide
  by_cases htoken : s.server.token = ""
  · simp [opening, noteLoaded, htoken, List.isPrefixOf]
  · simp only [noteLoaded, String.isEmpty_iff, if_neg htoken, htext]
    simp [opening, List.isPrefixOf]

theorem Choice.not_loads {cs before : List Candidate} {chosen : Option Candidate}
    (h : Choice files cs before chosen s) : ∀ b ∈ before, ∀ t, ¬Loads files b.path t := by
  cases h with
  | first _ hbefore _ => exact hbefore
  | defaults hcs => exact hcs

theorem Choice.opening_noteChosen {cs before : List Candidate} {chosen : Option Candidate}
    (h : Choice files cs before chosen s) :
    opening "Failed to load " (noteChosen s chosen) = [] ∧
    opening "server.token is set" (noteChosen s chosen) = (if s.server.token = "" then [] else
      [⟨.warn, .settings,
        "server.token is set in config file, prefer the BREAKPOINT_API_TOKEN env var"⟩]) ∧
    opening "Loaded config from: " (noteChosen s chosen) = (chosen.toList.map fun c =>
      ⟨.info, .settings, "Loaded config from: " ++ c.path⟩) ∧
    opening "No config file found" (noteChosen s chosen) = (if chosen.isSome then [] else
      [⟨.info, .settings, "No config file found, using defaults"⟩]) := by
  cases h with
  | first => exact opening_noteLoaded _ _
  | defaults =>
    have htoken : Settings.default.server.token = "" := rfl
    simp [noteChosen, opening, noteDefaults, htoken, List.isPrefixOf]

/-- The chain of fallbacks, for every environment and every state of the files. -/
theorem fallback_chain (env : Environment) (files : Files) :
    (∀ p, (∃ s, Loads files (expand env p) s ∧ load env files (some p) =
        (.ok (override env.get? s).1, noteLoaded (expand env p) s ++ (override env.get? s).2)) ∨
      (∀ s, ¬Loads files (expand env p) s) ∧ ∃ f, load env files (some p) = (.error f, []) ∧
        f.chain.head? = some ("Failed to load config from " ++ expand env p)) ∧
    (∀ p files', files' (expand env p) = files (expand env p) →
      load env files' (some p) = load env files (some p)) ∧
    (∃ config : Option String,
      (∀ dir, config = some dir ↔ env.Directory "XDG_CONFIG_HOME" ".config" dir) ∧
      (candidates env).map (·.path) =
        ((env.get? "BREAKPOINT_NOTIFY_CONFIG").map (expand env)).toList
          ++ (config.map fun dir => Files.join (Files.join dir "breakpoint") "notify.yaml").toList
          ++ ["breakpoint-notify.yaml"]) ∧
    ∃ before chosen s notes, Choice files (candidates env) before chosen s ∧
      load env files none = (.ok (override env.get? s).1, notes) ∧
      (∀ path, files.exist path = true ↔ ∀ why, files path ≠ .nothing why) ∧
      List.Forall₂ (fun c r => ∃ trouble, readFile files c.path = .error trouble ∧
          r = ⟨.warn, .settings, "Failed to load " ++ c.label ++ ": " ++ trouble.summary⟩)
        (before.filter (files.exist ·.path)) (opening "Failed to load " notes) ∧
      opening "server.token is set" notes = (if s.server.token = "" then [] else
        [⟨.warn, .settings,
          "server.token is set in config file, prefer the BREAKPOINT_API_TOKEN env var"⟩]) ∧
      opening "Loaded config from: " notes = (chosen.toList.map fun c =>
        ⟨.info, .settings, "Loaded config from: " ++ c.path⟩) ∧
      opening "No config file found" notes = (if chosen.isSome then [] else
        [⟨.info, .settings, "No config file found, using defaults"⟩]) ∧
      ∀ files', (∀ c ∈ before ++ chosen.toList, files' c.path = files c.path) →
        load env files' none = load env files none := by
  refine ⟨?_, ?_, ?_, ?_⟩
  · intro p
    cases hread : readFile files (expand env p) with
    | ok s =>
      refine .inl ⟨s, readFile_eq_ok.1 hread, ?_⟩
      simp [load, loadFile, hread]
    | error trouble =>
      refine .inr ⟨fun s hs => ?_, ⟨expand env p, trouble⟩, ?_, rfl⟩
      · rw [readFile_eq_ok.2 hs] at hread
        exact nomatch hread
      · simp [load, loadFile, hread]
  · intro p files' h
    simp [load, loadFile, readFile_congr h]
  · refine ⟨env.configDirectory?, fun _ => Environment.directory?_eq_some, ?_⟩
    simp [candidates, Function.comp_def, Option.toList_map, pathVariable, localName]
  · obtain ⟨before, chosen, s, hchoice⟩ := exists_choice files (candidates env)
    obtain ⟨hfailed, htoken, hloaded, hdefaults⟩ := hchoice.opening_noteChosen
    have hnotes : ∀ words ∈ fileWords, opening words (before.filterMap (warning? files)
          ++ noteChosen s chosen ++ (override env.get? s).2) =
        opening words (before.filterMap (warning? files))
          ++ opening words (noteChosen s chosen) := by
      intro words hwords
      rw [opening_append, opening_append, opening_override hwords, List.append_nil]
    have hother : ∀ words ∈ fileWords.tail, opening words (before.filterMap (warning? files)
          ++ noteChosen s chosen ++ (override env.get? s).2) =
        opening words (noteChosen s chosen) := by
      intro words hwords
      rw [hnotes words (List.mem_of_mem_tail hwords), opening_warnings_other hwords,
        List.nil_append]
    refine ⟨before, chosen, s, _, hchoice, hchoice.load, fun path => exist_iff, ?_, ?_, ?_, ?_, ?_⟩
    · rw [hnotes _ (by simp [fileWords]), opening_warnings, hfailed, List.append_nil]
      exact warnings_spec hchoice.not_loads
    · rw [hother _ (by simp [fileWords]), htoken]
    · rw [hother _ (by simp [fileWords]), hloaded]
    · rw [hother _ (by simp [fileWords]), hdefaults]
    · intro files' hsame
      have hwarned : before.filterMap (warning? files') = before.filterMap (warning? files) := by
        apply List.filterMap_congr
        intro c hc
        exact warning?_congr (hsame c (List.mem_append_left _ hc))
      rw [(hchoice.congr hsame).load, hchoice.load, hwarned]

end EventPost.Settings
