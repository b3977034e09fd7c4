import EventPost.Proofs.Program.Status
import EventPost.Proofs.Settings.Fallback

/-!
What the log level of the settings does. Two runs whose settings differ in nothing else behave the
same and note the same; up to the end of loading their logs hold the same records, and from then on
each log holds those records that are as severe as its level asks for, in order.
-/

namespace EventPost

namespace Settings

/-- Every path leads to the same, or to settings that are the same but for their level. -/
def SameButLevel (files files' : Files) : Prop :=
  ∀ path, files' path = files path ∨
    ∃ s s', Loads files path s ∧ Loads files' path s' ∧ s'.server = s.server

variable {files files' : Files} {s s' : Settings}

theorem SameButLevel.exist (h : SameButLevel files files') (path : String) :
    files'.exist path = files.exist path := by
  rcases h path with hsame | ⟨s, s', hs, hs', -⟩
  · exact exist_congr hsame
  · rw [hs.exist, hs'.exist]

theorem SameButLevel.readFile (h : SameButLevel files files') (path : String) :
    (∃ trouble, readFile files path = .error trouble ∧ readFile files' path = .error trouble) ∨
      ∃ s s', readFile files path = .ok s ∧ readFile files' path = .ok s' ∧
        s'.server = s.server := by
  rcases h path with hsame | ⟨s, s', hs, hs', hserver⟩
  · rw [readFile_congr hsame]
    cases Settings.readFile files path with
    | error trouble => exact .inl ⟨trouble, rfl, rfl⟩
    | ok s => exact .inr ⟨s, s, rfl, rfl, rfl⟩
  · exact .inr ⟨s, s', readFile_eq_ok.2 hs, readFile_eq_ok.2 hs', hserver⟩

theorem noteLoaded_congr (path : String) (h : s'.server = s.server) :
    noteLoaded path s' = noteLoaded path s := by
  rw [noteLoaded, noteLoaded, h]

theorem SameButLevel.firstOf (h : SameButLevel files files') (cs : List Candidate) :
    (firstOf files' cs).2 = (firstOf files cs).2 ∧
      (firstOf files' cs).1.map (·.server) = (firstOf files cs).1.map (·.server) := by
  induction cs with
  | nil => exact ⟨rfl, rfl⟩
  | cons c cs ih =>
    simp only [Settings.firstOf, h.exist c.path]
    split
    · rcases h.readFile c.path with ⟨trouble, hf, hf'⟩ | ⟨s, s', hf, hf', hserver⟩
      · simp only [hf, hf']
        exact ⟨by rw [ih.1], ih.2⟩
      · simp only [hf, hf']
        exact ⟨noteLoaded_congr c.path hserver, congrArg some hserver⟩
    · exact ih

theorem override_congr (lookup : String → Option String) (h : s'.server = s.server) :
    (override lookup s').1.server = (override lookup s).1.server ∧
      (override lookup s').2 = (override lookup s).2 := by
  simp only [override, h, and_self]

theorem SameButLevel.loadFile (h : SameButLevel files files') (env : Environment)
    (path : Option String) :
    (∃ f notes, loadFile env files path = (.error f, notes) ∧
        loadFile env files' path = (.error f, notes)) ∨
      ∃ s s' notes, loadFile env files path = (.ok s, notes) ∧
        loadFile env files' path = (.ok s', notes) ∧ s'.server = s.server := by
  cases path with
  | some p =>
    simp only [Settings.loadFile]
    rcases h.readFile (expand env p) with ⟨trouble, hf, hf'⟩ | ⟨s, s', hf, hf', hserver⟩
    · simp only [hf, hf']
      exact .inl ⟨_, _, rfl, rfl⟩
    · simp only [hf, hf']
      exact .inr ⟨s, s', _, rfl, by rw [noteLoaded_congr _ hserver], hserver⟩
  | none =>
    obtain ⟨hnotes, hserver⟩ := h.firstOf (candidates env)
    simp only [Settings.loadFile]
    generalize Settings.firstOf files (candidates env) = x at *
    generalize Settings.firstOf files' (candidates env) = x' at *
    obtain ⟨chosen, notes⟩ := x
    obtain ⟨chosen', notes'⟩ := x'
    obtain rfl : notes' = notes := hnotes
    cases chosen with
    | none =>
      obtain rfl : chosen' = none := Option.map_eq_none_iff.1 hserver
      exact .inr ⟨_, _, _, rfl, rfl, rfl⟩
    | some s =>
      obtain ⟨s', rfl, hs⟩ := Option.map_eq_some_iff.1 hserver
      exact .inr ⟨s, s', _, rfl, rfl, hs⟩

theorem SameButLevel.load (h : SameButLevel files files') (env : Environment)
    (path : Option String) : (load env files' path).2 = (load env files path).2 ∧
      (load env files' path).1.map (·.server) = (load env files path).1.map (·.server) := by
  simp only [Settings.load]
  rcases h.loadFile env path with ⟨f, notes, hf, hf'⟩ | ⟨s, s', notes, hf, hf', hserver⟩
  · simp only [hf, hf', and_self]
  · obtain ⟨hsame, hnotes⟩ := override_congr env.get? hserver
    simp only [hf, hf', hnotes, Except.map, hsame, and_self]

end Settings

namespace Journal

/-- The records that are as severe as a level asks for, in order. -/
def atLeast (l : LogLevel) (j : Journal) : Journal := j.filter fun r => r.severity.rank ≤ l.rank

theorem select_level (l : LogLevel) (j : Journal) : (Filter.level l).select j = atLeast l j := by
  refine List.filter_congr fun r _ => ?_
  simp [Filter.passes, Filter.level, decisive, Rule.fits, Severity.passes]

theorem atLeast_sublist {l l' : LogLevel} (h : l.rank ≤ l'.rank) (j : Journal) :
    (atLeast l j).Sublist (atLeast l' j) := by
  refine List.monotone_filter_right j fun r hr => ?_
  rw [decide_eq_true_eq] at hr ⊢
  omega

end Journal

namespace Program

open CommandLine (Arguments)
open Settings (SameButLevel)

def notesOfLoading (s : Start) (a : Arguments) : Journal :=
  noteOpened s.environment :: (Settings.load s.environment (filesWithLog s) a.config).2

def notesOfRun (s : Start) (a : Arguments) (title : String) (server : ServerSettings) : Journal :=
  noteStart a.config :: (a.run title s.terminal (s.environment.coloured s.terminal) server
    (s.counters.stampAt s.now).1 s.service).journal

variable {s s' : Start} {a : Arguments} {title : String} {settings settings' : Settings}

theorem run_of_configured (h : Configured s a title settings) :
    run s = proceed s a title (notesOfLoading s a) settings := by
  have hload := h.loaded
  rw [run, h.parsed]
  simp only [h.sends, h.title, logTrouble_eq_none.2 h.logged, withLog, notesOfLoading]
  generalize Settings.load s.environment (filesWithLog s) a.config = x at *
  obtain ⟨outcome, notes⟩ := x
  obtain rfl : outcome = .ok settings := hload
  rfl

theorem log_of_configured (h : Configured s a title settings)
    (hfilter : s.environment.get? filterVariable = none) :
    (run s).log = some (Journal.atLeast .info (notesOfLoading s a) ++
      Journal.atLeast settings.logLevel
        (noteLevel s.environment settings.logLevel ::
          notesOfRun s a title settings.server)) := by
  have hlevel : ∀ l, filter s.environment l = .level l := by
    intro l
    rw [filter, filter?, hfilter]
    rfl
  rw [run_of_configured h, proceed]
  simp only [hlevel, Journal.select_level]
  rfl

/-- Two runs that differ in the levels of the settings they find, and in nothing else. -/
structure Siblings (s s' : Start) : Prop where
  same : s' = { s with files := s'.files }
  settings : SameButLevel (filesWithLog s) (filesWithLog s')

theorem Siblings.server_eq (h : Siblings s s') (hs : Configured s a title settings)
    (hs' : Configured s' a title settings') : settings'.server = settings.server := by
  have hload := (h.settings.load s.environment a.config).2
  rw [hs.loaded, show s.environment = s'.environment by rw [h.same], hs'.loaded] at hload
  exact Except.ok.inj hload

/-- What the first of two levels changes against the second. -/
structure Filters (s s' : Start) (a : Arguments) (title : String) (settings settings' : Settings) :
    Prop where
  server : settings'.server = settings.server
  stdout : (run s').stdout = (run s).stdout
  stderr : (run s').stderr = (run s).stderr
  status : (run s').status = (run s).status
  requests : (run s').requests = (run s).requests
  log : (run s).log = some (Journal.atLeast .info (notesOfLoading s a) ++
    Journal.atLeast settings.logLevel (noteLevel s.environment settings.logLevel ::
      notesOfRun s a title settings.server))
  /-- Both runs note the same, but for the record of the level itself. -/
  log' : (run s').log = some (Journal.atLeast .info (notesOfLoading s a) ++
    Journal.atLeast settings'.logLevel (noteLevel s.environment settings'.logLevel ::
      notesOfRun s a title settings.server))
  sublist : (Journal.atLeast .info (notesOfLoading s a) ++
      Journal.atLeast settings.logLevel (notesOfRun s a title settings.server)).Sublist
    (Journal.atLeast .info (notesOfLoading s a) ++
      Journal.atLeast settings'.logLevel (notesOfRun s a title settings.server))

/-- The level of the settings decides what the log holds, and nothing else. -/
theorem level_only_filters (h : Siblings s s') (hs : Configured s a title settings)
    (hs' : Configured s' a title settings')
    (hfilter : s.environment.get? filterVariable = none)
    (hle : settings.logLevel.rank ≤ settings'.logLevel.rank) :
    Filters s s' a title settings settings' := by
  have hserver := h.server_eq hs hs'
  have henv : s'.environment = s.environment := by rw [h.same]
  have hnotes : notesOfLoading s' a = notesOfLoading s a := by
    rw [notesOfLoading, notesOfLoading, henv, (h.settings.load s.environment a.config).1]
  have hrest : notesOfRun s' a title settings'.server =
      notesOfRun s a title settings.server := by
    rw [hserver, h.same]
    rfl
  have hlog' := log_of_configured hs' (henv ▸ hfilter)
  rw [hnotes, hrest, henv] at hlog'
  have hrun := run_of_configured hs
  have hrun' := run_of_configured hs'
  rw [proceed, hserver, h.same] at hrun'
  refine {
    server := hserver
    stdout := ?_
    stderr := ?_
    status := ?_
    requests := ?_
    log := log_of_configured hs hfilter
    log' := hlog'
    sublist := (List.Sublist.refl _).append (Journal.atLeast_sublist hle _) }
  all_goals
    rw [hrun, h.same, hrun']
    rfl

theorem filesWithLog_congr {path : String} (h : s' = { s with files := s'.files })
    (hfile : s'.files path = s.files path) : filesWithLog s' path = filesWithLog s path := by
  rw [h]
  simp only [filesWithLog, Files.withText, Files.withDirectory, hfile]

/-- A submission that nobody answers, at the lowest level but one and at the highest. -/
theorem level_only_filters_refused :
    let start : LogLevel → Start := fun l => ⟨["--config", "/c.yaml", "Deploy"], [("HOME", "/h")],
      fun path => if path = "/c.yaml" then .file (Text.bytesOf ("log_level: " ++ l.name ++ "\n"))
        else .nothing .missing,
      false, 1735689600000, .initial, ⟨none, []⟩⟩
    let a : Arguments := { Arguments.none with config := some "/c.yaml", title := some "Deploy" }
    let settings : LogLevel → Settings := fun l => ⟨.default, l⟩
    Siblings (start .error) (start .trace) ∧
      Configured (start .error) a "Deploy" (settings .error) ∧
      Configured (start .trace) a "Deploy" (settings .trace) ∧
      (start .error).environment.get? filterVariable = none ∧
      (settings .error).logLevel.rank ≤ (settings .trace).logLevel.rank ∧
      Filters (start .error) (start .trace) a "Deploy" (settings .error) (settings .trace) := by
  intro start a settings
  have hloads : ∀ l, l = .error ∨ l = .trace →
      Settings.Loads (filesWithLog (start l)) "/c.yaml" (settings l) := by
    rintro l (rfl | rfl)
    · exact ⟨"log_level: error\n", by decide +kernel, by decide +kernel⟩
    · exact ⟨"log_level: trace\n", by decide +kernel, by decide +kernel⟩
  have hsiblings : Siblings (start .error) (start .trace) := by
    refine ⟨rfl, fun path => ?_⟩
    by_cases hpath : path = "/c.yaml"
    · subst hpath
      exact .inr ⟨_, _, hloads .error (.inl rfl), hloads .trace (.inr rfl), rfl⟩
    · have hfile : (start .trace).files path = (start .error).files path := by
        rw [show (start .trace).files path = _ from if_neg hpath,
          show (start .error).files path = _ from if_neg hpath]
      exact .inl (filesWithLog_congr rfl hfile)
  have hconfigured : ∀ l, l = .error ∨ l = .trace →
      Configured (start l) a "Deploy" (settings l) := by
    have hparsed : Arguments.parse ["--config", "/c.yaml", "Deploy"] = .ok a := by rfl
    rintro l (rfl | rfl)
    · exact ⟨⟨hparsed, rfl, rfl⟩, logTrouble_eq_none.1 (by decide +kernel), by decide +kernel⟩
    · exact ⟨⟨hparsed, rfl, rfl⟩, logTrouble_eq_none.1 (by decide +kernel), by decide +kernel⟩
  have hunset : (start .error).environment.get? filterVariable = none := by decide
  have hle : (settings .error).logLevel.rank ≤ (settings .trace).logLevel.rank := by decide
  have herror := hconfigured .error (.inl rfl)
  have htrace := hconfigured .trace (.inr rfl)
  exact ⟨hsiblings, herror, htrace, hunset, hle,
    level_only_filters hsiblings herror htrace hunset hle⟩

end Program

end EventPost
