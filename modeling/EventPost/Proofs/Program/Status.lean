import EventPost.Program
import EventPost.Proofs.Files
import EventPost.Proofs.Settings.Directory

/-!
What a status tells. A run takes one of eight courses. Its status is two where the command line is not
understood, zero where it was told what it asked for or the service acknowledged the event, and one
in every other course; a caller who reads the output of a success reads nothing else. Whether there
is a log goes by what stands at its place, and the settings are read once it has its first record.
-/

namespace EventPost.Program

open CommandLine (Arguments ArgumentFault)

/-- The command line is not understood. -/
def Rejects (argv : List String) : Prop :=
  ∃ f, Arguments.parse argv = .error f ∧ f ≠ .helpWanted ∧ f ≠ .versionWanted

/-- The command line asks about the program. -/
def Informs (argv : List String) : Prop :=
  Arguments.parse argv = .error .helpWanted ∨ Arguments.parse argv = .error .versionWanted ∨
    ∃ a shell, Arguments.parse argv = .ok a ∧ a.completions = some shell

structure Titled (s : Start) (a : Arguments) (title : String) : Prop where
  parsed : Arguments.parse s.argv = .ok a
  sends : a.completions = none
  title : a.title = some title

/-- Where the user's data lie: without a place for them, in the directory that the program runs in. -/
inductive DataDirectory (env : Environment) : String → Prop
  | user {data : String} : env.Directory "XDG_DATA_HOME" ".local/share" data →
    DataDirectory env data
  | here : (∀ data, ¬env.Directory "XDG_DATA_HOME" ".local/share" data) → DataDirectory env "."

/-- Where the log lies. -/
structure LogAt (env : Environment) (dir log : String) : Prop where
  directory : ∃ data, DataDirectory env data ∧
    dir = Files.join (Files.join data "breakpoint-notify") "logs"
  file : log = Files.join dir "breakpoint-notify.log"

/-- The log can be opened: its directory is there, or nothing is, and so it is with its file. -/
def Logged (env : Environment) (files : Files) : Prop :=
  ∃ dir log, LogAt env dir log ∧ (files dir = .directory ∨ files dir = .nothing .missing) ∧
    ((∃ content, files log = .file content) ∨ files log = .nothing .missing)

/-- The run has all that it needs to build its event. -/
structure Configured (s : Start) (a : Arguments) (title : String) (settings : Settings) : Prop
    extends Titled s a title where
  logged : Logged s.environment s.files
  loaded : (Settings.load s.environment (filesWithLog s) a.config).1 = .ok settings

def submission (s : Start) (a : Arguments) (title : String) (settings : Settings) : Submission :=
  (Notifier.ofSettings (a.serverSettings settings.server)).send s.service
    (.ofNotification (a.notification title) (s.counters.stampAt s.now).1)

def Acknowledged (s : Start) (a : Arguments) (title : String) (settings : Settings) : Prop :=
  ∃ ack, (submission s a title settings).outcome = .ok ack

/-- All that a run can do. -/
inductive Course (s : Start) : Finish → Prop
  | informed {text : String} : Informs s.argv → Course s (plain 0 text "")
  | rejected {text : String} : Rejects s.argv → Course s (plain 2 "" text)
  | untitled {a : Arguments} : Arguments.parse s.argv = .ok a → a.completions = none →
    a.title = none → Course s (plain 1 "" usage)
  | unlogged {a : Arguments} {title text : String} : Titled s a title →
    ¬Logged s.environment s.files → Course s (plain 1 "" text)
  | unconfigured {a : Arguments} {title text : String} {log : Option Journal}
    {f : Settings.LoadFailure} : Titled s a title →
    (Settings.load s.environment (filesWithLog s) a.config).1 = .error f →
    Course s ⟨1, "", text, log, []⟩
  | rehearsed {a : Arguments} {title text : String} {settings : Settings}
    {log : Option Journal} : Configured s a title settings → a.dryRun = true →
    Course s ⟨0, text, filterFaults s.environment ++ "", log, []⟩
  | acknowledged {a : Arguments} {title text : String} {settings : Settings}
    {log : Option Journal} : Configured s a title settings → a.dryRun = false →
    Acknowledged s a title settings →
    Course s ⟨0, text, filterFaults s.environment ++ "", log,
      (submission s a title settings).requests⟩
  | failed {a : Arguments} {title text : String} {settings : Settings} {log : Option Journal} :
    Configured s a title settings → a.dryRun = false → ¬Acknowledged s a title settings →
    Course s ⟨1, "", text, log, (submission s a title settings).requests⟩

theorem dataDirectory_iff {env : Environment} {data : String} :
    DataDirectory env data ↔ data = env.dataDirectory := by
  unfold Environment.dataDirectory
  cases hdata : env.directory? "XDG_DATA_HOME" ".local/share" with
  | some dir =>
    have huser := Environment.directory?_eq_some.1 hdata
    refine ⟨?_, fun h => h ▸ .user huser⟩
    rintro (hother | hnone)
    · rw [← Environment.directory?_eq_some, hdata] at hother
      exact (Option.some.inj hother).symm
    · exact absurd huser (hnone dir)
  | none =>
    have hnone := Environment.directory?_eq_none.1 hdata
    refine ⟨?_, fun h => h ▸ .here hnone⟩
    rintro (huser | -)
    · exact absurd huser (hnone data)
    · rfl

theorem makeDirectory_eq_ok {files : Files} {path : String} :
    files.makeDirectory path = .ok () ↔
      files path = .directory ∨ files path = .nothing .missing := by
  unfold Files.makeDirectory
  split <;> simp_all

theorem openFile_eq_ok {files : Files} {path : String} :
    files.openFile path = .ok () ↔
      (∃ content, files path = .file content) ∨ files path = .nothing .missing := by
  unfold Files.openFile
  split <;> simp_all

theorem logAt_iff {env : Environment} {dir log : String} :
    LogAt env dir log ↔ dir = logDirectory env ∧ log = logPath env := by
  constructor
  · rintro ⟨⟨data, hdata, rfl⟩, rfl⟩
    obtain rfl := dataDirectory_iff.1 hdata
    exact ⟨rfl, rfl⟩
  · rintro ⟨rfl, rfl⟩
    exact ⟨⟨_, dataDirectory_iff.2 rfl, rfl⟩, rfl⟩

theorem logTrouble_eq_none {env : Environment} {files : Files} :
    logTrouble env files = none ↔ Logged env files := by
  have hlogged : Logged env files ↔ files.makeDirectory (logDirectory env) = .ok () ∧
      files.openFile (logPath env) = .ok () := by
    rw [makeDirectory_eq_ok, openFile_eq_ok]
    constructor
    · rintro ⟨dir, log, hlog, hfound⟩
      obtain ⟨rfl, rfl⟩ := logAt_iff.1 hlog
      exact hfound
    · exact fun hfound => ⟨_, _, logAt_iff.2 ⟨rfl, rfl⟩, hfound⟩
  rw [hlogged]
  unfold logTrouble
  split
  · simp_all
  · split <;> simp_all

variable {s : Start} {a : Arguments} {title : String} {settings : Settings}

theorem Configured.unique {a' : Arguments} {title' : String} {settings' : Settings}
    (h : Configured s a title settings) (h' : Configured s a' title' settings') :
    a = a' ∧ title = title' ∧ settings = settings' := by
  obtain rfl := Except.ok.inj (h.parsed.symm.trans h'.parsed)
  exact ⟨rfl, Option.some.inj (h.title.symm.trans h'.title),
    Except.ok.inj (h.loaded.symm.trans h'.loaded)⟩

theorem Course.stdout {x : Finish} (h : Course s x) (hstatus : x.status ≠ 0) : x.stdout = "" := by
  cases h with
  | informed _ | rehearsed _ _ | acknowledged _ _ _ => exact absurd rfl hstatus
  | rejected _ | untitled _ _ _ | unlogged _ _ | unconfigured _ _ | failed _ _ _ => rfl

theorem Course.stderr {x : Finish} (h : Course s x) (hfilter : filterFaults s.environment = "")
    (hstatus : x.status = 0) : x.stderr = "" := by
  cases h with
  | informed _ => rfl
  -- Faults in a filter are told on every run that has a log, on a good one too.
  | rehearsed _ _ | acknowledged _ _ _ => rw [hfilter]; rfl
  | rejected _ | untitled _ _ _ | unlogged _ _ | unconfigured _ _ | failed _ _ _ =>
    exact nomatch hstatus

theorem Course.reached {x : Finish} (h : Course s x) (hne : x.requests ≠ []) :
    ∃ a title settings, Configured s a title settings ∧ a.dryRun = false := by
  cases h with
  | acknowledged h hd _ | failed h hd _ => exact ⟨_, _, _, h, hd⟩
  | informed _ | rejected _ | untitled _ _ _ | unlogged _ _ | unconfigured _ _ | rehearsed _ _ =>
    exact absurd rfl hne

end EventPost.Program
