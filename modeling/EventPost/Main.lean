import EventPost.Program
import Std.Time.DateTime.Timestamp

/-!
The command line. What a run needs is gathered first, the run itself is a function of it, and what
it leaves behind is written out. There is no transport here: every service is one that refuses
connections, so a submission that gets so far fails, and a dry run shows what it would have sent.
-/

namespace EventPost.Main

def look (path : String) : IO Files.Found := do
  try
    return .file (← IO.FS.readBinFile path).toList
  catch e =>
    return match e with
      | .inappropriateType _ 20 _ => .nothing .notDirectory
      | .inappropriateType _ _ _ => .directory
      | .permissionDenied _ _ _ => .barred (.other "Permission denied (os error 13)")
      | _ => .nothing .missing

def snapshot (paths : List String) : IO Files := do
  let found ← paths.mapM fun p => return (p, ← look p)
  return fun p => (found.lookup p).getD (.nothing .missing)

def bindings (names : List String) : IO (List (String × String)) := do
  let values ← names.mapM fun s => return (← IO.getEnv s).map (s, ·)
  return values.filterMap id

/-- The home directory that the table of accounts has for whoever runs the program. -/
def accountHome : IO (Option String) := do
  try
    let status ← IO.FS.lines "/proc/self/status"
    let accounts ← IO.FS.lines "/etc/passwd"
    let user := status.findSome? fun line => match line.splitOn "\t" with
      | "Uid:" :: real :: _ => some real
      | _ => none
    return user.bind fun user => accounts.findSome? fun line => match line.splitOn ":" with
      | [_, _, id, _, _, home, _] => if id = user then some home else none
      | _ => none
  catch _ => return none

def environment (argv : List String) : IO Environment := do
  let fixed ← bindings Program.fixedVariables
  let asked := match CommandLine.Arguments.parse argv with
    | .ok a => a.config.toList
    | .error _ => []
  let named := (asked ++ (fixed.lookup Settings.pathVariable).toList).flatMap Program.variablesOf
  let others ← bindings (named.filter (!Program.fixedVariables.contains ·))
  return ⟨fixed ++ others, ← accountHome⟩

def writeLog (env : Environment) (time : String) (records : Journal) : IO Unit := do
  IO.FS.createDirAll (Program.logDirectory env)
  let handle ← IO.FS.Handle.mk (Program.logPath env) .append
  handle.putStr (String.join (records.map (Program.line time)))

end EventPost.Main

open EventPost in
def main (argv : List String) : IO UInt32 := do
  let env ← Main.environment argv
  let files ← Main.snapshot (Program.paths env argv)
  let now := Int64.ofInt (← Std.Time.Timestamp.now).toMillisecondsSinceUnixEpoch.val
  let x := Program.run {
    argv := argv, environment := env, files := files, terminal := ← (← IO.getStdout).isTty
    now := now, counters := .initial, service := ⟨none, []⟩ }
  if let some records := x.log then
    Main.writeLog env (Program.clock now) records
  IO.print x.stdout
  IO.eprint x.stderr
  return x.status.toUInt32
