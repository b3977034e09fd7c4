import EventPost.CommandLine.Request
import EventPost.Submission.Sending

/-!
What a command line does once the settings are known: one event is built, and is sent or, on a dry
run, shown.
-/

namespace EventPost.CommandLine

structure Outcome where
  status : Nat
  stdout : String
  stderr : String
  requests : List Http.Request
  journal : Journal

def noteServer (s : ServerSettings) : Record :=
  ⟨.debug, .command, "Resolved server config: " ++ s.describe⟩

def noteDryRun (id endpoint : String) : Record :=
  ⟨.info, .command, "Dry run, not sending event " ++ id ++ " to " ++ endpoint⟩

def noteFailure (f : Failure) : Record :=
  ⟨.error, .command, "Notification failed: " ++ f.message⟩

def rehearse (coloured : Bool) (format : Format) (n : Notifier) (e : Event) : Outcome :=
  ⟨0, Report.ofEvent coloured format n.endpoint e, "", [], [noteDryRun e.id n.endpoint]⟩

def submit (coloured : Bool) (format : Format) (n : Notifier) (service : Http.Service) (e : Event) :
    Outcome :=
  let x := n.send service e
  match x.outcome with
  | .ok ack => ⟨0, Report.ofAcknowledgment coloured format ack, "", x.requests, x.journal⟩
  | .error f =>
    ⟨1, "", Report.ofFailure coloured n.endpoint f, x.requests, x.journal ++ [noteFailure f]⟩

def Arguments.run (a : Arguments) (title : String) (terminal coloured : Bool)
    (settings : ServerSettings) (stamp : Stamp) (service : Http.Service) : Outcome :=
  let server := a.serverSettings settings
  let n := Notifier.ofSettings server
  let notification := a.notification title
  let e := Event.ofNotification notification stamp
  let format := Format.resolve a.format terminal
  let x := if a.dryRun then rehearse coloured format n e else submit coloured format n service e
  { x with journal := noteServer server :: Event.journalOf notification ++ x.journal }

end EventPost.CommandLine
