import EventPost.Journal
import EventPost.Settings.Basic
import EventPost.Submission.Failure

/-!
What sends events to one service: the address it posts them to, the token it shows, and the time it
allows for one of them.
-/

namespace EventPost

open Numeral (decimalText)

structure Notifier where
  endpoint : String
  token : String
  timeoutSecs : Nat
  deriving DecidableEq, Repr

namespace Notifier

def eventsPath : String := "/api/v1/events"

/-- Slashes at the end of the base address do not count. -/
def endpointOf (base : String) : String :=
  String.ofList (Text.dropEndWhile (· == '/') base.toList) ++ eventsPath

def ofSettings (s : ServerSettings) : Notifier :=
  ⟨endpointOf s.url, s.token, s.effectiveTimeout⟩

def timeoutText (n : Notifier) : String := decimalText n.timeoutSecs ++ "s"

/-- Leaves out the token. -/
def describe (n : Notifier) : String :=
  "EventNotifier \x7b endpoint: " ++ Text.quote n.endpoint ++ ", timeout: " ++ n.timeoutText
    ++ ", .. \x7d"

/-- The failure of a submission that came to no usable response. A timeout is told by the time
allowed, at whatever stage it struck. -/
def classify (n : Notifier) (e : Http.Error) : Failure × Journal :=
  let f := Failure.ofHttp e
  if f.isTimeout then
    (.timeout (n.timeoutSecs * 1000),
      [⟨.warn, .notifier, "Request to " ++ n.endpoint ++ " timed out after " ++ n.timeoutText⟩])
  else
    (f, [⟨.warn, .notifier, "Request to " ++ n.endpoint ++ " failed: " ++ f.message⟩])

end Notifier

end EventPost
