import EventPost.Event.Basic
import EventPost.Http.Service
import EventPost.Submission.Acknowledgment
import EventPost.Submission.Notifier

/-!
One submission: an event is posted, and the response is an acknowledgment or a failure. A status
that is no success fails whatever the body, and its body is kept if it is text. The body of a
success must be an acknowledgment, and a short one at that.
-/

namespace EventPost

open Numeral (decimalText)

/-- What a submission came to, the requests that reached the service, the service after them, and
what is noted. -/
structure Submission where
  outcome : Except Failure Acknowledgment
  requests : List Http.Request
  service : Http.Service
  journal : Journal

namespace Notifier

def noteSending (n : Notifier) (e : Event) : Record :=
  ⟨.info, .notifier,
    "Sending event " ++ e.id ++ " (type=" ++ e.eventType ++ ", priority=" ++ e.priority ++ ") to "
      ++ n.endpoint⟩

def noteRejected (id : String) (status : Nat) : Record :=
  ⟨.warn, .notifier, "Event " ++ id ++ " rejected with HTTP " ++ decimalText status⟩

def noteAccepted (id : String) (a : Acknowledgment) : Journal :=
  (if a.contains id then []
    else [⟨.warn, .notifier,
      "Acknowledgment for " ++ id ++ " lists unexpected ids: " ++ Text.quoteList a.eventIds⟩])
    ++ [⟨.info, .notifier,
      "Event " ++ id ++ " accepted (" ++ decimalText a.accepted.toNat ++ " event(s))"⟩]

def judge (n : Notifier) (id : String) (outcome : Except Http.Error Http.Response) :
    Except Failure Acknowledgment × Journal :=
  match outcome with
  | .error e => (.error (n.classify e).1, (n.classify e).2)
  | .ok r =>
    if !r.isSuccess then (.error (.refused r.status r.text?), [noteRejected id r.status])
    else
      match r.content with
      | .error (.bodyExceedsLimit limit) =>
        (.error (.decode ("acknowledgment exceeds " ++ decimalText limit ++ " bytes") ""), [])
      | .error e => (.error (n.classify e).1, (n.classify e).2)
      | .ok body =>
        match Acknowledgment.ofBody body with
        | .error f => (.error f, [])
        | .ok a => (.ok a, noteAccepted id a)

def send (n : Notifier) (s : Http.Service) (e : Event) : Submission :=
  match Http.Request.post n.endpoint n.token e.encode with
  | .error err =>
    ⟨.error (n.classify err).1, [], s, n.noteSending e :: (n.classify err).2⟩
  | .ok request =>
    let x := Http.exchange s request Http.maxRedirects
    let (outcome, notes) := n.judge e.id x.outcome
    ⟨outcome, x.requests, x.service, n.noteSending e :: notes⟩

end Notifier

end EventPost
