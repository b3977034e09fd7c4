import EventPost.Http.Error
import EventPost.Text.Blank

/-!
The three ways in which a submission fails: no answer came, the answer's status was no success, or
the status was a success and the body no acknowledgment.
-/

namespace EventPost

open Numeral (decimalText)

inductive Failure
  | transport (message : String) (timedOut : Bool)
  | protocol (status : Nat) (body : Option String)
  | decode (message : String) (body : String)
  deriving DecidableEq, Repr

namespace Failure

/-- A refusal with the text of its body. A blank body says nothing and is dropped. -/
def refused (status : Nat) (body : Option String) : Failure :=
  .protocol status (body.filter fun s => !(Text.trim s).isEmpty)

def timeout (ms : Nat) : Failure :=
  .transport ("no response within " ++ decimalText ms ++ "ms") true

def ofHttp : Http.Error → Failure
  | .statusCode n => refused n none
  | .timeout stage => .transport ("timed out (" ++ stage.name ++ ")") true
  | .io true s => .transport s true
  | e => .transport e.message false

def message : Failure → String
  | .transport s _ => "transport error: " ++ s
  | .protocol n _ => "service responded with HTTP " ++ decimalText n
  | .decode s _ => "malformed acknowledgment: " ++ s

def isTimeout : Failure → Bool
  | .transport _ timedOut => timedOut
  | _ => false

def status? : Failure → Option Nat
  | .protocol n _ => some n
  | _ => none

def body? : Failure → Option String
  | .transport _ _ => none
  | .protocol _ body => body
  | .decode _ body => some body

def isRejection (f : Failure) : Bool := f.status?.any fun n => 400 ≤ n && n ≤ 499

def isBreakdown (f : Failure) : Bool := f.status?.any fun n => 500 ≤ n && n ≤ 599

def hint (status : Nat) : String :=
  if status = 401 ∨ status = 403 then " (check BREAKPOINT_API_TOKEN)"
  else if 400 ≤ status ∧ status ≤ 499 then " (event rejected)"
  else ""

def describe (endpoint : String) : Failure → String
  | .transport s true => "Timed out sending event to " ++ endpoint ++ ": " ++ s
  | .transport s false => "Could not reach " ++ endpoint ++ ": " ++ s
  | .protocol n body =>
    "Service returned HTTP " ++ decimalText n ++ hint n
      ++ match body with
        | some s => ": " ++ Text.trim s
        | none => ""
  | .decode s _ => "Unexpected response from " ++ endpoint ++ ": " ++ s

end Failure

end EventPost
