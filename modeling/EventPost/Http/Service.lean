import EventPost.Http.Body
import EventPost.Http.Request

/-!
A service, as far as it shows to a client: the address at which it listens, and what it answers to
one request after the other. Each request has a connection of its own. An answer may send the
client to another address, a limited number of times.
-/

namespace EventPost.Http

open Text (Bytes)

structure Reply where
  bytes : Bytes
  ending : Ending
  deriving DecidableEq, Repr

namespace Reply

def silence : Reply := ⟨[], .closed⟩

def headerLine (name value : String) : Bytes := Text.bytesOf (name ++ ": " ++ value ++ "\r\n")

/-- A whole response that says `length` of its body, and closes the connection behind it. -/
def response (status : Nat) (headers : List (String × String)) (length : Nat) (body : Bytes) :
    Reply :=
  let head := Text.bytesOf ("HTTP/1.1 " ++ Numeral.decimalText status ++ " \r\n")
    ++ headers.flatMap (fun h => headerLine h.1 h.2)
    ++ headerLine "Content-Length" (Numeral.decimalText length)
    ++ headerLine "Connection" "close"
  ⟨head ++ 0x0d :: 0x0a :: body, .closed⟩

end Reply

structure Service where
  /-- There is none when nobody listens. -/
  address : Option String
  replies : List Reply
  deriving DecidableEq, Repr

namespace Service

def answer (s : Service) : Reply × Service :=
  match s.replies with
  | [] => (.silence, s)
  | r :: rest => (r, { s with replies := rest })

end Service

/-- What a client got, the requests that reached the service, and the service after them. -/
structure Exchange where
  outcome : Except Error Response
  requests : List Request
  service : Service

/-- The address that a redirection leads to. Its body is passed over, however long it is, and only a
question may be asked again there as it was. -/
def redirection (r : Request) (response : Response) : Except Error Uri :=
  match response.payload.error with
  | some e => .error e
  | none =>
    match response.head.lastHeader? "location" with
    | none => .error (.brokenProtocol "missing a location header")
    | some value =>
      match Head.textOf? value with
      | none =>
        .error (.brokenProtocol ("location header is malformed: " ++ Text.decodeLossy value))
      | some location =>
        if (response.status = 307 ∨ response.status = 308) ∧ r.method = .post then
          .error .redirectFailed
        else
          (r.uri.resolve location).mapError fun _ =>
            .brokenProtocol ("location header is malformed: " ++ location)

def visit (s : Service) (r : Request) : Exchange :=
  match r.uri.check with
  | .error e => ⟨.error e, [], s⟩
  | .ok () =>
    if s.address ≠ some r.uri.host then ⟨.error .refused, [], s⟩
    else if !r.sendable then
      ⟨.error (.brokenProtocol "authorization header is not a string"), [], s⟩
    else
      let (reply, s) := s.answer
      ⟨Response.read reply.bytes reply.ending, [r], s⟩

def Exchange.next? (x : Exchange) (r : Request) : Option (Except Error Uri) :=
  match x.outcome with
  | .ok response => if response.head.redirects then some (redirection r response) else none
  | .error _ => none

def exchange (s : Service) (r : Request) : (hops : Nat) → Exchange
  | 0 =>
    let x := visit s r
    if (x.next? r).isSome then { x with outcome := .error .tooManyRedirects } else x
  | hops + 1 =>
    let x := visit s r
    match x.next? r with
    | none => x
    | some (.error e) => { x with outcome := .error e }
    | some (.ok uri) =>
      let rest := exchange x.service (r.redirected uri) hops
      { rest with requests := x.requests ++ rest.requests }

theorem exchange_of_final {s : Service} {r : Request} (h : (visit s r).next? r = none)
    (hops : Nat) : exchange s r hops = visit s r := by
  cases hops with
  | zero => simp only [exchange, h, Option.isSome_none, Bool.false_eq_true, if_false]
  | succ hops => simp only [exchange, h]

theorem exchange_of_onward {s : Service} {r : Request} {uri : Uri}
    (h : (visit s r).next? r = some (.ok uri)) (hops : Nat) : exchange s r (hops + 1) =
      { exchange (visit s r).service (r.redirected uri) hops with
        requests := (visit s r).requests ++
          (exchange (visit s r).service (r.redirected uri) hops).requests } := by
  rw [exchange, h]

def maxRedirects : Nat := 10

end EventPost.Http
