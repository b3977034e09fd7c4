import EventPost.Numeral.Decimal

/-!
What can keep an exchange with a service from ending in a response.
-/

namespace EventPost.Http

open Numeral (decimalText)

inductive Stage
  | whole
  | call
  | resolve
  | connect
  | sendHead
  | await
  | sendBody
  | receiveHead
  | receiveBody
  deriving DecidableEq, Repr

namespace Stage

def all : List Stage :=
  [whole, call, resolve, connect, sendHead, await, sendBody, receiveHead, receiveBody]

def name : Stage → String
  | whole => "Global"
  | call => "PerCall"
  | resolve => "Resolve"
  | connect => "Connect"
  | sendHead => "SendRequest"
  | await => "Await100"
  | sendBody => "SendBody"
  | receiveHead => "RecvResponse"
  | receiveBody => "RecvBody"

def ofName? (name : String) : Option Stage := all.find? (·.name = name)

def words : Stage → String
  | whole => "global"
  | call => "per call"
  | resolve => "resolve"
  | connect => "connect"
  | sendHead => "send request"
  | await => "await 100"
  | sendBody => "send body"
  | receiveHead => "receive response"
  | receiveBody => "receive body"

end Stage

inductive Error
  | statusCode (status : Nat)
  | timeout (stage : Stage)
  | io (timedOut : Bool) (message : String)
  | hostNotFound
  | connectionFailed
  | tooManyRedirects
  | redirectFailed
  | badUri (detail : String)
  | invalidRequest (detail : String)
  | brokenProtocol (detail : String)
  | headExceedsLimit (length limit : Nat)
  | unpacking (detail : String)
  | bodyExceedsLimit (limit : Nat)
  deriving DecidableEq, Repr

def Error.message : Error → String
  | .statusCode n => "http status: " ++ decimalText n
  | .timeout stage => "timeout: " ++ stage.words
  | .io _ s => "io: " ++ s
  | .hostNotFound => "host not found"
  | .connectionFailed => "connection failed"
  | .tooManyRedirects => "too many redirects"
  | .redirectFailed => "redirect failed"
  | .badUri s => "bad uri: " ++ s
  | .invalidRequest s => "http: " ++ s
  | .brokenProtocol s => "protocol: " ++ s
  | .headExceedsLimit n limit =>
    "response header is too big: " ++ decimalText n ++ " > " ++ decimalText limit
  | .unpacking s => "gzip decompression failed: " ++ s
  | .bodyExceedsLimit n =>
    "the response body is larger than request limit: " ++ decimalText n

namespace Error

def disconnected : Error := .io false "Peer disconnected"

def refused : Error := .io false "Connection refused (os error 111)"

def innerMessage : Error → String
  | .io _ s => s
  | e => e.message

end Error

end EventPost.Http
