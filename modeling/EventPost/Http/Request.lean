import EventPost.Http.Uri

/-!
Requests, and what may stand in their headers.
-/

namespace EventPost.Http

inductive Method
  | get
  | post
  deriving DecidableEq, Repr

def Method.name : Method → String
  | .get => "GET"
  | .post => "POST"

structure Request where
  method : Method
  uri : Uri
  /-- Names in small letters, each at most once. -/
  headers : List (String × String)
  body : String
  deriving DecidableEq, Repr

/-- A header value may hold tabs, and everything but controls. -/
def isHeaderChar (c : Char) : Bool := c == '\t' || (0x20 ≤ c.toNat && c.toNat != 0x7f)

def isVisible (c : Char) : Bool := c == '\t' || (0x20 ≤ c.toNat && c.toNat ≤ 0x7e)

namespace Request

def header? (r : Request) (name : String) : Option String := r.headers.lookup name

def authorization : String := "authorization"

def contentType : String := "content-type"

def post (address token body : String) : Except Error Request :=
  match Uri.parse address with
  | .error e => .error (.invalidRequest e.message)
  | .ok uri =>
    if token.toList.all isHeaderChar then
      .ok {
        method := .post
        uri := uri
        headers := [(authorization, "Bearer " ++ token), (contentType, "application/json")]
        body := body }
    else .error (.invalidRequest "failed to parse header value")

/-- The request that follows a redirection: nothing but a question, and without the token. -/
def redirected (r : Request) (uri : Uri) : Request :=
  ⟨.get, uri, r.headers.filter (·.1 ≠ authorization), ""⟩

def sendable (r : Request) : Bool :=
  (r.header? authorization).all fun s => s.toList.all isVisible

end Request

end EventPost.Http
