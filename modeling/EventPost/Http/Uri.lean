import EventPost.Http.Error
import EventPost.Text.Utf8

/-!
Addresses of services. An absolute one names a scheme and an authority, and both are kept as they
are written; what follows them is sent as the target of a request. A reference from one address
leads to another.
-/

namespace EventPost.Http

inductive UriFault
  | invalidCharacter
  | invalidAuthority
  | invalidFormat
  | schemeTooLong
  | tooLong
  | empty
  deriving DecidableEq, Repr

def UriFault.message : UriFault → String
  | .invalidCharacter => "invalid uri character"
  | .invalidAuthority => "invalid authority"
  | .invalidFormat => "invalid format"
  | .schemeTooLong => "scheme too long"
  | .tooLong => "uri too long"
  | .empty => "empty string"

structure Uri where
  scheme : Option String
  /-- Empty when there is none. -/
  authority : String
  /-- The path and the query, without the fragment. -/
  path : String
  deriving DecidableEq, Repr

namespace Uri

def isSchemeChar (c : Char) : Bool := c.isAlphanum || c == '+' || c == '-' || c == '.'

def isAuthorityChar (c : Char) : Bool := c.isAlphanum || "!$&'()*+,-.:;=@[]_~".contains c

def isPathChar (c : Char) : Bool :=
  let n := c.toNat
  n == 0x21 || (0x24 ≤ n && n ≤ 0x3b) || n == 0x3d || (0x40 ≤ n && n ≤ 0x5f)
    || (0x61 ≤ n && n ≤ 0x7a) || n == 0x7c || 0x7e ≤ n || c == '"' || c == '\x7b' || c == '\x7d'

def isQueryChar (c : Char) : Bool :=
  let n := c.toNat
  n == 0x21 || (0x24 ≤ n && n ≤ 0x3b) || n == 0x3d || 0x3f ≤ n

def endsAuthority (c : Char) : Bool := c == '/' || c == '?' || c == '#'

def splitScheme? (cs : List Char) : Option (List Char × List Char) :=
  let scheme := cs.takeWhile isSchemeChar
  match cs.dropWhile isSchemeChar with
  | ':' :: '/' :: '/' :: rest => some (scheme, rest)
  | _ => none

/-- What has been seen of an authority: colons that could begin a port, brackets, percent signs
outside the user part, and whether an at sign came last. -/
structure AuthorityScan where
  colons : Nat
  opened : Bool
  closed : Bool
  percent : Bool
  afterAt : Bool

def AuthorityScan.start : AuthorityScan := ⟨0, false, false, false, false⟩

def maxColons : Nat := 8

def AuthorityScan.step (s : AuthorityScan) (c : Char) : Except UriFault AuthorityScan :=
  if c = '%' then .ok { s with percent := true, afterAt := false }
  else if !isAuthorityChar c then .error .invalidCharacter
  else if c = ':' then
    if maxColons ≤ s.colons then .error .invalidAuthority
    else .ok { s with colons := s.colons + 1, afterAt := false }
  else if c = '[' then
    if s.percent || s.opened then .error .invalidAuthority
    else .ok { s with opened := true, afterAt := false }
  else if c = ']' then
    if !s.opened || s.closed then .error .invalidAuthority
    else .ok ⟨0, s.opened, true, false, false⟩
  else if c = '@' then .ok ⟨0, s.opened, s.closed, false, true⟩
  else .ok { s with afterAt := false }

def checkAuthority (cs : List Char) : Except UriFault Unit :=
  match cs.foldlM AuthorityScan.step .start with
  | .error e => .error e
  | .ok s =>
    if s.opened != s.closed || 1 < s.colons || s.afterAt || s.percent then
      .error .invalidAuthority
    else .ok ()

def readPath (cs : List Char) : Except UriFault String :=
  let cs := cs.takeWhile (· ≠ '#')
  let query := cs.dropWhile (· ≠ '?')
  if (cs.takeWhile (· ≠ '?')).all isPathChar && (query.drop 1).all isQueryChar then
    .ok (String.ofList cs)
  else .error .invalidCharacter

def maxScheme : Nat := 64

def maxLength : Nat := 65534

def readFull (cs : List Char) : Except UriFault Uri :=
  match splitScheme? cs with
  | some (scheme, rest) =>
    if maxScheme < scheme.length then .error .schemeTooLong
    else
      let authority := rest.takeWhile (!endsAuthority ·)
      match checkAuthority authority with
      | .error e => .error e
      | .ok () =>
        if authority.isEmpty then .error .invalidFormat
        else (readPath (rest.dropWhile (!endsAuthority ·))).map fun path =>
          ⟨some (String.ofList scheme), String.ofList authority, path⟩
  | none =>
    let authority := cs.takeWhile (!endsAuthority ·)
    match checkAuthority authority with
    | .error e => .error e
    | .ok () =>
      if authority.length = cs.length then .ok ⟨none, String.ofList authority, ""⟩
      else .error .invalidFormat

def parse (text : String) : Except UriFault Uri :=
  if maxLength < text.utf8ByteSize then .error .tooLong
  else match text.toList with
    | [] => .error .empty
    | ['*'] => .ok ⟨none, "", "*"⟩
    | '/' :: cs => (readPath ('/' :: cs)).map fun path => ⟨none, "", path⟩
    | cs => readFull cs

def target (u : Uri) : String := if u.path.isEmpty then "/" else u.path

def host (u : Uri) : String :=
  String.ofList (u.authority.toList.reverse.takeWhile (· ≠ '@')).reverse

def knownSchemes : List String := ["http", "https"]

def check (u : Uri) : Except Error Unit :=
  match u.scheme with
  | none => .error (.badUri (u.path ++ " is missing scheme"))
  | some s =>
    if knownSchemes.contains s.toLower then .ok () else .error (.badUri ("unknown scheme: " ++ s))

/-- Takes single and double dots out of a path; `above` holds the names before, innermost first. -/
def dropDots (above : List String) : List String → List String
  | [] => above.reverse
  | ["."] => ("" :: above).reverse
  | [".."] => ("" :: above.drop 1).reverse
  | "." :: rest => dropDots above rest
  | ".." :: rest => dropDots (above.drop 1) rest
  | s :: rest => dropDots (s :: above) rest

def tidy (cs : List Char) : List Char :=
  let path := cs.takeWhile fun c => c ≠ '?' ∧ c ≠ '#'
  let rest := cs.dropWhile fun c => c ≠ '?' ∧ c ≠ '#'
  match path with
  | '/' :: names =>
    '/' :: ("/".intercalate (dropDots [] ((String.ofList names).splitToList (· == '/')))).toList
      ++ rest
  | _ => cs

def resolve (u : Uri) (reference : String) : Except UriFault Uri :=
  let cs := reference.toList
  let scheme := (u.scheme.getD "").toList
  let base := u.target.toList.takeWhile (· ≠ '?')
  let root := scheme ++ ':' :: '/' :: '/' :: u.authority.toList
  if (splitScheme? cs).isSome then parse reference
  else
    parse <| String.ofList <|
      match cs with
      | '/' :: '/' :: _ => scheme ++ ':' :: cs
      | '/' :: _ => root ++ tidy cs
      | '?' :: _ => root ++ base ++ cs
      | [] | '#' :: _ => root ++ u.target.toList
      | _ => root ++ tidy ((base.reverse.dropWhile (· ≠ '/')).reverse ++ cs)

end Uri

end EventPost.Http
