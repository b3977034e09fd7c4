import EventPost.Http.Error
import EventPost.Numeral.Decimal
import EventPost.Text.Utf8

/-!
The head of a response: the status line and the headers, up to an empty line. A line ends with a
line feed, which a carriage return may precede. What is wrong is found out as soon as it is read,
so a head that breaks off may be broken or only short.
-/

namespace EventPost.Http

open Text (Bytes)

inductive HeadFault
  | newLine
  | version
  | status
  | headerName
  | headerValue
  | tooManyHeaders
  | statusRange
  deriving DecidableEq, Repr

def HeadFault.message : HeadFault → String
  | .newLine => "http parse fail: invalid new line"
  | .version => "http parse fail: invalid HTTP version"
  | .status => "http parse fail: invalid response status"
  | .headerName => "http parse fail: invalid header name"
  | .headerValue => "http parse fail: invalid header value"
  | .tooManyHeaders => "http parse resulted in too many headers"
  | .statusRange => "http response invalid status"

structure Head where
  /-- Version 1.0 of the protocol. -/
  old : Bool
  status : Nat
  /-- Names in small letters. -/
  headers : List (String × Bytes)
  deriving DecidableEq, Repr

inductive Step (α : Type)
  | done (value : α) (rest : Bytes)
  /-- The bytes end within the part. -/
  | short
  | broken (why : HeadFault)

namespace Step

def andThen {α β : Type} (s : Step α) (next : α → Bytes → Step β) : Step β :=
  match s with
  | done v rest => next v rest
  | short => short
  | broken why => broken why

end Step

namespace Head

def expect (p : UInt8 → Bool) (why : HeadFault) : Bytes → Step UInt8
  | [] => .short
  | b :: rest => if p b then .done b rest else .broken why

def endLine (why : HeadFault) : Bytes → Step Unit
  | [] => .short
  | [0x0d] => .short
  | 0x0d :: 0x0a :: rest => .done () rest
  | 0x0a :: rest => .done () rest
  | _ => .broken why

def skipEmptyLines : Bytes → Step Unit
  | 0x0d :: 0x0a :: rest => skipEmptyLines rest
  | 0x0a :: rest => skipEmptyLines rest
  | [0x0d] => .short
  | 0x0d :: _ => .broken .newLine
  | [] => .short
  | bs => .done () bs

def versionStem : Bytes := Text.bytesOf "HTTP/1."

def readVersion (bs : Bytes) : Step Bool :=
  if bs.length < 8 then
    if bs.isPrefixOf versionStem then .short else .broken .version
  else if bs.take 8 = versionStem ++ [0x30] then .done true (bs.drop 8)
  else if bs.take 8 = versionStem ++ [0x31] then .done false (bs.drop 8)
  else .broken .version

def isDigit (b : UInt8) : Bool := 0x30 ≤ b && b ≤ 0x39

def readDigit (bs : Bytes) : Step Nat :=
  (expect isDigit .status bs).andThen fun b rest => .done (b.toNat - 0x30) rest

def readCode (bs : Bytes) : Step Nat :=
  (readDigit bs).andThen fun a bs =>
    (readDigit bs).andThen fun b bs =>
      (readDigit bs).andThen fun c bs => .done (100 * a + 10 * b + c) bs

def isReason (b : UInt8) : Bool := b == 0x09 || (0x20 ≤ b && b != 0x7f)

def skipReason (bs : Bytes) : Step Unit :=
  match bs with
  | 0x20 :: rest => endLine .status (rest.dropWhile isReason)
  | bs => endLine .status bs

def readStatusLine (bs : Bytes) : Step (Bool × Nat) :=
  (skipEmptyLines bs).andThen fun _ bs =>
    (readVersion bs).andThen fun old bs =>
      (expect (· == 0x20) .version bs).andThen fun _ bs =>
        (readCode bs).andThen fun code bs =>
          (skipReason bs).andThen fun _ bs => .done (old, code) bs

def isNameByte (b : UInt8) : Bool :=
  isDigit b || (0x41 ≤ b && b ≤ 0x5a) || (0x61 ≤ b && b ≤ 0x7a)
    || (Text.bytesOf "!#$%&'*+-.^_\x60|~").contains b

def isValueByte (b : UInt8) : Bool := b == 0x09 || (0x20 ≤ b && b != 0x7f)

def isGap (b : UInt8) : Bool := b == 0x20 || b == 0x09

def readHeader (bs : Bytes) : Step (String × Bytes) :=
  let name := bs.takeWhile isNameByte
  let rest := bs.dropWhile isNameByte
  (expect (fun b => b == 0x3a && !name.isEmpty) .headerName rest).andThen fun _ bs =>
    let bs := bs.dropWhile isGap
    let value := ((bs.takeWhile isValueByte).reverse.dropWhile isGap).reverse
    (endLine .headerValue (bs.dropWhile isValueByte)).andThen fun _ bs =>
      .done ((Text.decodeLossy name).toLower, value) bs

/-- The headers, and what follows the empty line behind them if that has come. No more than `limit`
headers may come. -/
def readHeaders : (limit : Nat) → List (String × Bytes) → Bytes →
    Except HeadFault (List (String × Bytes) × Option Bytes)
  | limit, seen, bs =>
    match bs with
    | [] => .ok (seen.reverse, none)
    | b :: _ =>
      if b = 0x0d ∨ b = 0x0a then
        match endLine .newLine bs with
        | .done _ rest => .ok (seen.reverse, some rest)
        | .short => .ok (seen.reverse, none)
        | .broken why => .error why
      else
        match limit with
        | 0 => .error .tooManyHeaders
        | limit + 1 =>
          match readHeader bs with
          | .done h rest => readHeaders limit (h :: seen) rest
          | .short => .ok (seen.reverse, none)
          | .broken why => .error why

def maxHeaders : Nat := 128

/-- The head as far as it has come, if the status line has, and what follows the whole of it. -/
def read (bs : Bytes) : Except HeadFault (Option (Head × Option Bytes)) :=
  match readStatusLine bs with
  | .short => .ok none
  | .broken why => .error why
  | .done (old, status) rest =>
    match readHeaders maxHeaders [] rest with
    | .error why => .error why
    | .ok (headers, rest) =>
      if rest.isSome ∧ status < 100 then .error .statusRange
      else .ok (some (⟨old, status, headers⟩, rest))

def isVisibleByte (b : UInt8) : Bool := b == 0x09 || (0x20 ≤ b && b ≤ 0x7e)

def textOf? (value : Bytes) : Option String :=
  if value.all isVisibleByte then some (String.ofList (value.map fun b => Char.ofNat b.toNat))
  else none

def header? (h : Head) (name : String) : Option String := (h.headers.lookup name).bind textOf?

def lastHeader? (h : Head) (name : String) : Option Bytes := h.headers.reverse.lookup name

def redirects (h : Head) : Bool := 300 ≤ h.status && h.status ≤ 399 && h.status != 304

end Head

end EventPost.Http
