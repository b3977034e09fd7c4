import EventPost.Text.Utf8
import EventPost.Yaml.Source

/-!
Names in a YAML text: anchors, aliases, tags, and the directives that give tags their short forms. A
tag is kept as bytes, since its escapes may spell any.
-/

namespace EventPost.Yaml

open Text (Bytes)

inductive NameKind
  | anchor
  | alias
  deriving DecidableEq, Repr

def NameKind.context : NameKind → String
  | .anchor => "while scanning an anchor"
  | .alias => "while scanning an alias"

def scanName (kind : NameKind) (s : Source) : Except Problem (String × Source) :=
  let (name, after) := (s.skip 1).span isWord
  let ended := after.blankAt 0 || after.testAt 0 fun c =>
    ['?', ':', ',', ']', '\x7d', '%', '@', '\x60'].contains c
  if name.isEmpty || !ended then
    .error (after.problem kind.context s.mark
      "did not find expected alphabetic or numeric character")
  else .ok (String.ofList name, after)

/-- Where a tag is read: in its own place, or as part of a directive. -/
inductive TagPlace
  | node
  | directive
  deriving DecidableEq, Repr

def TagPlace.handleContext : TagPlace → String
  | .node => "while scanning a tag"
  | .directive => "while scanning a tag directive"

def TagPlace.uriContext : TagPlace → String
  | .node => "while parsing a tag"
  | .directive => "while parsing a %TAG directive"

def scanHandle (place : TagPlace) (start : Mark) (s : Source) :
    Except Problem (List Char × Source) :=
  if !s.startsWith '!' then
    .error (s.problem place.handleContext start "did not find expected '!'")
  else
    let (word, after) := (s.skip 1).span isWord
    if after.startsWith '!' then .ok ('!' :: word ++ ['!'], after.skip 1)
    else if place = .directive ∧ !word.isEmpty then
      .error (after.problem "while parsing a tag directive" start "did not find expected '!'")
    else .ok ('!' :: word, after)

def isUriChar (verbatim : Bool) (c : Char) : Bool :=
  isWord c || ";/?:@&=+$.%!~*'()".toList.contains c || (verbatim && ",[]".toList.contains c)

def leadWidth (b : Nat) : Nat :=
  if b < 0x80 then 1 else if 0xc0 ≤ b ∧ b < 0xe0 then 2 else if 0xe0 ≤ b ∧ b < 0xf0 then 3
  else if 0xf0 ≤ b ∧ b < 0xf8 then 4 else 0

def scanOctet (place : TagPlace) (start : Mark) (s : Source) : Except Problem (Nat × Source) :=
  match s.rest with
  | '%' :: a :: b :: _ =>
    if isHex a && isHex b then .ok (hexPair a b, s.skip 3)
    else .error (s.problem place.uriContext start "did not find URI escaped octet")
  | _ => .error (s.problem place.uriContext start "did not find URI escaped octet")
where
  hexPair (a b : Char) : Nat :=
    (Numeral.digitValue? 16 a).getD 0 * 16 + (Numeral.digitValue? 16 b).getD 0

def scanTrailing (place : TagPlace) (start : Mark) : (count : Nat) → Bytes → Source →
    Except Problem (Bytes × Source)
  | 0, acc, s => .ok (acc, s)
  | count + 1, acc, s =>
    match scanOctet place start s with
    | .error e => .error e
    | .ok (b, after) =>
      if 0x80 ≤ b ∧ b < 0xc0 then scanTrailing place start count (acc ++ [b.toUInt8]) after
      else .error (s.problem place.uriContext start "found an incorrect trailing UTF-8 octet")

def scanEscapedChar (place : TagPlace) (start : Mark) (s : Source) :
    Except Problem (Bytes × Source) :=
  match scanOctet place start s with
  | .error e => .error e
  | .ok (b, after) =>
    match leadWidth b with
    | 0 => .error (s.problem place.uriContext start "found an incorrect leading UTF-8 octet")
    | n + 1 => scanTrailing place start n [b.toUInt8] after

def uriFrom (verbatim : Bool) (place : TagPlace) (start : Mark) : (fuel : Nat) → Bytes → Source →
    Except Problem (Bytes × Source)
  | 0, acc, s => .ok (acc, s)
  | fuel + 1, acc, s =>
    match s.rest with
    | [] => .ok (acc, s)
    | c :: _ =>
      if c == '%' then
        match scanEscapedChar place start s with
        | .error e => .error e
        | .ok (bs, s) => uriFrom verbatim place start fuel (acc ++ bs) s
      else if isUriChar verbatim c then
        uriFrom verbatim place start fuel (acc ++ String.utf8EncodeChar c) (s.skip 1)
      else .ok (acc, s)

def scanUri (verbatim : Bool) (place : TagPlace) (head : List Char) (start : Mark) (s : Source) :
    Except Problem (Bytes × Source) :=
  match uriFrom verbatim place start s.rest.length (Text.encode (head.drop 1)) s with
  | .error e => .error e
  | .ok (uri, after) =>
    if head.isEmpty && after.mark.index == s.mark.index then
      .error (after.problem place.uriContext start "did not find expected tag URI")
    else .ok (uri, after)

/-- A short form and what follows it. With no short form, the tag is written out. -/
structure TagName where
  handle : List Char
  suffix : Bytes
  deriving DecidableEq, Repr

def scanTagName (s : Source) : Except Problem (TagName × Source) :=
  let start := s.mark
  if s.peek? 1 == some '<' then
    match scanUri true .node [] start (s.skip 2) with
    | .error e => .error e
    | .ok (uri, s) =>
      if s.startsWith '>' then .ok (⟨[], uri⟩, s.skip 1)
      else .error (s.problem "while scanning a tag" start "did not find the expected '>'")
  else
    match scanHandle .node start s with
    | .error e => .error e
    | .ok (handle, s) =>
      if 1 < handle.length && handle.getLast? == some '!' then
        match scanUri false .node [] start s with
        | .error e => .error e
        | .ok (uri, s) => .ok (⟨handle, uri⟩, s)
      else
        match scanUri false .node handle start s with
        | .error e => .error e
        | .ok (uri, s) =>
          if uri.isEmpty then .ok (⟨[], Text.encode ['!']⟩, s) else .ok (⟨['!'], uri⟩, s)

def scanTag (flow : Bool) (s : Source) : Except Problem (TagName × Source) :=
  match scanTagName s with
  | .error e => .error e
  | .ok (tag, after) =>
    if after.blankAt 0 || (flow && after.startsWith ',') then .ok (tag, after)
    else .error (after.problem "while scanning a tag" s.mark
      "did not find expected whitespace or line break")

inductive Directive
  | version (major minor : Nat)
  | tag (handle : List Char) (stem : Bytes)
  deriving DecidableEq, Repr

def scanVersionNumber (start : Mark) (s : Source) : Except Problem (Nat × Source) :=
  let context := "while scanning a %YAML directive"
  let (digits, after) := s.span Char.isDigit
  if digits.isEmpty then .error (s.problem context start "did not find expected version number")
  else if 9 < digits.length then
    .error ((s.skip 9).problem context start "found extremely long version number")
  else .ok (digits.foldl (fun n c => n * 10 + (c.toNat - '0'.toNat)) 0, after)

def scanVersion (start : Mark) (s : Source) : Except Problem (Directive × Source) := do
  let (major, s) ← scanVersionNumber start s.skipGaps
  if !s.startsWith '.' then
    throw (s.problem "while scanning a %YAML directive" start
      "did not find expected digit or '.' character")
  let (minor, s) ← scanVersionNumber start (s.skip 1)
  return (.version major minor, s)

def scanTagDirective (start : Mark) (s : Source) : Except Problem (Directive × Source) := do
  let context := "while scanning a %TAG directive"
  let (handle, s) ← scanHandle .directive start s.skipGaps
  if !s.gapHere then throw (s.problem context start "did not find expected whitespace")
  let (stem, s) ← scanUri true .directive [] start s.skipGaps
  if !s.blankAt 0 then
    throw (s.problem context start "did not find expected whitespace or line break")
  return (.tag handle stem, s)

def scanDirective (s : Source) : Except Problem (Directive × Mark × Source) := do
  let start := s.mark
  let context := "while scanning a directive"
  let (name, s) := (s.skip 1).span isWord
  if name.isEmpty then throw (s.problem context start "could not find expected directive name")
  if !s.blankAt 0 then
    throw (s.problem context start "found unexpected non-alphabetical character")
  let (directive, s) ←
    if name = "YAML".toList then scanVersion start s
    else if name = "TAG".toList then scanTagDirective start s
    else throw (s.problem context start "found unknown directive name")
  let stop := s.mark
  let s := s.skipGaps.skipComment
  if !s.lineEnds then
    throw (s.problem context start "did not find expected comment or line break")
  return (directive, stop, s.skipLine)

end EventPost.Yaml
