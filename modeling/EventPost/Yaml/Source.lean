import EventPost.Numeral.Decimal

/-!
A YAML text with a mark of how far it has been read. The text must hold printable characters, tabs
and line breaks only.
-/

namespace EventPost.Yaml

open Numeral (decimalText)

/-- Lines and columns count from zero, as does the number of characters read. -/
structure Mark where
  index : Nat
  line : Nat
  column : Nat
  deriving DecidableEq, Repr

namespace Mark

def start : Mark := ⟨0, 0, 0⟩

def isStart (m : Mark) : Bool := m.line == 0 && m.column == 0

def text (m : Mark) : String :=
  "line " ++ decimalText (m.line + 1) ++ " column " ++ decimalText (m.column + 1)

def forward (m : Mark) (n : Nat) : Mark := ⟨m.index + n, m.line, m.column + n⟩

def newLine (m : Mark) (n : Nat) : Mark := ⟨m.index + n, m.line + 1, 0⟩

end Mark

/-- Why a text is not YAML, and where. The context is what was being read, and where it began. -/
structure Problem where
  text : String
  mark : Mark
  context : Option (String × Mark)
  offset : Nat
  deriving DecidableEq, Repr

def Problem.message (p : Problem) : String :=
  let place :=
    if !p.mark.isStart then " at " ++ p.mark.text
    else if p.offset ≠ 0 then " at position " ++ decimalText p.offset
    else ""
  let context := match p.context with
    | none => ""
    | some (s, m) =>
      ", " ++ s ++
        if !m.isStart && (m.line != p.mark.line || m.column != p.mark.column) then " at " ++ m.text
        else ""
  p.text ++ place ++ context

def isBreak (c : Char) : Bool :=
  c == '\n' || c == '\r' || c == '\x85' || c == '\u2028' || c == '\u2029'

def isGap (c : Char) : Bool := c == ' ' || c == '\t'

def isWord (c : Char) : Bool := c.isAlphanum || c == '_' || c == '-'

def isHex (c : Char) : Bool := (Numeral.digitValue? 16 c).isSome

def isAllowed (c : Char) : Bool :=
  let n := c.toNat
  n == 0x09 || n == 0x0a || n == 0x0d || (0x20 ≤ n && n ≤ 0x7e) || n == 0x85
    || (0xa0 ≤ n && n ≤ 0xd7ff) || (0xe000 ≤ n && n ≤ 0xfffd) || 0x10000 ≤ n

def firstForbidden? (bytes : Nat) : List Char → Option Nat
  | [] => none
  | c :: cs => if isAllowed c then firstForbidden? (bytes + c.utf8Size) cs else some bytes

structure Source where
  rest : List Char
  mark : Mark

namespace Source

def ofText (cs : List Char) : Source := ⟨cs, .start⟩

def peek? (s : Source) (k : Nat) : Option Char := s.rest[k]?

def startsWith (s : Source) (c : Char) : Bool := s.rest.head? == some c

def atEnd (s : Source) : Bool := s.rest.isEmpty

def testAt (s : Source) (k : Nat) (p : Char → Bool) : Bool := (s.peek? k).any p

def blankAt (s : Source) (k : Nat) : Bool :=
  match s.peek? k with
  | none => true
  | some c => isGap c || isBreak c

def breakAt (s : Source) (k : Nat) : Bool := s.testAt k isBreak

def lineEnds (s : Source) : Bool := s.atEnd || s.breakAt 0

def gapHere (s : Source) : Bool := s.testAt 0 isGap

def skip (s : Source) (n : Nat) : Source := ⟨s.rest.drop n, s.mark.forward n⟩

def skipLine (s : Source) : Source :=
  match s.rest with
  | '\r' :: '\n' :: r => ⟨r, s.mark.newLine 2⟩
  | c :: r => if isBreak c then ⟨r, s.mark.newLine 1⟩ else s
  | [] => s

def breakText (s : Source) : List Char :=
  match s.rest with
  | c :: _ => if c == '\u2028' || c == '\u2029' then [c] else if isBreak c then ['\n'] else []
  | [] => []

def span (p : Char → Bool) (s : Source) : List Char × Source :=
  let run := s.rest.takeWhile p
  (run, s.skip run.length)

def skipGaps (s : Source) : Source := (s.span isGap).2

def skipComment (s : Source) : Source :=
  if s.startsWith '#' then (s.span fun c => !isBreak c).2 else s

/-- Three signs and a blank at the start of a line mark the start or the end of a document. -/
def markerAt (s : Source) (c : Char) : Bool :=
  s.mark.column == 0 && s.rest.take 3 == [c, c, c] && s.blankAt 3

def documentMarker (s : Source) : Bool := s.markerAt '-' || s.markerAt '.'

def problem (s : Source) (context : String) (start : Mark) (text : String) : Problem :=
  ⟨text, s.mark, some (context, start), 0⟩

def bareProblem (s : Source) (text : String) : Problem := ⟨text, s.mark, none, 0⟩

end Source

end EventPost.Yaml
