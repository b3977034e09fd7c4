import EventPost.Yaml.BlockScalar
import EventPost.Yaml.Tag

/-!
A YAML text as tokens. Indentation opens and closes blocks, and a key may turn out to be one only
when the colon behind it is read; its token is then put in where it began. So tokens wait in a
queue while the first of them could still become a key. `tokens` gives those that can be taken
before the text breaks the rules, and the problem if it does.
-/

namespace EventPost.Yaml

inductive ScalarStyle
  | plain
  | singleQuoted
  | doubleQuoted
  | literal
  | folded
  deriving DecidableEq, Repr

inductive TokenKind
  | streamStart
  | streamEnd
  | directive (d : Directive)
  | documentStart
  | documentEnd
  | blockSequenceStart
  | blockMappingStart
  | blockEnd
  | flowSequenceStart
  | flowSequenceEnd
  | flowMappingStart
  | flowMappingEnd
  | blockEntry
  | flowEntry
  | key
  | value
  | alias (name : String)
  | anchor (name : String)
  | tag (t : TagName)
  | scalar (text : List Char) (style : ScalarStyle)
  deriving DecidableEq, Repr

structure Token where
  kind : TokenKind
  start : Mark
  stop : Mark
  deriving DecidableEq, Repr

/-- A place where a key could begin: the number of the token there, and whether the text is broken
if none does. -/
structure KeyPlace where
  number : Nat
  mark : Mark
  required : Bool
  deriving DecidableEq, Repr

structure Scanner where
  source : Source
  queue : List Token
  taken : Nat
  started : Bool
  /-- The column of the innermost block, and those of the blocks around it. -/
  indent : Int
  indents : List Int
  keyAllowed : Bool
  /-- The place of a possible key outside all brackets, and within each open pair, innermost
  first. -/
  places : List (Option KeyPlace)

namespace Scanner

def ofText (cs : List Char) : Scanner :=
  ⟨.ofText cs, [], 0, false, -1, [], true, [none]⟩

def mark (s : Scanner) : Mark := s.source.mark

def flow (s : Scanner) : Bool := 1 < s.places.length

def enqueue (s : Scanner) (kind : TokenKind) (start : Mark) : Scanner :=
  { s with queue := s.queue ++ [⟨kind, start, s.mark⟩] }

def advance (s : Scanner) (n : Nat) : Scanner := { s with source := s.source.skip n }

def insertAt (s : Scanner) (n : Nat) (t : Token) : Scanner :=
  let k := n - s.taken
  { s with queue := s.queue.take k ++ t :: s.queue.drop k }

def missingColon (s : Scanner) (p : KeyPlace) : Problem :=
  s.source.problem "while scanning a simple key" p.mark "could not find expected ':'"

/-- A key lies on one line and is at most 1024 characters long. -/
def KeyPlace.isStale (p : KeyPlace) (m : Mark) : Bool :=
  p.mark.line < m.line || p.mark.index + 1024 < m.index

def dropStaleIn (s : Scanner) : List (Option KeyPlace) → Except Problem (List (Option KeyPlace))
  | [] => .ok []
  | none :: ps => (dropStaleIn s ps).map (none :: ·)
  | some p :: ps =>
    match dropStaleIn s ps with
    | .error e => .error e
    | .ok rest =>
      if KeyPlace.isStale p s.mark then
        if p.required then .error (s.missingColon p) else .ok (none :: rest)
      else .ok (some p :: rest)

def dropStale (s : Scanner) : Except Problem Scanner :=
  (dropStaleIn s s.places).map fun ps => { s with places := ps }

def place? (s : Scanner) : Option KeyPlace := s.places.head?.join

def setPlace (s : Scanner) (p : Option KeyPlace) : Scanner :=
  { s with places := p :: s.places.drop 1 }

def dropPlace (s : Scanner) : Except Problem Scanner :=
  match s.place? with
  | some p => if p.required then .error (s.missingColon p) else .ok (s.setPlace none)
  | none => .ok (s.setPlace none)

def notePlace (s : Scanner) : Except Problem Scanner :=
  if s.keyAllowed then
    let p : KeyPlace :=
      ⟨s.taken + s.queue.length, s.mark, !s.flow && s.indent == (s.mark.column : Int)⟩
    s.dropPlace.map fun s => s.setPlace (some p)
  else .ok s

/-- Opens a block at a column to the right of the innermost one, with its token at the end of the
queue or before the token of a given number. -/
def openBlock (s : Scanner) (column : Nat) (number : Option Nat) (kind : TokenKind) (m : Mark) :
    Scanner :=
  if !s.flow && s.indent < column then
    let t : Token := ⟨kind, m, m⟩
    let s := { s with indents := s.indent :: s.indents, indent := column }
    match number with
    | none => { s with queue := s.queue ++ [t] }
    | some n => s.insertAt n t
  else s

def closeBlocks (column : Int) : List Int → Scanner → Scanner
  | [], s => s
  | outer :: rest, s =>
    if column < s.indent then
      closeBlocks column rest { (s.enqueue .blockEnd s.mark) with indent := outer, indents := rest }
    else s

def closeTo (s : Scanner) (column : Int) : Scanner :=
  if s.flow then s else closeBlocks column s.indents s

def skipBlank : (fuel : Nat) → Scanner → Scanner
  | 0, s => s
  | fuel + 1, s =>
    let source := if s.mark.column == 0 && s.source.startsWith '\uFEFF' then s.source.skip 1
      else s.source
    let tabs := s.flow || !s.keyAllowed
    let source := (source.span fun c => c == ' ' || (tabs && c == '\t')).2.skipComment
    if source.breakAt 0 then
      skipBlank fuel
        { s with source := source.skipLine, keyAllowed := s.keyAllowed || !s.flow }
    else { s with source := source }

def fetchEnd (s : Scanner) : Except Problem Scanner :=
  let m := s.mark
  let m := if m.column == 0 then m else ⟨m.index, m.line + 1, 0⟩
  let s := { s with source := ⟨s.source.rest, m⟩ }
  (s.closeTo (-1)).dropPlace.map fun s =>
    { (s.enqueue .streamEnd s.mark) with keyAllowed := false }

def fetchDirective (s : Scanner) : Except Problem Scanner := do
  let s ← (s.closeTo (-1)).dropPlace
  let (d, stop, source) ← scanDirective s.source
  return { s with
    keyAllowed := false
    queue := s.queue ++ [⟨.directive d, s.mark, stop⟩]
    source := source }

def fetchMarker (s : Scanner) (kind : TokenKind) : Except Problem Scanner := do
  let s ← (s.closeTo (-1)).dropPlace
  return { ((s.advance 3).enqueue kind s.mark) with keyAllowed := false }

def fetchFlowStart (s : Scanner) (kind : TokenKind) : Except Problem Scanner := do
  let s ← s.notePlace
  return { ((s.advance 1).enqueue kind s.mark) with places := none :: s.places, keyAllowed := true }

def fetchFlowEnd (s : Scanner) (kind : TokenKind) : Except Problem Scanner := do
  let s ← s.dropPlace
  let places := if s.flow then s.places.drop 1 else s.places
  return { ((s.advance 1).enqueue kind s.mark) with places := places, keyAllowed := false }

def fetchFlowEntry (s : Scanner) : Except Problem Scanner := do
  let s ← s.dropPlace
  return { ((s.advance 1).enqueue .flowEntry s.mark) with keyAllowed := true }

def fetchBlockEntry (s : Scanner) : Except Problem Scanner := do
  if !s.flow && !s.keyAllowed then
    throw (s.source.bareProblem "block sequence entries are not allowed in this context")
  let s ← (s.openBlock s.mark.column none .blockSequenceStart s.mark).dropPlace
  return { ((s.advance 1).enqueue .blockEntry s.mark) with keyAllowed := true }

def fetchKey (s : Scanner) : Except Problem Scanner := do
  if !s.flow && !s.keyAllowed then
    throw (s.source.bareProblem "mapping keys are not allowed in this context")
  let s ← (s.openBlock s.mark.column none .blockMappingStart s.mark).dropPlace
  return { ((s.advance 1).enqueue .key s.mark) with keyAllowed := !s.flow }

def fetchValue (s : Scanner) : Except Problem Scanner := do
  match s.place? with
  | some p =>
    let s := s.insertAt p.number ⟨.key, p.mark, p.mark⟩
    let s := s.openBlock p.mark.column (some p.number) .blockMappingStart p.mark
    let s := s.setPlace none
    return { ((s.advance 1).enqueue .value s.mark) with keyAllowed := false }
  | none =>
    if !s.flow && !s.keyAllowed then
      throw (s.source.bareProblem "mapping values are not allowed in this context")
    let s := s.openBlock s.mark.column none .blockMappingStart s.mark
    return { ((s.advance 1).enqueue .value s.mark) with keyAllowed := !s.flow }

def fetchName (s : Scanner) (kind : NameKind) : Except Problem Scanner := do
  let s ← s.notePlace
  let (name, source) ← scanName kind s.source
  let token := match kind with
    | .anchor => TokenKind.anchor name
    | .alias => TokenKind.alias name
  return { ({ s with source := source }.enqueue token s.mark) with keyAllowed := false }

def fetchTag (s : Scanner) : Except Problem Scanner := do
  let s ← s.notePlace
  let (t, source) ← scanTag s.flow s.source
  return { ({ s with source := source }.enqueue (.tag t) s.mark) with keyAllowed := false }

def addScalar (s : Scanner) (style : ScalarStyle) (x : Scanned) (keyAllowed : Bool) : Scanner :=
  { s with
    queue := s.queue ++ [⟨.scalar x.text style, s.mark, x.stop⟩]
    source := x.source
    keyAllowed := keyAllowed }

def fetchBlockScalar (s : Scanner) (literal : Bool) : Except Problem Scanner := do
  let s ← s.dropPlace
  let x ← scanBlock literal s.indent s.source
  return s.addScalar (if literal then .literal else .folded) x true

def fetchQuoted (s : Scanner) (single : Bool) : Except Problem Scanner := do
  let s ← s.notePlace
  let x ← scanQuoted single s.source
  return s.addScalar (if single then .singleQuoted else .doubleQuoted) x false

def fetchPlain (s : Scanner) : Except Problem Scanner := do
  let s ← s.notePlace
  let x ← scanPlain s.flow s.indent s.source
  return s.addScalar .plain x x.broken

def isIndicator (c : Char) : Bool := "-?:,[]\x7b\x7d#&*!|>'\"%@`".toList.contains c

def startsPlain (s : Scanner) (c : Char) : Bool :=
  (!isIndicator c && !s.source.blankAt 0)
    || (c == '-' && !s.source.testAt 1 isGap)
    || (!s.flow && (c == '?' || c == ':') && !s.source.blankAt 1)

def fetchNext (s : Scanner) : Except Problem Scanner :=
  if !s.started then .ok { (s.enqueue .streamStart s.mark) with started := true }
  else
    match (skipBlank (s.source.rest.length + 1) s).dropStale with
    | .error e => .error e
    | .ok s =>
      let s := s.closeTo s.mark.column
      match s.source.rest with
      | [] => s.fetchEnd
      | c :: _ =>
        if s.mark.column == 0 && c == '%' then s.fetchDirective
        else if s.source.markerAt '-' then s.fetchMarker .documentStart
        else if s.source.markerAt '.' then s.fetchMarker .documentEnd
        else if c == '[' then s.fetchFlowStart .flowSequenceStart
        else if c == '\x7b' then s.fetchFlowStart .flowMappingStart
        else if c == ']' then s.fetchFlowEnd .flowSequenceEnd
        else if c == '\x7d' then s.fetchFlowEnd .flowMappingEnd
        else if c == ',' then s.fetchFlowEntry
        else if c == '-' && s.source.blankAt 1 then s.fetchBlockEntry
        else if c == '?' && (s.flow || s.source.blankAt 1) then s.fetchKey
        else if c == ':' && (s.flow || s.source.blankAt 1) then s.fetchValue
        else if c == '*' then s.fetchName .alias
        else if c == '&' then s.fetchName .anchor
        else if c == '!' then s.fetchTag
        else if c == '|' && !s.flow then s.fetchBlockScalar true
        else if c == '>' && !s.flow then s.fetchBlockScalar false
        else if c == '\'' then s.fetchQuoted true
        else if c == '"' then s.fetchQuoted false
        else if s.startsPlain c then s.fetchPlain
        else .error (s.source.problem "while scanning for the next token" s.mark
          "found character that cannot start any token")

def fill : (fuel : Nat) → Scanner → Except Problem Scanner
  | 0, s => .ok s
  | fuel + 1, s =>
    if s.queue.isEmpty then
      match s.fetchNext with
      | .error e => .error e
      | .ok s => fill fuel s
    else
      match s.dropStale with
      | .error e => .error e
      | .ok s =>
        if s.places.any fun p => p.any (·.number == s.taken) then
          match s.fetchNext with
          | .error e => .error e
          | .ok s => fill fuel s
        else .ok s

def run : (fuel : Nat) → Scanner → List Token × Option Problem
  | 0, _ => ([], none)
  | fuel + 1, s =>
    match fill (s.source.rest.length + 3) s with
    | .error e => ([], some e)
    | .ok s =>
      match s.queue with
      | [] => ([], none)
      | t :: queue =>
        if t.kind = .streamEnd then ([t], none)
        else
          let (ts, problem) := run fuel { s with queue := queue, taken := s.taken + 1 }
          (t :: ts, problem)

end Scanner

def tokens (cs : List Char) : List Token × Option Problem :=
  match firstForbidden? 0 cs with
  | some k => ([], some ⟨"control characters are not allowed", .start, none, k⟩)
  | none => (Scanner.ofText cs).run (4 * cs.length + 8)

end EventPost.Yaml
