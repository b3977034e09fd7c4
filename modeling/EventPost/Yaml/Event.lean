import EventPost.Yaml.Token

/-!
The structure of a YAML text, as events: documents, sequences and mappings begin and end, with
scalars and aliases between. A node that is left out is an empty plain scalar. `events` gives
those that come before the text breaks the rules, each with the mark at which it begins, and the
problem if it does.
-/

namespace EventPost.Yaml

open Text (Bytes)

structure Scalar where
  anchor : Option String
  tag : Option Bytes
  text : List Char
  style : ScalarStyle
  deriving DecidableEq, Repr

inductive EventKind
  | streamStart
  | streamEnd
  | documentStart
  | documentEnd
  | alias (name : String)
  | scalar (s : Scalar)
  | sequenceStart (anchor : Option String) (tag : Option Bytes)
  | sequenceEnd
  | mappingStart (anchor : Option String) (tag : Option Bytes)
  | mappingEnd
  deriving DecidableEq, Repr

inductive State
  | streamStart
  | implicitDocument
  | document
  | documentContent
  | documentEnd
  | blockNode
  | blockEntry (first : Bool)
  | indentlessEntry
  | blockKey (first : Bool)
  | blockValue
  | flowEntry (first : Bool)
  | flowPairKey
  | flowPairValue
  | flowPairEnd
  | flowKey (first : Bool)
  | flowValue (alone : Bool)
  | ended
  deriving DecidableEq, Repr

structure Grammar where
  tokens : List Token
  /-- What stops the tokens, if not the end of the text. -/
  problem : Option Problem
  state : State
  /-- The states to go back to, innermost first. -/
  pending : List State
  /-- Where the open collections began, innermost first. -/
  opened : List Mark
  handles : List (List Char × Bytes)

namespace Grammar

abbrev Step := Except Problem (EventKind × Mark × Grammar)

def unexpectedEnd : Problem := ⟨"unexpected end of stream", .start, none, 0⟩

def peek (g : Grammar) : Except Problem Token :=
  match g.tokens with
  | t :: _ => .ok t
  | [] => .error (g.problem.getD unexpectedEnd)

def drop (g : Grammar) : Grammar := { g with tokens := g.tokens.drop 1 }

def goTo (g : Grammar) (s : State) : Grammar := { g with state := s }

def push (g : Grammar) (s : State) : Grammar := { g with pending := s :: g.pending }

def back (g : Grammar) : Grammar :=
  { g with state := g.pending.headD .ended, pending := g.pending.drop 1 }

def opening (g : Grammar) (m : Mark) : Grammar := { g with opened := m :: g.opened }

def closing (g : Grammar) : Grammar := { g with opened := g.opened.drop 1 }

def empty (g : Grammar) (m : Mark) : Step := .ok (.scalar ⟨none, none, [], .plain⟩, m, g)

def bareProblem (t : Token) (text : String) : Problem := ⟨text, t.start, none, 0⟩

def inside (g : Grammar) (t : Token) (context text : String) : Problem :=
  ⟨text, t.start, some (context, g.opened.headD .start), 0⟩

def standardHandles : List (List Char × Bytes) := [
  (['!'], Text.encode ['!']),
  (['!', '!'], Text.encode "tag:yaml.org,2002:".toList)]

/-- Reads the directives before a document; `seen` says whether the version has been given. -/
def readDirectives : (fuel : Nat) → (seen : Bool) → Grammar → Except Problem Grammar
  | 0, _, g => .ok g
  | fuel + 1, seen, g =>
    match g.peek with
    | .error e => .error e
    | .ok t =>
      match t.kind with
      | .directive (.version major minor) =>
        if seen then .error (bareProblem t "found duplicate %YAML directive")
        else if major ≠ 1 ∨ (minor ≠ 1 ∧ minor ≠ 2) then
          .error (bareProblem t "found incompatible YAML document")
        else readDirectives fuel true g.drop
      | .directive (.tag handle stem) =>
        if (g.handles.lookup handle).isSome then
          .error (bareProblem t "found duplicate %TAG directive")
        else readDirectives fuel seen { g with handles := g.handles ++ [(handle, stem)] }.drop
      | _ => .ok { g with
          handles := g.handles ++ standardHandles.filter fun h => (g.handles.lookup h.1).isNone }

def atDocument (implicit : Bool) (g : Grammar) : Step := do
  let g := if implicit then g
    else { g with tokens := g.tokens.dropWhile (·.kind = .documentEnd) }
  let t ← g.peek
  let explicit := match t.kind with
    | .directive _ | .documentStart | .streamEnd => true
    | _ => false
  if implicit && !explicit then
    let g ← readDirectives (g.tokens.length + 1) false g
    return (.documentStart, t.start, (g.push .documentEnd).goTo .blockNode)
  else if t.kind = .streamEnd then
    return (.streamEnd, t.start, (g.goTo .ended).drop)
  else
    let g ← readDirectives (g.tokens.length + 1) false g
    let next ← g.peek
    if next.kind ≠ .documentStart then
      throw (bareProblem next "did not find expected <document start>")
    return (.documentStart, t.start, ((g.push .documentEnd).goTo .documentContent).drop)

def atDocumentEnd (g : Grammar) : Step := do
  let t ← g.peek
  let g := if t.kind = .documentEnd then g.drop else g
  return (.documentEnd, t.start, { g with state := .document, handles := [] })

structure Properties where
  anchor : Option String
  tag : Option (TagName × Mark)
  start : Mark
  rest : Grammar

def readProperties (g : Grammar) : Except Problem Properties := do
  let t ← g.peek
  match t.kind with
  | .anchor name =>
    let g := g.drop
    let u ← g.peek
    match u.kind with
    | .tag x => return ⟨some name, some (x, u.start), t.start, g.drop⟩
    | _ => return ⟨some name, none, t.start, g⟩
  | .tag x =>
    let g := g.drop
    let u ← g.peek
    match u.kind with
    | .anchor name => return ⟨some name, some (x, t.start), t.start, g.drop⟩
    | _ => return ⟨none, some (x, t.start), t.start, g⟩
  | _ => return ⟨none, none, t.start, g⟩

def resolveTag (g : Grammar) (start : Mark) : Option (TagName × Mark) →
    Except Problem (Option Bytes)
  | none => .ok none
  | some (x, m) =>
    if x.handle.isEmpty then .ok (some x.suffix)
    else match g.handles.lookup x.handle with
      | some stem => .ok (some (stem ++ x.suffix))
      | none => .error ⟨"found undefined tag handle", m, some ("while parsing a node", start), 0⟩

def readNode (block indentless : Bool) (g : Grammar) : Step := do
  let t ← g.peek
  match t.kind with
  | .alias name => return (.alias name, t.start, g.back.drop)
  | _ =>
    let p ← g.readProperties
    let g := p.rest
    let tag ← g.resolveTag p.start p.tag
    let t ← g.peek
    let sequence := EventKind.sequenceStart p.anchor tag
    let mapping := EventKind.mappingStart p.anchor tag
    match t.kind with
    | .scalar text style =>
      return (.scalar ⟨p.anchor, tag, text, style⟩, p.start, g.back.drop)
    | .flowSequenceStart => return (sequence, p.start, g.goTo (.flowEntry true))
    | .flowMappingStart => return (mapping, p.start, g.goTo (.flowKey true))
    | kind =>
      if indentless ∧ kind = .blockEntry then return (sequence, p.start, g.goTo .indentlessEntry)
      else if block ∧ kind = .blockSequenceStart then
        return (sequence, p.start, g.goTo (.blockEntry true))
      else if block ∧ kind = .blockMappingStart then
        return (mapping, p.start, g.goTo (.blockKey true))
      else if p.anchor.isSome ∨ tag.isSome then
        return (.scalar ⟨p.anchor, tag, [], .plain⟩, p.start, g.back)
      else
        throw ⟨"did not find expected node content", t.start,
          some
            (if block then "while parsing a block node" else "while parsing a flow node", p.start),
          0⟩

def atDocumentContent (g : Grammar) : Step := do
  let t ← g.peek
  match t.kind with
  | .directive _ | .documentStart | .documentEnd | .streamEnd => g.back.empty t.start
  | _ => g.readNode true false

def enter (first : Bool) (g : Grammar) : Except Problem Grammar :=
  if first then g.peek.map fun t => (g.opening t.start).drop else .ok g

def atBlockEntry (first : Bool) (g : Grammar) : Step := do
  let g ← g.enter first
  let t ← g.peek
  match t.kind with
  | .blockEntry =>
    let g := g.drop
    let next ← g.peek
    if next.kind ≠ .blockEntry ∧ next.kind ≠ .blockEnd then
      (g.push (.blockEntry false)).readNode true false
    else (g.goTo (.blockEntry false)).empty t.stop
  | .blockEnd => return (.sequenceEnd, t.start, g.back.closing.drop)
  | _ =>
    throw (g.inside t "while parsing a block collection" "did not find expected '-' indicator")

def atIndentlessEntry (g : Grammar) : Step := do
  let t ← g.peek
  match t.kind with
  | .blockEntry =>
    let g := g.drop
    let next ← g.peek
    if next.kind ≠ .blockEntry ∧ next.kind ≠ .key ∧ next.kind ≠ .value ∧ next.kind ≠ .blockEnd then
      (g.push .indentlessEntry).readNode true false
    else (g.goTo .indentlessEntry).empty t.stop
  | _ => return (.sequenceEnd, t.start, g.back)

def atBlockKey (first : Bool) (g : Grammar) : Step := do
  let g ← g.enter first
  let t ← g.peek
  match t.kind with
  | .key =>
    let g := g.drop
    let next ← g.peek
    if next.kind ≠ .key ∧ next.kind ≠ .value ∧ next.kind ≠ .blockEnd then
      (g.push .blockValue).readNode true true
    else (g.goTo .blockValue).empty t.stop
  | .blockEnd => return (.mappingEnd, t.start, g.back.closing.drop)
  | _ => throw (g.inside t "while parsing a block mapping" "did not find expected key")

def atBlockValue (g : Grammar) : Step := do
  let t ← g.peek
  match t.kind with
  | .value =>
    let g := g.drop
    let next ← g.peek
    if next.kind ≠ .key ∧ next.kind ≠ .value ∧ next.kind ≠ .blockEnd then
      (g.push (.blockKey false)).readNode true true
    else (g.goTo (.blockKey false)).empty t.stop
  | _ => (g.goTo (.blockKey false)).empty t.start

def separator (first : Bool) (g : Grammar) (context text : String) :
    Except Problem Grammar := do
  if first then return g
  let t ← g.peek
  if t.kind = .flowEntry then return g.drop
  throw (g.inside t context text)

def atFlowEntry (first : Bool) (g : Grammar) : Step := do
  let g ← g.enter first
  let t ← g.peek
  if t.kind = .flowSequenceEnd then return (.sequenceEnd, t.start, g.back.closing.drop)
  let g ← g.separator first "while parsing a flow sequence" "did not find expected ',' or ']'"
  let t ← g.peek
  match t.kind with
  | .key => return (.mappingStart none none, t.start, (g.goTo .flowPairKey).drop)
  | .flowSequenceEnd => return (.sequenceEnd, t.start, g.back.closing.drop)
  | _ => (g.push (.flowEntry false)).readNode false false

def atFlowPairKey (g : Grammar) : Step := do
  let t ← g.peek
  if t.kind ≠ .value ∧ t.kind ≠ .flowEntry ∧ t.kind ≠ .flowSequenceEnd then
    (g.push .flowPairValue).readNode false false
  else (g.goTo .flowPairValue).drop.empty t.stop

def atFlowPairValue (g : Grammar) : Step := do
  let t ← g.peek
  if t.kind = .value then
    let g := g.drop
    let next ← g.peek
    if next.kind ≠ .flowEntry ∧ next.kind ≠ .flowSequenceEnd then
      (g.push .flowPairEnd).readNode false false
    else (g.goTo .flowPairEnd).empty next.start
  else (g.goTo .flowPairEnd).empty t.start

def atFlowPairEnd (g : Grammar) : Step := do
  let t ← g.peek
  return (.mappingEnd, t.start, g.goTo (.flowEntry false))

def atFlowKey (first : Bool) (g : Grammar) : Step := do
  let g ← g.enter first
  let t ← g.peek
  if t.kind = .flowMappingEnd then return (.mappingEnd, t.start, g.back.closing.drop)
  let g ← g.separator first "while parsing a flow mapping" "did not find expected ',' or '\x7d'"
  let t ← g.peek
  match t.kind with
  | .key =>
    let g := g.drop
    let next ← g.peek
    if next.kind ≠ .value ∧ next.kind ≠ .flowEntry ∧ next.kind ≠ .flowMappingEnd then
      (g.push (.flowValue false)).readNode false false
    else (g.goTo (.flowValue false)).empty next.start
  | .flowMappingEnd => return (.mappingEnd, t.start, g.back.closing.drop)
  | _ => (g.push (.flowValue true)).readNode false false

def atFlowValue (alone : Bool) (g : Grammar) : Step := do
  let t ← g.peek
  if !alone ∧ t.kind = .value then
    let g := g.drop
    let next ← g.peek
    if next.kind ≠ .flowEntry ∧ next.kind ≠ .flowMappingEnd then
      (g.push (.flowKey false)).readNode false false
    else (g.goTo (.flowKey false)).empty next.start
  else (g.goTo (.flowKey false)).empty t.start

def step (g : Grammar) : Option Step :=
  match g.state with
  | .streamStart => some do
    let t ← g.peek
    return (.streamStart, t.start, (g.goTo .implicitDocument).drop)
  | .implicitDocument => some (g.atDocument true)
  | .document => some (g.atDocument false)
  | .documentContent => some g.atDocumentContent
  | .documentEnd => some g.atDocumentEnd
  | .blockNode => some (g.readNode true false)
  | .blockEntry first => some (g.atBlockEntry first)
  | .indentlessEntry => some g.atIndentlessEntry
  | .blockKey first => some (g.atBlockKey first)
  | .blockValue => some g.atBlockValue
  | .flowEntry first => some (g.atFlowEntry first)
  | .flowPairKey => some g.atFlowPairKey
  | .flowPairValue => some g.atFlowPairValue
  | .flowPairEnd => some g.atFlowPairEnd
  | .flowKey first => some (g.atFlowKey first)
  | .flowValue alone => some (g.atFlowValue alone)
  | .ended => none

def run : (fuel : Nat) → Grammar → List (EventKind × Mark) × Option Problem
  | 0, _ => ([], none)
  | fuel + 1, g =>
    match g.step with
    | none => ([], none)
    | some (.error e) => ([], some e)
    | some (.ok (e, m, g)) =>
      let (es, problem) := run fuel g
      ((e, m) :: es, problem)

end Grammar

def events (cs : List Char) : List (EventKind × Mark) × Option Problem :=
  let (ts, problem) := tokens cs
  Grammar.run (8 * ts.length + 16) ⟨ts, problem, .streamStart, [], [], []⟩

end EventPost.Yaml
