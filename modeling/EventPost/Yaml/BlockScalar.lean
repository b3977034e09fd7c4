import EventPost.Yaml.FlowScalar

/-!
Scalars set out as indented lines. A literal one keeps its line breaks; a folded one joins lines
that do not begin with a blank. The header says what becomes of the breaks at the end, and may
give the indentation, which is otherwise that of the first line with text.
-/

namespace EventPost.Yaml

/-- What becomes of the line breaks at the end of a block scalar. -/
inductive Chomping
  | strip
  | clip
  | keep
  deriving DecidableEq, Repr

structure BlockHeader where
  chomping : Chomping
  increment : Option Nat

def chomping? (c : Char) : Option Chomping :=
  if c == '+' then some .keep else if c == '-' then some .strip else none

def blockContext : String := "while scanning a block scalar"

def scanIncrement (start : Mark) (s : Source) : Except Problem (Option Nat × Source) :=
  match s.rest with
  | c :: _ =>
    if c == '0' then
      .error (s.problem blockContext start "found an indentation indicator equal to 0")
    else if c.isDigit then .ok (some (c.toNat - '0'.toNat), s.skip 1)
    else .ok (none, s)
  | [] => .ok (none, s)

def scanHeader (start : Mark) (s : Source) : Except Problem (BlockHeader × Source) :=
  match s.rest.head?.bind chomping? with
  | some chomping =>
    match scanIncrement start (s.skip 1) with
    | .error e => .error e
    | .ok (increment, s) => .ok (⟨chomping, increment⟩, s)
  | none =>
    match scanIncrement start s with
    | .error e => .error e
    | .ok (none, s) => .ok (⟨.clip, none⟩, s)
    | .ok (some n, s) =>
      match s.rest.head?.bind chomping? with
      | some chomping => .ok (⟨chomping, some n⟩, s.skip 1)
      | none => .ok (⟨.clip, some n⟩, s)

/-- Empty lines and the indentation of the next line with text. -/
structure Margin where
  breaks : List Char
  widest : Nat
  stop : Mark
  source : Source

def indentWithin (indent : Nat) (s : Source) : Bool := indent == 0 || s.mark.column < indent

def skipIndent (indent : Nat) (s : Source) : Source :=
  let spaces := (s.rest.takeWhile (· == ' ')).length
  s.skip (if indent == 0 then spaces else min spaces (indent - s.mark.column))

def scanMargin (indent : Nat) (start : Mark) : (fuel : Nat) → Margin → Except Problem Margin
  | 0, m => .ok m
  | fuel + 1, m =>
    let s := skipIndent indent m.source
    let widest := max m.widest s.mark.column
    if indentWithin indent s && s.startsWith '\t' then
      .error (s.problem blockContext start
        "found a tab character where an indentation space is expected")
    else if s.breakAt 0 then
      let after := s.skipLine
      scanMargin indent start fuel ⟨m.breaks ++ s.breakText, widest, after.mark, after⟩
    else .ok ⟨m.breaks, widest, m.stop, s⟩

def marginFrom (indent : Nat) (start : Mark) (s : Source) : Except Problem Margin :=
  scanMargin indent start (s.rest.length + 1) ⟨[], 0, s.mark, s⟩

/-- A block scalar read so far: its characters in reverse, the break behind them, the margin after
it, and whether its last line began with a blank. -/
def blockFrom (literal : Bool) (indent : Nat) (start : Mark) : (fuel : Nat) → List Char →
    List Char → Bool → Margin → Except Problem (List Char × List Char × Margin)
  | 0, acc, last, _, m => .ok (acc, last, m)
  | fuel + 1, acc, last, blankBefore, m =>
    let s := m.source
    if s.mark.column == indent && !s.atEnd then
      let blankHere := s.gapHere
      let joined :=
        if !literal && last.head? == some '\n' && !blankBefore && !blankHere then
          (if m.breaks.isEmpty then [' '] else [])
        else last
      let acc := m.breaks.reverse ++ joined.reverse ++ acc
      let (run, s) := s.span fun c => !isBreak c
      let after := s.skipLine
      match marginFrom indent start after with
      | .error e => .error e
      | .ok m => blockFrom literal indent start fuel (run.reverse ++ acc) s.breakText blankHere m
    else .ok (acc, last, m)

def scanBlock (literal : Bool) (parent : Int) (s : Source) : Except Problem Scanned :=
  let start := s.mark
  match scanHeader start (s.skip 1) with
  | .error e => .error e
  | .ok (header, s) =>
    let s := s.skipGaps.skipComment
    if !s.lineEnds then
      .error (s.problem blockContext start "did not find expected comment or line break")
    else
      let s := s.skipLine
      let given := match header.increment with
        | some n => (max parent 0).toNat + n
        | none => 0
      match marginFrom given start s with
      | .error e => .error e
      | .ok m =>
        let indent := if given = 0 then max m.widest (max (parent + 1) 1).toNat else given
        match blockFrom literal indent start (s.rest.length + 1) [] [] false m with
        | .error e => .error e
        | .ok (acc, last, m) =>
          let tail := match header.chomping with
            | .strip => []
            | .clip => last
            | .keep => last ++ m.breaks
          .ok ⟨acc.reverse ++ tail, m.stop, true, m.source⟩

end EventPost.Yaml
