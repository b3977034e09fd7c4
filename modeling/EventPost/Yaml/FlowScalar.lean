import EventPost.Yaml.Source

/-!
Scalars within the flow of a text: plain ones, and those in single or double quotes. A line break
inside one is folded into a space, and further breaks are kept.
-/

namespace EventPost.Yaml

/-- The blanks between two words of a scalar: the gaps on one line, or, once a line has ended, its
break and the breaks of the empty lines after it. -/
structure Fold where
  gaps : List Char
  first : List Char
  more : List Char
  broken : Bool

namespace Fold

def none : Fold := ⟨[], [], [], false⟩

def escaped : Fold := ⟨[], [], [], true⟩

def text (f : Fold) : List Char :=
  if f.broken then
    if f.first.head? = some '\n' then (if f.more.isEmpty then [' '] else f.more)
    else f.first ++ f.more
  else f.gaps

/-- Takes up the blanks that come next. With `indent`, a tab left of that column is refused. -/
def gather (indent : Option (Nat × Mark)) : (fuel : Nat) → Fold → Source →
    Except Problem (Fold × Source)
  | 0, f, s => .ok (f, s)
  | fuel + 1, f, s =>
    match s.rest with
    | [] => .ok (f, s)
    | c :: _ =>
      if isGap c then
        if f.broken then
          match indent with
          | some (column, start) =>
            if c = '\t' ∧ s.mark.column < column then
              .error (s.problem "while scanning a plain scalar" start
                "found a tab character that violates indentation")
            else gather indent fuel f (s.skip 1)
          | Option.none => gather indent fuel f (s.skip 1)
        else gather indent fuel { f with gaps := f.gaps ++ [c] } (s.skip 1)
      else if isBreak c then
        let f :=
          if f.broken then { f with more := f.more ++ s.breakText }
          else { f with gaps := [], first := s.breakText, broken := true }
        gather indent fuel f s.skipLine
      else .ok (f, s)

end Fold

structure Scanned where
  text : List Char
  stop : Mark
  broken : Bool
  source : Source

def isFlowIndicator (c : Char) : Bool :=
  c == ',' || c == '[' || c == ']' || c == '\x7b' || c == '\x7d'

/-- The characters of a plain scalar up to the next blank or to what ends it, onto `acc` in
reverse. -/
def plainRun (flow : Bool) (start : Mark) : (fuel : Nat) → List Char → Source →
    Except Problem (List Char × Source)
  | 0, acc, s => .ok (acc, s)
  | fuel + 1, acc, s =>
    match s.rest with
    | [] => .ok (acc, s)
    | c :: _ =>
      if isGap c || isBreak c then .ok (acc, s)
      else if flow && c == ':' && s.testAt 1 (fun d => isFlowIndicator d || d == '?') then
        .error (s.problem "while scanning a plain scalar" start "found unexpected ':'")
      else if (c == ':' && s.blankAt 1) || (flow && isFlowIndicator c) then .ok (acc, s)
      else plainRun flow start fuel (c :: acc) (s.skip 1)

/-- A plain scalar read so far: its characters in reverse, the blanks behind them, and where the
last character was. -/
def plainFrom (flow : Bool) (indent : Int) (start : Mark) : (fuel : Nat) → List Char → Fold → Mark →
    Source → Except Problem Scanned
  | 0, acc, f, stop, s => .ok ⟨acc.reverse, stop, f.broken, s⟩
  | fuel + 1, acc, f, stop, s =>
    if s.documentMarker || s.startsWith '#' then .ok ⟨acc.reverse, stop, f.broken, s⟩
    else
      match plainRun flow start s.rest.length [] s with
      | .error e => .error e
      | .ok (run, after) =>
        let (acc, f, stop) :=
          if run.isEmpty then (acc, f, stop)
          else (run ++ f.text.reverse ++ acc, Fold.none, after.mark)
        if !(after.gapHere || after.breakAt 0) then .ok ⟨acc.reverse, stop, f.broken, after⟩
        else
          match f.gather (some ((indent + 1).toNat, start)) after.rest.length after with
          | .error e => .error e
          | .ok (f, s) =>
            if !flow && (s.mark.column : Int) < indent + 1 then
              .ok ⟨acc.reverse, stop, f.broken, s⟩
            else plainFrom flow indent start fuel acc f stop s

def scanPlain (flow : Bool) (indent : Int) (s : Source) : Except Problem Scanned :=
  plainFrom flow indent s.mark (s.rest.length + 1) [] .none s.mark s

/-- What an escape in double quotes stands for: a character, or a number of hexadecimal digits. -/
def escapeShape? (c : Char) : Option (Char ⊕ Nat) :=
  match c with
  | '0' => some (.inl '\x00')
  | 'a' => some (.inl '\x07')
  | 'b' => some (.inl '\x08')
  | 't' => some (.inl '\t')
  | '\t' => some (.inl '\t')
  | 'n' => some (.inl '\n')
  | 'v' => some (.inl '\x0b')
  | 'f' => some (.inl '\x0c')
  | 'r' => some (.inl '\r')
  | 'e' => some (.inl '\x1b')
  | ' ' => some (.inl ' ')
  | '"' => some (.inl '"')
  | '/' => some (.inl '/')
  | '\\' => some (.inl '\\')
  | 'N' => some (.inl '\x85')
  | '_' => some (.inl '\xa0')
  | 'L' => some (.inl '\u2028')
  | 'P' => some (.inl '\u2029')
  | 'x' => some (.inr 2)
  | 'u' => some (.inr 4)
  | 'U' => some (.inr 8)
  | _ => none

def hexNumber (cs : List Char) : Nat :=
  cs.foldl (fun n c => n * 16 + (Numeral.digitValue? 16 c).getD 0) 0

def scanEscape (start : Mark) (s : Source) : Except Problem (Char × Source) :=
  let context := "while parsing a quoted scalar"
  match (s.peek? 1).bind escapeShape? with
  | none => .error (s.problem context start "found unknown escape character")
  | some (.inl c) => .ok (c, s.skip 2)
  | some (.inr n) =>
    let s := s.skip 2
    let digits := s.rest.take n
    if digits.length < n || !digits.all isHex then
      .error (s.problem context start "did not find expected hexdecimal number")
    else
      let v := hexNumber digits
      if (0xd800 ≤ v ∧ v ≤ 0xdfff) ∨ 0x10ffff < v then
        .error (s.problem context start "found invalid Unicode character escape code")
      else .ok (Char.ofNat v, s.skip n)

/-- The characters of a quoted scalar up to the next blank or the closing quote, onto `acc` in
reverse, and whether an escaped line break ended them. -/
def quotedRun (single : Bool) (start : Mark) : (fuel : Nat) → List Char → Source →
    Except Problem (List Char × Bool × Source)
  | 0, acc, s => .ok (acc, false, s)
  | fuel + 1, acc, s =>
    match s.rest with
    | [] => .ok (acc, false, s)
    | c :: _ =>
      if isGap c || isBreak c then .ok (acc, false, s)
      else if single && c == '\'' && s.peek? 1 == some '\'' then
        quotedRun single start fuel ('\'' :: acc) (s.skip 2)
      else if c == (if single then '\'' else '"') then .ok (acc, false, s)
      else if !single && c == '\\' then
        if s.breakAt 1 then .ok (acc, true, (s.skip 1).skipLine)
        else
          match scanEscape start s with
          | .error e => .error e
          | .ok (x, s) => quotedRun single start fuel (x :: acc) s
      else quotedRun single start fuel (c :: acc) (s.skip 1)

def quotedFrom (single : Bool) (start : Mark) : (fuel : Nat) → List Char → Source →
    Except Problem Scanned
  | 0, _, s => .error (s.problem "while scanning a quoted scalar" start
      "found unexpected end of stream")
  | fuel + 1, acc, s =>
    let context := "while scanning a quoted scalar"
    if s.documentMarker then
      .error (s.problem context start "found unexpected document indicator")
    else if s.atEnd then .error (s.problem context start "found unexpected end of stream")
    else
      match quotedRun single start s.rest.length acc s with
      | .error e => .error e
      | .ok (acc, escaped, s) =>
        if s.startsWith (if single then '\'' else '"') then
          let s := s.skip 1
          .ok ⟨acc.reverse, s.mark, false, s⟩
        else
          match (if escaped then Fold.escaped else Fold.none).gather none s.rest.length s with
          | .error e => .error e
          | .ok (f, s) => quotedFrom single start fuel (f.text.reverse ++ acc) s

def scanQuoted (single : Bool) (s : Source) : Except Problem Scanned :=
  quotedFrom single s.mark (s.rest.length + 1) [] (s.skip 1)

end EventPost.Yaml
