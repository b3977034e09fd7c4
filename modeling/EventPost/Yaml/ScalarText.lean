import EventPost.Yaml.Resolution

/-!
How a text is set down as a scalar. A text is plain if it can be read back so; one that a reader
could take for something else is put in single quotes, one with line breaks is set out as a
literal block, and double quotes are left for what none of these can hold.
-/

namespace EventPost.Yaml

def isShown (c : Char) : Bool :=
  let n := c.toNat
  n == 0x0a || (0x20 ≤ n && n ≤ 0x7e) || (0xa0 ≤ n && n ≤ 0xd7ff)
    || (0xe000 ≤ n && n ≤ 0xfffd && n != 0xfeff) || 0x10000 ≤ n

def isBlankOrBreak (c : Char) : Bool := isGap c || isBreak c

def hasPair (p q : Char → Bool) : List Char → Bool
  | c :: d :: cs => (p c && q d) || hasPair p q (d :: cs)
  | _ => false

def isMultiline (cs : List Char) : Bool := cs.any isBreak

def isSpaceOrBreak (c : Char) : Bool := c == ' ' || isBreak c

def openingIndicators : List Char :=
  ['#', ',', '[', ']', '\x7b', '\x7d', '&', '*', '!', '|', '>', '\'', '"', '%', '@', '\x60']

/-- Whether a reader would see more than text in a plain scalar. The end of the text counts as a
line break. -/
def hasIndicator (cs : List Char) : Bool :=
  let line := cs ++ ['\n']
  cs.take 3 == ['-', '-', '-'] || cs.take 3 == ['.', '.', '.']
    || cs.head?.any openingIndicators.contains
    || hasPair (fun c => c == '?' || c == '-') isBlankOrBreak (line.take 2)
    || hasPair (· == ':') isBlankOrBreak line
    || hasPair isBlankOrBreak (· == '#') cs

def needsEscape (cs : List Char) : Bool := cs.any (!isShown ·) || hasPair (· == ' ') isBreak cs

def plainAllowed (cs : List Char) : Bool :=
  !cs.head?.any isSpaceOrBreak && !cs.getLast?.any isSpaceOrBreak && !isMultiline cs
    && !needsEscape cs && !hasIndicator cs

def singleAllowed (cs : List Char) : Bool := !needsEscape cs && !hasPair isBreak (· == ' ') cs

def literalAllowed (cs : List Char) : Bool := !needsEscape cs && cs.getLast? != some ' '

/-- Whether a plain scalar would mean something other than its text, here or to a reader that takes
digits after a zero for a number. -/
def looksTyped (cs : List Char) : Bool :=
  hasLeadingZero cs || match meaning cs with
    | .text _ => false
    | _ => true

def styleOf (cs : List Char) : ScalarStyle :=
  if cs.contains '\n' then (if literalAllowed cs then .literal else .doubleQuoted)
  else if plainAllowed cs && !looksTyped cs then .plain
  else if singleAllowed cs then .singleQuoted
  else .doubleQuoted

def upperHex (width n : Nat) : List Char :=
  let ds := (Text.hexText n).map Char.toUpper
  List.replicate (width - ds.length) '0' ++ ds

def shortEscapes : List (Char × Char) := [
  ('\x00', '0'), ('\x07', 'a'), ('\x08', 'b'), ('\t', 't'), ('\n', 'n'), ('\x0b', 'v'),
  ('\x0c', 'f'), ('\r', 'r'), ('\x1b', 'e'), ('"', '"'), ('\\', '\\'), ('\x85', 'N'),
  ('\u2028', 'L'), ('\u2029', 'P')]

def escapeChar (c : Char) : List Char :=
  match shortEscapes.lookup c with
  | some d => ['\\', d]
  | none =>
    if isShown c then [c]
    else if c.toNat ≤ 0xff then '\\' :: 'x' :: upperHex 2 c.toNat
    else if c.toNat ≤ 0xffff then '\\' :: 'u' :: upperHex 4 c.toNat
    else '\\' :: 'U' :: upperHex 8 c.toNat

def spaces (n : Nat) : List Char := List.replicate n ' '

def singleBody (indent : Nat) : (broken : Bool) → List Char → List Char
  | broken, [] => if broken then spaces indent else []
  | broken, c :: cs =>
    if isBreak c then c :: singleBody indent true cs
    else
      (if broken then spaces indent else []) ++ (if c = '\'' then ['\'', '\''] else [c])
        ++ singleBody indent false cs

def literalBody (indent : Nat) : (broken : Bool) → List Char → List Char
  | _, [] => []
  | broken, c :: cs =>
    if isBreak c then c :: literalBody indent true cs
    else (if broken then spaces indent else []) ++ c :: literalBody indent false cs

def indentStep : Nat := 2

/-- A digit where the first line does not show the indentation, and the sign that says how many line
breaks end the text: none, one or more. -/
def literalHeader (cs : List Char) : List Char :=
  let hint := if cs.head?.any isSpaceOrBreak then Numeral.decimal indentStep else []
  let chomp := match cs.reverse with
    | [] => ['-']
    | c :: rest =>
      if !isBreak c then ['-']
      else match rest with
        | [] => ['+']
        | d :: _ => if isBreak d then ['+'] else []
  hint ++ chomp

def scalarBody (indent : Nat) (cs : List Char) : List Char :=
  match styleOf cs with
  | .plain | .folded => cs
  | .singleQuoted => '\'' :: singleBody indent false cs ++ ['\'']
  | .doubleQuoted => '"' :: cs.flatMap escapeChar ++ ['"']
  | .literal => '|' :: literalHeader cs ++ '\n' :: literalBody indent true cs

def scalarLine (indent : Nat) (cs : List Char) : List Char :=
  scalarBody indent cs
    ++ if styleOf cs = .literal ∧ cs.getLast?.any isBreak then [] else ['\n']

end EventPost.Yaml
