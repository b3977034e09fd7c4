import EventPost.Journal
import EventPost.Settings.Basic
import EventPost.Text.Blank

/-!
Which records reach the log. Rules set a level, each for the parts of the program whose path
begins with a text, or for all of them; the longest text that fits decides. `parse` reads rules as
users write them.
-/

namespace EventPost.Journal

structure Rule where
  path : Option String
  level : LogLevel
  deriving DecidableEq, Repr

structure Filter where
  rules : List Rule
  word : Option String
  deriving DecidableEq, Repr

def Severity.passes (s : Severity) (l : LogLevel) : Bool := s.rank ≤ l.rank

namespace Rule

def fits (r : Rule) (o : Origin) : Bool := r.path.all (o.path.startsWith ·)

def weight (r : Rule) : Nat := (r.path.getD "").utf8ByteSize

end Rule

def decisive (rules : List Rule) (o : Origin) : Option Rule :=
  rules.foldl (fun best r =>
    if r.fits o && best.all (fun b => b.weight ≤ r.weight) then some r else best) none

namespace Filter

def level (l : LogLevel) : Filter := ⟨[⟨none, l⟩], none⟩

def passes (f : Filter) (r : Record) : Bool :=
  (decisive f.rules r.origin).any (fun rule => Severity.passes r.severity rule.level)
    && f.word.all fun w => (r.text.splitOn w).length ≠ 1 || w.isEmpty

def select (f : Filter) (j : Journal) : Journal := j.filter f.passes

end Filter

def levelOfWord? (word : String) : Option LogLevel := LogLevel.ofName? word.toLower

def unreadable (s : String) : String := "invalid logging spec '" ++ s ++ "'"

def readRule (s : String) : Except String Rule :=
  match s.splitToList (· == '=') with
  | [only] =>
    match levelOfWord? only with
    | some l => .ok ⟨none, l⟩
    | none => .ok ⟨some only, .trace⟩
  | [path, word] =>
    let word := Text.trim word
    if word.isEmpty then .ok ⟨some path, .trace⟩
    else match levelOfWord? word with
      | some l => .ok ⟨some path, l⟩
      | none => .error (unreadable word)
  | _ => .error (unreadable s)

def putRule (r : Rule) : List Rule → List Rule
  | [] => [r]
  | q :: rest => if q.path = r.path then r :: rest else q :: putRule r rest

def readRules (s : String) : List Rule × List String :=
  let words := ((s.splitToList (· == ',')).map Text.trim).filter (!·.isEmpty)
  words.foldl (fun (rules, faults) w =>
    match readRule w with
    | .ok r => (putRule r rules, faults)
    | .error e => (rules, faults ++ [e])) ([], [])

def orErrors (rules : List Rule) : List Rule := if rules.isEmpty then [⟨none, .error⟩] else rules

/-- The filter that a text describes, and what is wrong with it. A slash sets off the text that
records must hold. -/
def Filter.parse (s : String) : Filter × List String :=
  match s.splitToList (· == '/') with
  | [rules] => (⟨orErrors (readRules rules).1, none⟩, (readRules rules).2)
  | [rules, word] => (⟨orErrors (readRules rules).1, some word⟩, (readRules rules).2)
  | _ => (⟨orErrors [], none⟩, [unreadable s ++ " (too many '/'s)"])

end EventPost.Journal
