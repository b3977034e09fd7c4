import EventPost.Json.Lexeme

/-!
JSON values read from bytes. Lists and objects may nest to a given depth, which the reader counts
down, so every reader is a plain recursion. What an object or list turns into is left to a step that
is folded over its members or items.
-/

namespace EventPost.Json

open Text (Bytes)

def maxDepth : Nat := 127

/-- Folds `step` over the items of a list, read after its opening bracket. There are at most `fuel`
items. -/
def foldItems {σ : Type} (step : σ → Bytes → Reading σ) :
    (fuel : Nat) → (first : Bool) → σ → Bytes → Reading σ
  | fuel, first, acc, bs =>
    match skipBlanks bs with
    | [] => failAt .endInList []
    | b :: r =>
      let next (bs : Bytes) : Reading σ :=
        match fuel with
        | 0 => failAt .endInList bs
        | fuel + 1 =>
          match step acc bs with
          | .error e => .error e
          | .ok (acc, rest) => foldItems step fuel false acc rest
      if b = 0x5d then .ok (acc, r)
      else if first then next (b :: r)
      else if b = 0x2c then
        match skipBlanks r with
        | [] => failAt .endInValue []
        | c :: r => if c = 0x5d then failAt .trailingComma (c :: r) else next (c :: r)
      else failAt .expectedItemEnd (b :: r)

/-- Folds `step` over the members of an object, read after its opening brace. The step is given the
key, and the text from behind it. -/
def foldMembers {σ : Type} (step : σ → String → Bytes → Reading σ) :
    (fuel : Nat) → (first : Bool) → σ → Bytes → Reading σ
  | fuel, first, acc, bs =>
    match skipBlanks bs with
    | [] => failAt .endInObject []
    | b :: r =>
      let next (bs : Bytes) : Reading σ :=
        match fuel with
        | 0 => failAt .endInObject bs
        | fuel + 1 =>
          match readText bs with
          | .error e => .error e
          | .ok (key, bs) =>
            match step acc key bs with
            | .error e => .error e
            | .ok (acc, rest) => foldMembers step fuel false acc rest
      if b = 0x7d then .ok (acc, r)
      else if first then
        if b = 0x22 then next r else failAt .keyNotText (b :: r)
      else if b = 0x2c then
        match skipBlanks r with
        | [] => failAt .endInValue []
        | c :: r =>
          if c = 0x22 then next r
          else if c = 0x7d then failAt .trailingComma (c :: r)
          else failAt .keyNotText (c :: r)
      else failAt .expectedMemberEnd (b :: r)

def readColon (bs : Bytes) : Except Fault Bytes :=
  match skipBlanks bs with
  | [] => failAt .endInObject []
  | b :: r => if b = 0x3a then .ok r else failAt .expectedColon (b :: r)

def itemStep {α : Type} (item : Bytes → Reading α) (acc : List α) (bs : Bytes) :
    Reading (List α) :=
  match item bs with
  | .error e => .error e
  | .ok (v, rest) => .ok (v :: acc, rest)

def memberStep {α : Type} (value : Bytes → Reading α) (acc : List (String × α)) (key : String)
    (bs : Bytes) : Reading (List (String × α)) :=
  match readColon bs with
  | .error e => .error e
  | .ok bs =>
    match value bs with
    | .error e => .error e
    | .ok (v, rest) => .ok ((key, v) :: acc, rest)

def literal? (b : UInt8) : Option (Bytes × Json) :=
  if b = 0x6e then some ("ull".toList.map fun c => c.toNat.toUInt8, .null)
  else if b = 0x74 then some ("rue".toList.map fun c => c.toNat.toUInt8, .boolean true)
  else if b = 0x66 then some ("alse".toList.map fun c => c.toNat.toUInt8, .boolean false)
  else none

def readNumeral (b : UInt8) (bs : Bytes) : Reading Number :=
  if b = 0x2d then readNumber true bs else readNumber false (b :: bs)

def startsNumber (b : UInt8) : Bool := b == 0x2d || isDigit b

/-- A value whose lists and objects nest at most `depth` deep. -/
def readValue (depth : Nat) (bs : Bytes) : Reading Json :=
  match skipBlanks bs with
  | [] => failAt .endInValue []
  | b :: r =>
    match literal? b with
    | some (word, v) =>
      match readWord word r with
      | .error e => .error e
      | .ok rest => .ok (v, rest)
    | none =>
      if startsNumber b then
        match readNumeral b r with
        | .error e => .error e
        | .ok (n, rest) => .ok (.number n, rest)
      else if b = 0x22 then
        match readText r with
        | .error e => .error e
        | .ok (s, rest) => .ok (.text s, rest)
      else if b = 0x5b then
        match depth with
        | 0 => failAt .tooDeep (b :: r)
        | depth + 1 =>
          match foldItems (itemStep (readValue depth)) r.length true [] r with
          | .error e => .error e
          | .ok (items, rest) => .ok (.list items.reverse, rest)
      else if b = 0x7b then
        match depth with
        | 0 => failAt .tooDeep (b :: r)
        | depth + 1 =>
          match foldMembers (memberStep (readValue depth)) r.length true [] r with
          | .error e => .error e
          | .ok (members, rest) => .ok (ofMembers members.reverse, rest)
      else failAt .expectedValue (b :: r)

def readWhole {α : Type} (read : Bytes → Reading α) (bs : Bytes) : Except Fault α :=
  match read bs with
  | .error e => .error e
  | .ok (v, rest) =>
    match skipBlanks rest with
    | [] => .ok v
    | rest => failAt .trailingText rest

def parse (bs : Bytes) : Except Fault Json := readWhole (readValue maxDepth) bs

def parse? (s : String) : Option Json := (parse (Text.bytesOf s)).toOption

end EventPost.Json
