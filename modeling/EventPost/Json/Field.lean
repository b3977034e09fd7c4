import EventPost.Json.Reader

/-!
Readers for values of one expected kind, which say what they found instead, and a reader that passes
over a value of any kind and any depth without keeping it.
-/

namespace EventPost.Json

open Text (Bytes)

def wrongKind {α : Type} (expected : String) (b : UInt8) (r : Bytes) : Except Fault α :=
  match literal? b with
  | some (word, v) =>
    match readWord word r with
    | .error e => .error e
    | .ok rest =>
      let found : Found := match v with
        | .boolean x => .boolean x
        | _ => .null
      fail (.wrongType found expected) rest
  | none =>
    if startsNumber b then
      match readNumeral b r with
      | .error e => .error e
      | .ok (n, rest) => fail (.wrongType (.number n) expected) rest
    else if b = 0x22 then
      match readText r with
      | .error e => .error e
      | .ok (s, rest) => fail (.wrongType (.text s) expected) rest
    else if b = 0x5b then fail (.wrongType .list expected) (b :: r)
    else if b = 0x7b then fail (.wrongType .object expected) (b :: r)
    else failAt .expectedValue (b :: r)

def textField (bs : Bytes) : Reading String :=
  match skipBlanks bs with
  | [] => failAt .endInValue []
  | b :: r => if b = 0x22 then readText r else wrongKind "a string" b r

def wordField (bs : Bytes) : Reading UInt64 :=
  match skipBlanks bs with
  | [] => failAt .endInValue []
  | b :: r =>
    if startsNumber b then
      match readNumeral b r with
      | .error e => .error e
      | .ok (.real x, rest) => fail (.wrongType (.number (.real x)) "u64") rest
      | .ok (.integer i h, rest) =>
        if i < 0 then fail (.wrongValue (.number (.integer i h)) "u64") rest
        else .ok (UInt64.ofNat i.toNat, rest)
    else wrongKind "u64" b r

def textListField (depth : Nat) (bs : Bytes) : Reading (List String) :=
  match skipBlanks bs with
  | [] => failAt .endInValue []
  | b :: r =>
    if b = 0x5b then
      if depth = 0 then failAt .tooDeep (b :: r)
      else
        match foldItems (itemStep textField) r.length true [] r with
        | .error e => .error e
        | .ok (items, rest) => .ok (items.reverse, rest)
    else wrongKind "a sequence" b r

/-- The text behind an object's closing brace, if it comes next, else behind the blanks. -/
def behindObject (bs : Bytes) : Bytes :=
  match skipBlanks bs with
  | [] => []
  | b :: r => if b = 0x7d then r else b :: r

def skipText : Bytes → Except Fault Bytes
  | [] => fail .endInText []
  | b :: bs =>
    if b = 0x22 then .ok bs
    else if b = 0x5c then
      match bs with
      | [] => fail .endInText []
      | c :: rest =>
        if (simpleEscape? c).isSome then skipText rest
        else if c = 0x75 then
          match _h : readUnit rest with
          | .error e => .error e
          | .ok (_, rest) => skipText rest
        else fail .invalidEscape rest
    else if b < 0x20 then fail .controlCharacter (b :: bs)
    else skipText bs
termination_by bs => bs.length
decreasing_by
  · simp only [List.length_cons]; omega
  · have := length_readUnit _h
    simp only [List.length_cons]; omega
  · simp only [List.length_cons]; omega

def skipExponent (bs : Bytes) : Except Fault Bytes :=
  let bs := match bs with
    | b :: r => if b = 0x2b ∨ b = 0x2d then r else b :: r
    | [] => []
  match bs with
  | [] => fail .invalidNumber []
  | b :: r => if isDigit b then .ok (r.dropWhile isDigit) else fail .invalidNumber r

def skipAfterWhole (bs : Bytes) : Except Fault Bytes :=
  match bs with
  | [] => .ok []
  | b :: r =>
    if b = 0x2e then
      let rest := r.dropWhile isDigit
      if (r.takeWhile isDigit).isEmpty then failAt .invalidNumber rest
      else match rest with
        | e :: r => if isExponentMark e then skipExponent r else .ok rest
        | [] => .ok []
    else if isExponentMark b then skipExponent r
    else .ok bs

def skipNumber : Bytes → Except Fault Bytes
  | [] => fail .invalidNumber []
  | b :: r =>
    if b = 0x30 then
      match r with
      | d :: _ => if isDigit d then failAt .invalidNumber r else skipAfterWhole r
      | [] => .ok []
    else if isDigit b then skipAfterWhole (r.dropWhile isDigit)
    else fail .invalidNumber r

inductive Open
  | list
  | object
  deriving DecidableEq, Repr

def Open.closer : Open → UInt8
  | .list => 0x5d
  | .object => 0x7d

def Open.atEnd : Open → Cause
  | .list => .endInList
  | .object => .endInObject

def Open.expectedEnd : Open → Cause
  | .list => .expectedItemEnd
  | .object => .expectedMemberEnd

def Open.beforeValue (o : Open) (bs : Bytes) : Except Fault Bytes :=
  match o with
  | .list => .ok bs
  | .object =>
    match skipBlanks bs with
    | [] => failAt .endInObject []
    | b :: r =>
      if b = 0x22 then
        match skipText r with
        | .error e => .error e
        | .ok rest =>
          match skipBlanks rest with
          | [] => failAt .endInObject []
          | c :: r => if c = 0x3a then .ok r else failAt .expectedColon (c :: r)
      else failAt .keyNotText (b :: r)

/-- Where the passing over stands: before a value, or behind one (`true`) or an opening bracket. -/
inductive Passing
  | value
  | behind (complete : Bool)

def skipFrom : (fuel : Nat) → Passing → List Open → Bytes → Except Fault Bytes
  | 0, _, _, bs => failAt .endInValue bs
  | fuel + 1, .value, holders, bs =>
    match skipBlanks bs with
    | [] => failAt .endInValue []
    | b :: r =>
      let scalar (e : Except Fault Bytes) : Except Fault Bytes :=
        match e with
        | .error e => .error e
        | .ok rest => skipFrom fuel (.behind true) holders rest
      match literal? b with
      | some (word, _) => scalar (readWord word r)
      | none =>
        if b = 0x2d then scalar (skipNumber r)
        else if isDigit b then scalar (skipNumber (b :: r))
        else if b = 0x22 then scalar (skipText r)
        else if b = 0x5b then skipFrom fuel (.behind false) (.list :: holders) r
        else if b = 0x7b then skipFrom fuel (.behind false) (.object :: holders) r
        else failAt .expectedValue (b :: r)
  | _ + 1, .behind _, [], bs => .ok bs
  | fuel + 1, .behind complete, o :: holders, bs =>
    match skipBlanks bs with
    | [] => failAt o.atEnd []
    | b :: r =>
      let next (bs : Bytes) : Except Fault Bytes :=
        match o.beforeValue bs with
        | .error e => .error e
        | .ok rest => skipFrom fuel .value (o :: holders) rest
      if b = 0x2c ∧ complete then next r
      else if b = o.closer then skipFrom fuel (.behind true) holders r
      else if complete then failAt o.expectedEnd (b :: r)
      else next (b :: r)

theorem skipFrom_behind_nil (fuel : Nat) (complete : Bool) (bs : Bytes) :
    skipFrom (fuel + 1) (.behind complete) [] bs = .ok bs := by
  rw [skipFrom]

def skipValue (bs : Bytes) : Except Fault Bytes := skipFrom (2 * bs.length + 2) .value [] bs

end EventPost.Json
