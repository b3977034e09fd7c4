import EventPost.Yaml.Document
import EventPost.Yaml.Resolution

/-!
Values of an expected kind, read from the items of a document. An alias is read where its anchor
stands. What is wrong is said with the path to the value and the mark at which it begins.
-/

namespace EventPost.Yaml

open Text (Bytes)

/-- The keys that lead to a value, outermost first. A key that is no scalar is shown as `?`. -/
abbrev Path := List String

inductive Trouble
  | broken (f : Fault)
  | mismatch (text : String) (place : Option (Mark × Path))
  deriving DecidableEq, Repr

namespace Trouble

def message : Trouble → String
  | .broken f => f.message
  | .mismatch text none => text
  | .mismatch text (some (m, path)) =>
    (if path.isEmpty then "" else ".".intercalate path ++ ": ") ++ text
      ++ if m.isStart then "" else " at " ++ m.text

def placeAt (m : Mark) (path : Path) : Trouble → Trouble
  | .mismatch text none => .mismatch text (some (m, path))
  | t => t

end Trouble

abbrev Outcome (α : Type) := Except Trouble (α × Items)

def placed {α : Type} (m : Mark) (path : Path) (r : Except Trouble α) : Except Trouble α :=
  r.mapError (Trouble.placeAt m path)

def mismatch {α : Type} (text : String) : Except Trouble α := .error (.mismatch text none)

def invalidType (found expected : String) : String :=
  "invalid type: " ++ found ++ ", expected " ++ expected

def invalidValue (found expected : String) : String :=
  "invalid value: " ++ found ++ ", expected " ++ expected

def standardTag (name : String) : Bytes := Text.bytesOf ("tag:yaml.org,2002:" ++ name)

def isLocalTag (tag : Bytes) : Bool := tag.head? == some 0x21

/-- Says that a scalar is not of the expected kind, by what its tag and its style make of it. -/
def Scalar.complaint (s : Scalar) (expected : String) : String :=
  let text := String.ofList s.text
  let asText := invalidType (Meaning.text text).describe expected
  let asPlain := if s.style = .plain then invalidType (meaning s.text).describe expected else asText
  let tagged (kind : String) (m : Option Meaning) : String :=
    match m with
    | some m => invalidType m.describe expected
    | none => invalidValue (Meaning.text text).describe kind
  match s.tag with
  | none => asPlain
  | some tag =>
    if tag = standardTag "bool" then tagged "a boolean" ((truth? text).map .truth)
    else if tag = standardTag "int" then tagged "an integer" (integerMeaning? s.text)
    else if tag = standardTag "float" then tagged "a float" ((float? s.text).map .float)
    else if tag = standardTag "null" then
      tagged "null" (if nothing? text then some .nothing else none)
    else if isLocalTag tag then asPlain
    else asText

def Item.complaint (i : Item) (expected : String) : Trouble :=
  match i with
  | .scalar s => .mismatch (s.complaint expected) none
  | .sequenceStart _ => .mismatch (invalidType "sequence" expected) none
  | .mappingStart _ => .mismatch (invalidType "map" expected) none
  | _ => .broken .endOfText

/-- The next item, which is the anchored one for an alias; the items behind the item itself, and
those behind it where it is used. -/
structure Node where
  item : Item
  mark : Mark
  inner : Items
  outer : Items

def Document.next (d : Document) (items : Items) : Except Trouble Node :=
  match items with
  | [] => .error (.broken (d.fault.getD .endOfText))
  | (.alias n, m) :: rest =>
    match d.items.drop ((d.places.lookup n).getD d.items.length) with
    | (item, m) :: inner => .ok ⟨item, m, inner, rest⟩
    | [] => .ok ⟨.alias n, m, [], rest⟩
  | (item, m) :: rest => .ok ⟨item, m, rest, rest⟩

def readText (d : Document) (expected : String) (path : Path) (items : Items) : Outcome String :=
  match d.next items with
  | .error e => .error e
  | .ok n =>
    match n.item with
    | .scalar s => .ok (String.ofList s.text, n.outer)
    | item => placed n.mark path (.error (item.complaint expected))

/-- An integer is plain, or is a literal block that is tagged as one. -/
def Scalar.spellsInteger (s : Scalar) : Bool :=
  s.style = .plain || s.style = .literal && s.tag = some (standardTag "int")

def readWord (d : Document) (path : Path) (items : Items) : Outcome UInt64 :=
  match d.next items with
  | .error e => .error e
  | .ok n =>
    let refuse : Outcome UInt64 := placed n.mark path (.error (n.item.complaint "u64"))
    match n.item with
    | .scalar s =>
      if s.spellsInteger then
        match unsigned? Numeral.maxWord s.text with
        | some k => .ok (UInt64.ofNat k, n.outer)
        | none => refuse
      else refuse
    | _ => refuse

def skipItem (d : Document) : (fuel : Nat) → (depth : Nat) → Items → Except Trouble Items
  | 0, _, items => .ok items
  | fuel + 1, depth, items =>
    match items with
    | [] => .error (.broken (d.fault.getD .endOfText))
    | (item, _) :: rest =>
      let depth := match item with
        | .sequenceStart _ | .mappingStart _ => depth + 1
        | .sequenceEnd | .mappingEnd => depth - 1
        | _ => depth
      if depth = 0 then .ok rest else skipItem d fuel depth rest

def skipValue (d : Document) (items : Items) : Except Trouble Items :=
  skipItem d (items.length + 1) 0 items

def skipped {σ : Type} (d : Document) (acc : σ) (items : Items) : Outcome σ :=
  (skipValue d items).map (acc, ·)

def repeated {α : Type} (key : String) : Except Trouble α :=
  mismatch ("duplicate field `" ++ key ++ "`")

/-- Reads the value of a member that may come once. -/
def once {α σ : Type} (key : String) (old : Option α) (read : Outcome α) (put : α → σ) :
    Outcome σ :=
  if old.isSome then repeated key
  else match read with
    | .error e => .error e
    | .ok (v, rest) => .ok (put v, rest)

def pathKey : Items → String
  | (.scalar s, _) :: _ => String.ofList s.text
  | _ => "?"

/-- Folds `step` over the members of a mapping, up to its end. The step is given the key, the path
to the value, and the items from the value on. -/
def foldMembers {σ : Type} (d : Document) (path : Path)
    (step : σ → String → Path → Items → Outcome σ) : (fuel : Nat) → σ → Items → Outcome σ
  | 0, acc, items => .ok (acc, items)
  | fuel + 1, acc, items =>
    match items with
    | (.mappingEnd, _) :: rest => .ok (acc, rest)
    | _ =>
      match readText d "field identifier" path items with
      | .error e => .error e
      | .ok (key, rest) =>
        match step acc key (path ++ [pathKey items]) rest with
        | .error e => .error e
        | .ok (acc, rest) => foldMembers d path step fuel acc rest

/-- A mapping. An empty scalar, or an empty text, is a mapping without members. -/
def readMapping {σ : Type} (d : Document) (expected : String) (start : σ) (path : Path)
    (step : σ → String → Path → Items → Outcome σ) (items : Items) : Outcome σ :=
  match d.next items with
  | .error e => .error e
  | .ok n =>
    placed n.mark path <|
      match n.item with
      | .mappingStart _ =>
        match foldMembers d path step (n.inner.length + 1) start n.inner with
        | .error e => .error e
        | .ok (acc, rest) =>
          .ok (acc, if n.inner.length = n.outer.length then rest else n.outer)
      | .void => .ok (start, n.outer)
      | .scalar s =>
        if s.text.isEmpty ∧ s.style = .plain then .ok (start, n.outer)
        else .error (n.item.complaint expected)
      | item => .error (item.complaint expected)

def localTag? (tag : Option Bytes) : Option String := do
  let tag ← tag
  if !isLocalTag tag then none
  Text.decodeString? (if tag.length = 1 then tag else tag.drop 1)

def Item.tag? : Item → Option Bytes
  | .scalar s => s.tag
  | .sequenceStart tag => tag
  | .mappingStart tag => tag
  | _ => none

def Item.isNothing : Item → Bool
  | .scalar s => s.style = .plain && (s.text.isEmpty || nothing? (String.ofList s.text))
  | .void => true
  | _ => false

def unknownChoice (name : String) (choices : List String) : Trouble :=
  .mismatch ("unknown variant `" ++ name ++ "`, expected one of "
    ++ ", ".intercalate (choices.map fun c => "`" ++ c ++ "`")) none

def readChoice {α : Type} (d : Document) (choices : List String) (ofName? : String → Option α)
    (path : Path) (items : Items) : Outcome α :=
  match d.next items with
  | .error e => .error e
  | .ok n =>
    match localTag? n.item.tag? with
    | some tag =>
      match ofName? tag with
      | none => .error (unknownChoice tag choices)
      | some v =>
        if n.item.isNothing then .ok (v, n.outer)
        else placed n.mark path <| .error <|
          match n.item with
          | .scalar s =>
            .mismatch (invalidValue (Meaning.text (String.ofList s.text)).describe "null") none
          | item => item.complaint "unit"
    | none =>
      placed n.mark path <|
        match n.item with
        | .scalar s =>
          match ofName? (String.ofList s.text) with
          | some v => .ok (v, n.outer)
          | none => .error (unknownChoice (String.ofList s.text) choices)
        | item => .error (item.complaint "a YAML tag starting with '!'")

def readDocument {α : Type} (read : Document → Items → Outcome α) (text : String) :
    Except Trouble α :=
  let l := load text.toList
  match read l.document l.document.items with
  | .error e => .error e
  | .ok (v, _) =>
    match l.document.fault with
    | some f => .error (.broken f)
    | none => if l.more then .error (.broken .manyDocuments) else .ok v

end EventPost.Yaml
