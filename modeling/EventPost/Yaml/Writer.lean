import EventPost.Yaml.ScalarText

/-!
Values as YAML text, in blocks: every item and member on a line of its own. The items of a list
stand below the key that holds them, members two spaces to its right. A key that is long or has
line breaks is marked as one, and its value follows on a line of its own.
-/

namespace EventPost.Yaml

def floatLayout : Numeral.FloatLayout := ⟨-5, 15, false⟩

def writeNumber : Json.Number → List Char
  | .integer i _ => (Numeral.signedText i).toList
  | .real x => floatLayout.write x

def simpleKeyLimit : Nat := 128

def isSimpleKey (cs : List Char) : Bool :=
  !isMultiline cs && (Text.encode cs).length ≤ simpleKeyLimit

def writeScalar (indent : Nat) : Json → List Char
  | .null => "null\n".toList
  | .boolean b => Json.writeBoolean b ++ ['\n']
  | .number n => writeNumber n ++ ['\n']
  | .text s => scalarLine indent s.toList
  | .list _ => "[]\n".toList
  | .object _ => "\x7b\x7d\n".toList

/-- Puts a block behind a mark at the column `indent`: its first line begins right after it. -/
def behindMark (indent : Nat) (block : List Char) : List Char := block.drop (indent + 1)

def writeKey (indent : Nat) (key : List Char) : List Char :=
  spaces indent ++
    if isSimpleKey key then scalarBody (indent + indentStep) key ++ [':']
    else '?' :: ' ' :: scalarLine (indent + indentStep) key ++ spaces indent ++ [':']

mutual
def writeItems (indent : Nat) : List Json → List Char
  | [] => []
  | v :: vs => spaces indent ++ '-' :: writeInner indent v ++ writeItems indent vs

def writeMembers (indent : Nat) : List (String × Json) → List Char
  | [] => []
  | (k, v) :: ms =>
    writeKey indent k.toList
      ++ (if isSimpleKey k.toList then writeBelow indent v else writeInner indent v)
      ++ writeMembers indent ms

def writeInner (indent : Nat) : Json → List Char
  | .list (v :: vs) => behindMark indent (writeItems (indent + indentStep) (v :: vs))
  | .object (m :: ms) => behindMark indent (writeMembers (indent + indentStep) (m :: ms))
  | v => ' ' :: writeScalar (indent + indentStep) v

def writeBelow (indent : Nat) : Json → List Char
  | .list (v :: vs) => '\n' :: writeItems indent (v :: vs)
  | .object (m :: ms) => '\n' :: writeMembers (indent + indentStep) (m :: ms)
  | v => ' ' :: writeScalar (indent + indentStep) v
end

def write : Json → List Char
  | .list (v :: vs) => writeItems 0 (v :: vs)
  | .object (m :: ms) => writeMembers 0 (m :: ms)
  | v => writeScalar indentStep v

def text (v : Json) : String := String.ofList (write v)

end EventPost.Yaml
