import EventPost.Json.Writer
import EventPost.Numeral.Decimal
import EventPost.Text.Utf8

/-!
What is wrong with a JSON text, and where. A fault holds its cause and the number of bytes that had
not been read when it showed, so that its line and column can be counted in the text.
-/

namespace EventPost.Json

open Text (Bytes)
open Numeral (decimalText)

inductive Found
  | null
  | boolean (value : Bool)
  | number (value : Number)
  | text (value : String)
  | list
  | object
  deriving Repr

def Found.describe : Found → String
  | .null => "null"
  | .boolean b => "boolean `" ++ String.ofList (writeBoolean b) ++ "`"
  | .number (.integer i h) =>
    "integer `" ++ String.ofList (Number.write (.integer i h)) ++ "`"
  | .number (.real x) => "floating point `" ++ String.ofList (Number.write (.real x)) ++ "`"
  | .text s => "string " ++ Text.quote s
  | .list => "sequence"
  | .object => "map"

inductive Cause
  | endInValue
  | endInList
  | endInObject
  | endInText
  | expectedColon
  | expectedItemEnd
  | expectedMemberEnd
  | expectedWord
  | expectedValue
  | invalidEscape
  | invalidNumber
  | numberOutOfRange
  | invalidCodePoint
  | controlCharacter
  | keyNotText
  | loneSurrogate
  | unfinishedSurrogate
  | trailingComma
  | trailingText
  | tooDeep
  | wrongType (found : Found) (expected : String)
  | wrongValue (found : Found) (expected : String)
  | wrongLength (length : Nat) (expected : String)
  | missingField (name : String)
  | duplicateField (name : String)
  deriving Repr

def Cause.message : Cause → String
  | .endInValue => "EOF while parsing a value"
  | .endInList => "EOF while parsing a list"
  | .endInObject => "EOF while parsing an object"
  | .endInText => "EOF while parsing a string"
  | .expectedColon => "expected `:`"
  | .expectedItemEnd => "expected `,` or `]`"
  | .expectedMemberEnd => "expected `,` or `\x7d`"
  | .expectedWord => "expected ident"
  | .expectedValue => "expected value"
  | .invalidEscape => "invalid escape"
  | .invalidNumber => "invalid number"
  | .numberOutOfRange => "number out of range"
  | .invalidCodePoint => "invalid unicode code point"
  | .controlCharacter => "control character (\\u0000-\\u001F) found while parsing a string"
  | .keyNotText => "key must be a string"
  | .loneSurrogate => "lone leading surrogate in hex escape"
  | .unfinishedSurrogate => "unexpected end of hex escape"
  | .trailingComma => "trailing comma"
  | .trailingText => "trailing characters"
  | .tooDeep => "recursion limit exceeded"
  | .wrongType found expected => "invalid type: " ++ found.describe ++ ", expected " ++ expected
  | .wrongValue found expected => "invalid value: " ++ found.describe ++ ", expected " ++ expected
  | .wrongLength n expected => "invalid length " ++ decimalText n ++ ", expected " ++ expected
  | .missingField name => "missing field `" ++ name ++ "`"
  | .duplicateField name => "duplicate field `" ++ name ++ "`"

structure Fault where
  cause : Cause
  unread : Nat
  deriving Repr

/-- Lines count from one; the column is the number of bytes read of the line. -/
structure Position where
  line : Nat
  column : Nat
  deriving DecidableEq, Repr

def Position.step (p : Position) (b : UInt8) : Position :=
  if b = 0x0a then ⟨p.line + 1, 0⟩ else ⟨p.line, p.column + 1⟩

def Position.after (consumed : Bytes) : Position := consumed.foldl step ⟨1, 0⟩

def Fault.position (f : Fault) (text : Bytes) : Position :=
  Position.after (text.take (text.length - f.unread))

def Fault.message (f : Fault) (text : Bytes) : String :=
  let p := f.position text
  f.cause.message ++ " at line " ++ decimalText p.line ++ " column " ++ decimalText p.column

abbrev Reading (α : Type) := Except Fault (α × Bytes)

/-- A fault that shows after everything before `rest` has been read. -/
def fail {α : Type} (cause : Cause) (rest : Bytes) : Except Fault α :=
  .error ⟨cause, rest.length⟩

/-- A fault at the next byte, which counts as read if there is one. -/
def failAt {α : Type} (cause : Cause) (rest : Bytes) : Except Fault α :=
  .error ⟨cause, rest.length - 1⟩

end EventPost.Json
