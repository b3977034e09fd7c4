import EventPost.Json.Basic
import EventPost.Numeral.Shortest
import EventPost.Text.Quoted

/-!
JSON as text. `compact` has no space outside a string, `pretty` sets every item and member on a line
of its own, two spaces deeper than what holds it; both write the same tokens.
-/

namespace EventPost.Json

open Numeral (decimal)

def floatLayout : EventPost.Numeral.FloatLayout := ⟨-5, 15, true⟩

def Number.write : Number → List Char
  | .integer i _ => if i < 0 then '-' :: decimal i.natAbs else decimal i.natAbs
  | .real x => floatLayout.write x

def escapeChar (c : Char) : List Char :=
  if c = '"' then ['\\', '"']
  else if c = '\\' then ['\\', '\\']
  else if c = '\x08' then ['\\', 'b']
  else if c = '\t' then ['\\', 't']
  else if c = '\n' then ['\\', 'n']
  else if c = '\x0c' then ['\\', 'f']
  else if c = '\r' then ['\\', 'r']
  else if c.toNat < 0x20 then
    ['\\', 'u', '0', '0', Text.hexDigit (c.toNat / 16), Text.hexDigit c.toNat]
  else [c]

def writeText (s : String) : List Char := '"' :: s.toList.flatMap escapeChar ++ ['"']

def writeBoolean (b : Bool) : List Char := if b then "true".toList else "false".toList

mutual
def write : Json → List Char
  | .null => "null".toList
  | .boolean b => writeBoolean b
  | .number n => n.write
  | .text s => writeText s
  | .list [] => ['[', ']']
  | .list (v :: vs) => '[' :: write v ++ writeItems vs ++ [']']
  | .object [] => ['{', '}']
  | .object ((k, v) :: ms) => '{' :: writeText k ++ [':'] ++ write v ++ writeMembers ms ++ ['}']

def writeItems : List Json → List Char
  | [] => []
  | v :: vs => ',' :: write v ++ writeItems vs

def writeMembers : List (String × Json) → List Char
  | [] => []
  | (k, v) :: ms => ',' :: writeText k ++ [':'] ++ write v ++ writeMembers ms
end

def lineAt (depth : Nat) : List Char := '\n' :: List.replicate (2 * depth) ' '

mutual
def writePretty (depth : Nat) : Json → List Char
  | .null => "null".toList
  | .boolean b => writeBoolean b
  | .number n => n.write
  | .text s => writeText s
  | .list [] => ['[', ']']
  | .list (v :: vs) =>
    '[' :: lineAt (depth + 1) ++ writePretty (depth + 1) v ++ writePrettyItems depth vs
      ++ lineAt depth ++ [']']
  | .object [] => ['{', '}']
  | .object ((k, v) :: ms) =>
    '{' :: lineAt (depth + 1) ++ writeText k ++ [':', ' '] ++ writePretty (depth + 1) v
      ++ writePrettyMembers depth ms ++ lineAt depth ++ ['}']

def writePrettyItems (depth : Nat) : List Json → List Char
  | [] => []
  | v :: vs =>
    ',' :: lineAt (depth + 1) ++ writePretty (depth + 1) v ++ writePrettyItems depth vs

def writePrettyMembers (depth : Nat) : List (String × Json) → List Char
  | [] => []
  | (k, v) :: ms =>
    ',' :: lineAt (depth + 1) ++ writeText k ++ [':', ' '] ++ writePretty (depth + 1) v
      ++ writePrettyMembers depth ms
end

def compact (v : Json) : String := String.ofList v.write

def pretty (v : Json) : String := String.ofList (v.writePretty 0)

end EventPost.Json
