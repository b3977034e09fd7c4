/-!
Text in colours, by the escape sequences of terminals. Where the text itself ends all colours, its
own colour is set again.
-/

namespace EventPost.Text

inductive Colour
  | red
  | green
  | blue
  | cyan
  deriving DecidableEq, Repr

def Colour.code : Colour → List Char
  | .red => "\x1b[31m".toList
  | .green => "\x1b[32m".toList
  | .blue => "\x1b[34m".toList
  | .cyan => "\x1b[36m".toList

def resetCode : List Char := "\x1b[0m".toList

/-- Puts `code` behind every reset in the text. -/
def renew (code : List Char) : List Char → List Char
  | '\x1b' :: '[' :: '0' :: 'm' :: cs => resetCode ++ code ++ renew code cs
  | c :: cs => c :: renew code cs
  | [] => []

def paint (coloured : Bool) (colour : Colour) (s : String) : String :=
  if coloured then
    String.ofList (colour.code ++ renew colour.code s.toList ++ resetCode)
  else s

end EventPost.Text
