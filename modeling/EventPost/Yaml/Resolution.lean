import EventPost.Json.Writer
import EventPost.Numeral.Decimal
import EventPost.Numeral.Shortest
import EventPost.Yaml.Event

/-!
What a plain scalar means. The words for nothing and for truth come in three spellings each;
integers are decimal, or have a base before their digits; digits after a leading zero are text;
everything else that is no floating-point number is text too.
-/

namespace EventPost.Yaml

open Numeral (Binary64 readUnsigned readSigned? signedText)

def nothing? (s : String) : Bool := ["null", "Null", "NULL", "~"].contains s

def truth? (s : String) : Option Bool :=
  if ["true", "True", "TRUE"].contains s then some true
  else if ["false", "False", "FALSE"].contains s then some false
  else none

def after? : List Char → List Char → Option (List Char)
  | [], cs => some cs
  | _ :: _, [] => none
  | x :: xs, c :: cs => if x = c then after? xs cs else none

def isSign (c : Char) : Bool := c == '+' || c == '-'

def startsSigned (cs : List Char) : Bool := cs.head?.any isSign

def hasLeadingZero (cs : List Char) : Bool :=
  let ds := if startsSigned cs then cs.drop 1 else cs
  1 < ds.length && ds.head? == some '0' && ds.all Char.isDigit

def bases : List (List Char × Nat) := [(['0', 'x'], 16), (['0', 'o'], 8), (['0', 'b'], 2)]

def basedDigits? (cs : List Char) : Option (Nat × List Char) :=
  bases.findSome? fun (stem, base) => (after? stem cs).map (base, ·)

def unsigned? (limit : Nat) (cs : List Char) : Option Nat :=
  let body := if cs.head? = some '+' then cs.drop 1 else cs
  match basedDigits? body with
  | some (base, ds) => if startsSigned ds then none else (readUnsigned base limit ds).toOption
  | none =>
    if startsSigned body || hasLeadingZero cs then none
    else (readUnsigned 10 limit body).toOption

def signed? (limit : Nat) (cs : List Char) : Option Int :=
  match (after? ['-'] cs).bind basedDigits? with
  | some (base, ds) => readSigned? base limit ('-' :: ds)
  | none => if hasLeadingZero cs then none else readSigned? 10 limit cs

inductive FloatValue
  | finite (x : Binary64)
  | infinite (negative : Bool)
  | notNumber
  deriving DecidableEq, Repr

def FloatValue.text : FloatValue → String
  | .finite x => String.ofList (Numeral.plainLayout.write x)
  | .infinite false => "inf"
  | .infinite true => "-inf"
  | .notNumber => "NaN"

def digitsValue (cs : List Char) : Nat := cs.foldl (fun n c => n * 10 + (c.toNat - '0'.toNat)) 0

/-- The power of ten after the digits of a number: nothing, or a mark and a whole number. -/
def exponent? : List Char → Option Int
  | [] => some 0
  | c :: cs =>
    if c == 'e' || c == 'E' then
      let (negative, ds) := match cs with
        | '-' :: ds => (true, ds)
        | '+' :: ds => (false, ds)
        | ds => (false, ds)
      if ds.isEmpty || !ds.all Char.isDigit then none
      else some (if negative then -(digitsValue ds : Int) else digitsValue ds)
    else none

def farExponent : Int := 400

def decimal? (cs : List Char) : Option Binary64 := do
  let negative := cs.head? == some '-'
  let cs := if startsSigned cs then cs.drop 1 else cs
  let whole := cs.takeWhile Char.isDigit
  let cs := cs.dropWhile Char.isDigit
  let (fraction, cs) :=
    if cs.head? = some '.' then
      ((cs.drop 1).takeWhile Char.isDigit, (cs.drop 1).dropWhile Char.isDigit)
    else ([], cs)
  if whole.isEmpty && fraction.isEmpty then none
  let e ← exponent? cs
  let n := digitsValue (whole ++ fraction)
  let lead : Int := (Numeral.decimal n).length + e - fraction.length
  if n = 0 || lead < -farExponent then some (Binary64.zero negative)
  else if farExponent < lead then none
  else Binary64.ofDecimal negative n (e - fraction.length)

def float? (cs : List Char) : Option FloatValue :=
  let s := String.ofList cs
  let body := if cs.head? = some '+' then cs.drop 1 else cs
  if cs.head? = some '+' ∧ startsSigned body then none
  else if [".inf", ".Inf", ".INF"].contains (String.ofList body) then some (.infinite false)
  else if ["-.inf", "-.Inf", "-.INF"].contains s then some (.infinite true)
  else if [".nan", ".NaN", ".NAN"].contains s then some .notNumber
  else (decimal? body).map .finite

inductive Meaning
  | nothing
  | truth (b : Bool)
  | integer (i : Int)
  | largeUnsigned (n : Nat)
  | largeSigned (i : Int)
  | float (x : FloatValue)
  | text (s : String)
  deriving DecidableEq, Repr

def integerMeaning? (cs : List Char) : Option Meaning :=
  ((unsigned? 0xffffffffffffffff cs).map fun n => Meaning.integer n)
    <|> ((signed? 0x7fffffffffffffff cs).map Meaning.integer)
    <|> ((unsigned? 0xffffffffffffffffffffffffffffffff cs).map Meaning.largeUnsigned)
    <|> ((signed? 0x7fffffffffffffffffffffffffffffff cs).map Meaning.largeSigned)

def floatMeaning? (cs : List Char) : Option Meaning :=
  if hasLeadingZero cs then none else (float? cs).map .float

def meaning (cs : List Char) : Meaning :=
  let s := String.ofList cs
  if cs.isEmpty || nothing? s then .nothing
  else match truth? s with
    | some b => .truth b
    | none => ((integerMeaning? cs) <|> (floatMeaning? cs)).getD (.text s)

def Meaning.describe : Meaning → String
  | .nothing => "unit value"
  | .truth b => "boolean `" ++ String.ofList (Json.writeBoolean b) ++ "`"
  | .integer i => "integer `" ++ signedText i ++ "`"
  | .largeUnsigned n => "integer `" ++ signedText n ++ "` as u128"
  | .largeSigned i => "integer `" ++ signedText i ++ "` as i128"
  | .float x => "floating point `" ++ x.text ++ "`"
  | .text s => "string " ++ Text.quote s

end EventPost.Yaml
