import EventPost.Numeral.Binary64
import EventPost.Numeral.Decimal

/-!
The shortest decimal of a binary number: the fewest digits that read back as it, of those the
nearest to it, of two that are equally near the even one. `FloatLayout` says how the digits are
set out.
-/

namespace EventPost.Numeral

def leadingPower (n d : Nat) : Int :=
  if d ≤ n then ((decimal (n / d)).length : Int) - 1
  else -((decimal ((d - 1) / n)).length : Int)

/-- The reals that round to a number, as numerators over one denominator: the number itself, the two
ends, and whether the ends belong to them. -/
structure Interval where
  value : Nat
  low : Nat
  high : Nat
  closed : Bool
  denominator : Nat
  deriving Repr

/-- The next lower number is half as far as the next higher one where the mantissa is least. -/
def Binary64.interval (x : Binary64) : Interval :=
  let below := if x.mantissa = leastFull ∧ x.exponent ≠ -1074 then 1 else 2
  let q := x.exponent - 2
  let scale := Nat.pow 2 q.toNat
  { value := 4 * x.mantissa * scale
    low := (4 * x.mantissa - below) * scale
    high := (4 * x.mantissa + 2) * scale
    closed := x.mantissa % 2 == 0
    denominator := Nat.pow 2 (-q).toNat }

def Interval.holds (i : Interval) (k : Nat) (p : Int) : Bool :=
  let n := k * Nat.pow 10 p.toNat * i.denominator
  let unit := Nat.pow 10 (-p).toNat
  if i.closed then i.low * unit ≤ n && n ≤ i.high * unit
  else i.low * unit < n && n < i.high * unit

/-- The neighbours of the value on the grid of multiples of `10 ^ p`, as far as they lie in the
interval; the nearer one if both do. -/
def Interval.onGrid? (i : Interval) (p : Int) : Option Nat :=
  let n := i.value * Nat.pow 10 (-p).toNat
  let d := i.denominator * Nat.pow 10 p.toNat
  let k := n / d
  match i.holds k p, i.holds (k + 1) p with
  | true, true => some (Binary64.roundEven n d)
  | true, false => some k
  | false, true => some (k + 1)
  | false, false => none

def Interval.search (i : Interval) (lead : Int) : Nat → Nat → Nat × Int
  | 0, count => (i.value * Nat.pow 10 (count : Int).toNat / i.denominator, 0)
  | tries + 1, count =>
    let p := lead - count
    match i.onGrid? p with
    | some k => (k, p)
    | none => i.search lead tries (count + 1)

def dropZeros (k : Nat) (p : Int) : Nat → Nat × Int
  | 0 => (k, p)
  | n + 1 => if k % 10 = 0 then dropZeros (k / 10) (p + 1) n else (k, p)

def Binary64.shortest (x : Binary64) : Nat × Int :=
  let i := x.interval
  let (k, p) := i.search (leadingPower i.value i.denominator) 17 0
  dropZeros k p 17

/-- Between `low` and `high`, the leading digit's power is written out with zeros; elsewhere it
follows an `e`, with a plus sign if `plus`. -/
structure FloatLayout where
  low : Int
  high : Int
  plus : Bool

def FloatLayout.digits (l : FloatLayout) (k : Nat) (p : Int) : List Char :=
  let ds := decimal k
  let lead := p + ds.length - 1
  if l.low ≤ lead ∧ lead ≤ l.high then
    if 0 ≤ p then ds ++ List.replicate p.toNat '0' ++ ['.', '0']
    else if 0 ≤ lead then ds.take (lead + 1).toNat ++ ['.'] ++ ds.drop (lead + 1).toNat
    else ['0', '.'] ++ List.replicate (-lead - 1).toNat '0' ++ ds
  else
    let fraction := if ds.length = 1 then [] else '.' :: ds.drop 1
    let sign := if lead < 0 then ['-'] else if l.plus then ['+'] else []
    ds.take 1 ++ fraction ++ ['e'] ++ sign ++ decimal lead.natAbs

def FloatLayout.write (l : FloatLayout) (x : Binary64) : List Char :=
  (if x.negative then ['-'] else []) ++
    if x.isZero then ['0', '.', '0'] else l.digits x.shortest.1 x.shortest.2

def plainLayout : FloatLayout := ⟨-400, 400, false⟩

end EventPost.Numeral
