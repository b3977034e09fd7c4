/-!
Finite binary floating-point numbers of 64 bits, in exact arithmetic. A number is a sign and
`mantissa * 2 ^ exponent`; `ofRatio` is the nearest one to a quotient, the even one of two that are
equally near, and products and quotients are rounded in the same way.
-/

namespace EventPost.Numeral

abbrev leastFull : Nat := 0x10000000000000

abbrev Canonical (mantissa : Nat) (exponent : Int) : Prop :=
  (leastFull ≤ mantissa ∧ mantissa < 2 * leastFull ∧ -1074 ≤ exponent ∧ exponent ≤ 971) ∨
    (mantissa < leastFull ∧ exponent = -1074)

structure Binary64 where
  negative : Bool
  mantissa : Nat
  exponent : Int
  canonical : Canonical mantissa exponent
  deriving DecidableEq, Repr

namespace Binary64

def zero (negative : Bool) : Binary64 := ⟨negative, 0, -1074, by decide⟩

def isZero (x : Binary64) : Bool := x.mantissa == 0

def negate (x : Binary64) : Binary64 := { x with negative := !x.negative }

def roundEven (n d : Nat) : Nat :=
  let k := n / d
  let r := n % d
  if 2 * r < d then k else if d < 2 * r then k + 1 else k + k % 2

/-- The exponent at which the quotient has a mantissa of 53 bits, or the lowest exponent. -/
def scaleOf (n d : Nat) : Int :=
  let q : Int := (Nat.log2 n : Int) - Nat.log2 d - 52
  let q := if n * Nat.pow 2 (-q).toNat < leastFull * (d * Nat.pow 2 q.toNat) then q - 1 else q
  max q (-1074)

def make? (negative : Bool) (m : Nat) (q : Int) : Option Binary64 :=
  if h : Canonical m q then some ⟨negative, m, q, h⟩ else none

/-- The number nearest to `n / d`, if one is that large. -/
def ofRatio (negative : Bool) (n d : Nat) : Option Binary64 :=
  let q := scaleOf n d
  let m := roundEven (n * Nat.pow 2 (-q).toNat) (d * Nat.pow 2 q.toNat)
  if n = 0 then some (zero negative)
  else if m = 2 * leastFull then make? negative leastFull (q + 1)
  else make? negative m q

def mul? (x y : Binary64) : Option Binary64 :=
  let q := x.exponent + y.exponent
  ofRatio (x.negative != y.negative) (x.mantissa * y.mantissa * Nat.pow 2 q.toNat)
    (Nat.pow 2 (-q).toNat)

def div? (x y : Binary64) : Option Binary64 :=
  let q := x.exponent - y.exponent
  ofRatio (x.negative != y.negative) (x.mantissa * Nat.pow 2 q.toNat)
    (y.mantissa * Nat.pow 2 (-q).toNat)

def ofNat? (n : Nat) : Option Binary64 := ofRatio false n 1

def maxTenPower : Nat := 308

def tenPower? (k : Nat) : Option Binary64 := ofNat? (Nat.pow 10 k)

/-- `x * 10 ^ e`, rounded at each step: powers below the least are divided off `10 ^ 308` at a
time, so a number may be rounded more than once. -/
def scaleTen (x : Binary64) (e : Int) : Option Binary64 :=
  if e.natAbs ≤ maxTenPower then do
    let p ← tenPower? e.natAbs
    if 0 ≤ e then x.mul? p else x.div? p
  else if x.isZero then some x
  else if 0 ≤ e then none
  else do
    let p ← tenPower? maxTenPower
    let y ← x.div? p
    scaleTen y (e + maxTenPower)
termination_by e.natAbs
decreasing_by simp only [maxTenPower] at *; omega

/-- The number nearest to `n * 10 ^ e`, rounded once. -/
def ofDecimal (negative : Bool) (n : Nat) (e : Int) : Option Binary64 :=
  ofRatio negative (n * Nat.pow 10 e.toNat) (Nat.pow 10 (-e).toNat)

end Binary64

end EventPost.Numeral
