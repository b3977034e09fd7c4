/-!
Natural numbers as digits. `decimal` writes one, and `readUnsigned` reads one in a given base up
to a limit, saying why a text is not such a number.
-/

namespace EventPost.Numeral

def decimal (n : Nat) : List Char := Nat.toDigits 10 n

def decimalText (n : Nat) : String := String.ofList (decimal n)

def signedText (i : Int) : String :=
  if i < 0 then "-" ++ decimalText i.natAbs else decimalText i.natAbs

def padded (width n : Nat) : List Char :=
  List.replicate (width - (decimal n).length) '0' ++ decimal n

def digitValue? (base : Nat) (c : Char) : Option Nat :=
  let v :=
    if '0' ≤ c ∧ c ≤ '9' then c.toNat - '0'.toNat
    else if 'a' ≤ c ∧ c ≤ 'z' then c.toNat - 'a'.toNat + 10
    else if 'A' ≤ c ∧ c ≤ 'Z' then c.toNat - 'A'.toNat + 10
    else base
  if v < base then some v else none

inductive DigitFault
  | empty
  | invalid
  | overflow
  deriving DecidableEq, Repr

def DigitFault.message : DigitFault → String
  | .empty => "cannot parse integer from empty string"
  | .invalid => "invalid digit found in string"
  | .overflow => "number too large to fit in target type"

/-- Reads digits onto `acc`. The first character that is no digit, or that takes the number past
`limit`, ends the reading. -/
def readOnto (base limit : Nat) : Nat → List Char → Except DigitFault Nat
  | acc, [] => .ok acc
  | acc, c :: cs =>
    match digitValue? base c with
    | none => .error .invalid
    | some d =>
      if base * acc + d ≤ limit then readOnto base limit (base * acc + d) cs
      else .error .overflow

/-- One plus sign may stand before the digits. -/
def readUnsigned (base limit : Nat) : List Char → Except DigitFault Nat
  | [] => .error .empty
  | ['+'] => .error .invalid
  | '+' :: cs => readOnto base limit 0 cs
  | cs => readOnto base limit 0 cs

def readSigned? (base limit : Nat) : List Char → Option Int
  | '-' :: cs =>
    if cs.isEmpty then none
    else (readOnto base (limit + 1) 0 cs).toOption.map fun n => -(n : Int)
  | cs => (readUnsigned base limit cs).toOption.map Int.ofNat

theorem readOnto_le {base limit acc n : Nat} {cs : List Char} (h : acc ≤ limit)
    (ok : readOnto base limit acc cs = .ok n) : n ≤ limit := by
  induction cs generalizing acc with
  | nil => simp only [readOnto, Except.ok.injEq] at ok; omega
  | cons c cs ih =>
    simp only [readOnto] at ok
    split at ok
    · simp at ok
    · split at ok
      · exact ih ‹_› ok
      · simp at ok

theorem readUnsigned_le {base limit n : Nat} {cs : List Char}
    (ok : readUnsigned base limit cs = .ok n) : n ≤ limit := by
  unfold readUnsigned at ok
  split at ok
  · simp at ok
  · simp at ok
  · exact readOnto_le (Nat.zero_le _) ok
  · exact readOnto_le (Nat.zero_le _) ok

def maxWord : Nat := 0xffffffffffffffff

def readWord (cs : List Char) : Except DigitFault UInt64 :=
  (readUnsigned 10 maxWord cs).map UInt64.ofNat

end EventPost.Numeral
