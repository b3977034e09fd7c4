import EventPost.Numeral.Binary64

/-!
JSON values. Integers that fit 64 bits stay integers; every other number is a binary floating-point
number. The members of an object are kept in the order of their keys, one value per key.
-/

namespace EventPost

open Numeral (Binary64)

namespace Json

abbrev Fits (i : Int) : Prop := -0x8000000000000000 ≤ i ∧ i ≤ 0xffffffffffffffff

inductive Number
  | integer (value : Int) (fits : Fits value)
  | real (value : Binary64)
  deriving DecidableEq, Repr

end Json

inductive Json
  | null
  | boolean (value : Bool)
  | number (value : Json.Number)
  | text (value : String)
  | list (items : List Json)
  | object (members : List (String × Json))
  deriving BEq, Repr

namespace Json

theorem fits_toNat (n : UInt64) : Fits n.toNat := by
  have := n.toNat_lt
  constructor <;> omega

def ofWord (n : UInt64) : Json := .number (.integer n.toNat (fits_toNat n))

def putMember (key : String) (value : Json) : List (String × Json) → List (String × Json)
  | [] => [(key, value)]
  | (k, v) :: rest =>
    if key = k then (key, value) :: rest
    else if key < k then (key, value) :: (k, v) :: rest
    else (k, v) :: putMember key value rest

/-- The last value of a repeated key counts. -/
def ofMembers (members : List (String × Json)) : Json :=
  .object (members.foldl (fun ms e => putMember e.1 e.2 ms) [])

def textList (ss : List String) : Json := .list (ss.map .text)

end Json

end EventPost
