/-!
Text as bytes. `encode` writes each character in its one UTF-8 form, and `decodeChar` takes the
first character off a sequence of bytes, or the longest run that begins a character and does not
finish it. Two readers are built on it: `decode?` refuses such runs, `decodeLossy` replaces each
by U+FFFD.
-/

namespace EventPost.Text

abbrev Bytes := List UInt8

def encode (cs : List Char) : Bytes := cs.flatMap String.utf8EncodeChar

def bytesOf (s : String) : Bytes := encode s.toList

/-- Length of the longest prefix that could begin a character, for the first byte of one: how many
bytes follow it, and the range of the first of them. -/
def leadShape (b : UInt8) : Option (Nat × UInt8 × UInt8) :=
  if 0xc2 ≤ b && b ≤ 0xdf then some (1, 0x80, 0xbf)
  else if b = 0xe0 then some (2, 0xa0, 0xbf)
  else if b = 0xed then some (2, 0x80, 0x9f)
  else if 0xe1 ≤ b && b ≤ 0xef then some (2, 0x80, 0xbf)
  else if b = 0xf0 then some (3, 0x90, 0xbf)
  else if 0xf1 ≤ b && b ≤ 0xf3 then some (3, 0x80, 0xbf)
  else if b = 0xf4 then some (3, 0x80, 0x8f)
  else none

def leadBits (b : UInt8) : Nat :=
  if b < 0xe0 then b.toNat % 32 else if b < 0xf0 then b.toNat % 16 else b.toNat % 8

def continuation : Nat → UInt8 → UInt8 → Nat → Bytes → Option Char × Bytes
  | 0, _, _, acc, bs => (some (Char.ofNat acc), bs)
  | _ + 1, _, _, _, [] => (none, [])
  | n + 1, lo, hi, acc, b :: bs =>
    if lo ≤ b && b ≤ hi then continuation n 0x80 0xbf (acc * 64 + b.toNat % 64) bs
    else (none, b :: bs)

/-- The first character and what follows it, or `none` and what follows the broken run. -/
def decodeChar (b : UInt8) (bs : Bytes) : Option Char × Bytes :=
  if b < 0x80 then (some (Char.ofNat b.toNat), bs)
  else match leadShape b with
    | none => (none, bs)
    | some (n, lo, hi) => continuation n lo hi (leadBits b) bs

theorem length_continuation_le (n : Nat) (lo hi : UInt8) (acc : Nat) (bs : Bytes) :
    (continuation n lo hi acc bs).2.length ≤ bs.length := by
  fun_induction continuation n lo hi acc bs with
  | case1 => simp
  | case2 => simp
  | case3 n lo hi acc b bs _ ih => simp only [List.length_cons]; omega
  | case4 => simp

theorem length_decodeChar_le (b : UInt8) (bs : Bytes) :
    (decodeChar b bs).2.length ≤ bs.length := by
  unfold decodeChar
  split
  · simp
  · split
    · simp
    · exact length_continuation_le ..

def decodeOnto (acc : List (Option Char)) : Bytes → List (Option Char)
  | [] => acc
  | b :: bs => decodeOnto ((decodeChar b bs).1 :: acc) (decodeChar b bs).2
termination_by bs => bs.length
decreasing_by
  have := length_decodeChar_le b bs
  simp only [List.length_cons]; omega

def decodeEach (bs : Bytes) : List (Option Char) := (decodeOnto [] bs).reverse

def decode? (bs : Bytes) : Option (List Char) :=
  let cs := decodeEach bs
  if cs.all Option.isSome then some (cs.filterMap id) else none

def decodeLossy (bs : Bytes) : String :=
  String.ofList ((decodeEach bs).map (·.getD '\uFFFD'))

def decodeString? (bs : Bytes) : Option String := (decode? bs).map String.ofList

end EventPost.Text
