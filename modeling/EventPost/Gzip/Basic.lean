import EventPost.Gzip.Inflate

/-!
Files of compressed data, one or more behind each other. Each has a header, which may carry names
and comments, and ends with a checksum and the length of what it stands for.
-/

namespace EventPost.Gzip

open Text (Bytes)

def checksumStep (crc : Nat) : Nat :=
  if crc % 2 = 1 then (crc / 2).xor 0xedb88320 else crc / 2

def checksumByte (crc : Nat) (b : UInt8) : Nat :=
  (List.range 8).foldl (fun c _ => checksumStep c) (crc.xor b.toNat)

def checksum (bs : Array UInt8) : Nat := (bs.foldl checksumByte 0xffffffff).xor 0xffffffff

def littleEndian (bs : Bytes) : Nat := bs.foldr (fun b n => b.toNat + 256 * n) 0

def takeExact (n : Nat) (bs : Bytes) : Except Fault (Bytes × Bytes) :=
  let taken := bs.take n
  if taken.length < n then .error .truncated else .ok (taken, bs.drop n)

def skipText (bs : Bytes) : Except Fault Bytes :=
  match bs.dropWhile (· != 0) with
  | [] => .error .truncated
  | _ :: rest => .ok rest

def hasFlag (flags : UInt8) (bit : Nat) : Bool := flags.toNat.testBit bit

def skipHeader (bs : Bytes) : Except Fault Bytes := do
  let (fixed, bs) ← takeExact 10 bs
  if fixed.take 3 ≠ [0x1f, 0x8b, 8] then throw .badHeader
  let flags := fixed.getD 3 0
  if 0x20 ≤ flags then throw .badHeader
  let bs ← if hasFlag flags 2 then do
      let (n, bs) ← takeExact 2 bs
      pure (← takeExact (littleEndian n) bs).2
    else pure bs
  let bs ← if hasFlag flags 3 then skipText bs else pure bs
  let bs ← if hasFlag flags 4 then skipText bs else pure bs
  if hasFlag flags 1 then return (← takeExact 2 bs).2
  return bs

def unpackOne (bs : Bytes) : Except Fault (Array UInt8 × Bytes) := do
  let (out, bs) ← inflate (← skipHeader bs)
  let (sum, bs) ← takeExact 4 bs
  let (size, bs) ← takeExact 4 bs
  if littleEndian sum ≠ checksum out || littleEndian size ≠ out.size % 0x100000000 then
    throw .badChecksum
  return (out, bs)

def unpackAll : (fuel : Nat) → Bytes → Except Fault (List Bytes)
  | 0, _ => .ok []
  | fuel + 1, bs =>
    match unpackOne bs with
    | .error e => .error e
    | .ok (out, []) => .ok [out.toList]
    | .ok (out, rest) => (unpackAll fuel rest).map (out.toList :: ·)

def unpack (bs : Bytes) : Except Fault Bytes := (unpackAll (bs.length + 1) bs).map List.flatten

end EventPost.Gzip
