import EventPost.Text.Utf8

/-!
Compressed data, in blocks: stored bytes, or literals and references to what has come before, in
prefix codes that are fixed or come with the block. A code is given by the lengths of its words
alone: words of one length are consecutive numbers, in the order of what they stand for.
-/

namespace EventPost.Gzip

open Text (Bytes)

inductive Fault
  | badHeader
  | corrupt
  | badChecksum
  | truncated
  deriving DecidableEq, Repr

def Fault.message : Fault → String
  | .badHeader => "invalid gzip header"
  | .corrupt => "corrupt deflate stream"
  | .badChecksum => "corrupt gzip stream does not have a matching checksum"
  | .truncated => "unexpected end of file"

/-- Bytes from which bits are taken, the lowest of each byte first. -/
structure Bits where
  rest : Bytes
  /-- The bits of the first byte that have been taken. -/
  used : Nat

namespace Bits

def ofBytes (bs : Bytes) : Bits := ⟨bs, 0⟩

def bit (s : Bits) : Except Fault (Nat × Bits) :=
  match s.rest with
  | [] => .error .truncated
  | b :: bs =>
    .ok ((b.toNat.testBit s.used).toNat, if s.used = 7 then ⟨bs, 0⟩ else ⟨b :: bs, s.used + 1⟩)

def number (s : Bits) : (n : Nat) → Except Fault (Nat × Bits)
  | 0 => .ok (0, s)
  | n + 1 =>
    match s.bit with
    | .error e => .error e
    | .ok (b, s) => (s.number n).map fun (k, s) => (b + 2 * k, s)

def bytes (s : Bits) : Bytes := if s.used = 0 then s.rest else s.rest.drop 1

end Bits

/-- A prefix code: how many words there are of each length from one on, and what the words stand
for, shortest first. -/
structure Code where
  counts : List Nat
  symbols : Array Nat

namespace Code

def maxLength : Nat := 15

/-- The code whose word for `i` has the length at `i`; a length of zero means that there is none. -/
def ofLengths (lengths : List Nat) : Code :=
  let ls := (List.range maxLength).map (· + 1)
  { counts := ls.map fun l => lengths.count l
    symbols := (ls.flatMap fun l => (lengths.zipIdx.filter (·.1 = l)).map (·.2)).toArray }

/-- Whether words of these lengths can be told apart: no more of them than there is room for. -/
def roomLeft (c : Code) : Option Nat :=
  c.counts.foldl (fun room n => room.bind fun r => if n ≤ 2 * r then some (2 * r - n) else none)
    (some 1)

/-- Takes bits until they are a word. `first` is the first word of the length so far, and `index`
its place among the symbols. -/
def decodeFrom (symbols : Array Nat) : (counts : List Nat) → (word first index : Nat) → Bits →
    Except Fault (Nat × Bits)
  | [], _, _, _, _ => .error .corrupt
  | n :: counts, word, first, index, s =>
    match s.bit with
    | .error e => .error e
    | .ok (b, s) =>
      let word := 2 * word + b
      let first := 2 * first
      if word < first + n then .ok (symbols.getD (index + (word - first)) 0, s)
      else decodeFrom symbols counts word (first + n) (index + n) s

def decode (c : Code) (s : Bits) : Except Fault (Nat × Bits) :=
  decodeFrom c.symbols c.counts 0 0 0 s

end Code

def fixedLengths : List Nat :=
  List.replicate 144 8 ++ List.replicate 112 9 ++ List.replicate 24 7 ++ List.replicate 8 8

def fixedDistances : List Nat := List.replicate 30 5

def lengthBases : Array (Nat × Nat) := #[
  (3, 0), (4, 0), (5, 0), (6, 0), (7, 0), (8, 0), (9, 0), (10, 0), (11, 1), (13, 1), (15, 1),
  (17, 1), (19, 2), (23, 2), (27, 2), (31, 2), (35, 3), (43, 3), (51, 3), (59, 3), (67, 4),
  (83, 4), (99, 4), (115, 4), (131, 5), (163, 5), (195, 5), (227, 5), (258, 0)]

def distanceBases : Array (Nat × Nat) := #[
  (1, 0), (2, 0), (3, 0), (4, 0), (5, 1), (7, 1), (9, 2), (13, 2), (17, 3), (25, 3), (33, 4),
  (49, 4), (65, 5), (97, 5), (129, 6), (193, 6), (257, 7), (385, 7), (513, 8), (769, 8),
  (1025, 9), (1537, 9), (2049, 10), (3073, 10), (4097, 11), (6145, 11), (8193, 12), (12289, 12),
  (16385, 13), (24577, 13)]

def scaled (bases : Array (Nat × Nat)) (symbol : Nat) (s : Bits) : Except Fault (Nat × Bits) :=
  match bases[symbol]? with
  | none => .error .corrupt
  | some (base, extra) => (s.number extra).map fun (k, s) => (base + k, s)

def copy (distance : Nat) : (n : Nat) → Array UInt8 → Array UInt8
  | 0, out => out
  | n + 1, out => copy distance n (out.push (out.getD (out.size - distance) 0))

def inflateCoded (lengths distances : Code) : (fuel : Nat) → Array UInt8 → Bits →
    Except Fault (Array UInt8 × Bits)
  | 0, _, _ => .error .truncated
  | fuel + 1, out, s =>
    match lengths.decode s with
    | .error e => .error e
    | .ok (symbol, s) =>
      if symbol < 256 then inflateCoded lengths distances fuel (out.push symbol.toUInt8) s
      else if symbol = 256 then .ok (out, s)
      else
        match scaled lengthBases (symbol - 257) s with
        | .error e => .error e
        | .ok (length, s) =>
          match distances.decode s with
          | .error e => .error e
          | .ok (symbol, s) =>
            match scaled distanceBases symbol s with
            | .error e => .error e
            | .ok (distance, s) =>
              if out.size < distance then .error .corrupt
              else inflateCoded lengths distances fuel (copy distance length out) s

def inflateStored (out : Array UInt8) (s : Bits) : Except Fault (Array UInt8 × Bits) :=
  match s.bytes with
  | a :: b :: c :: d :: rest =>
    let n := a.toNat + 256 * b.toNat
    if n + (c.toNat + 256 * d.toNat) ≠ 0xffff then .error .corrupt
    else if rest.length < n then .error .truncated
    else .ok (out ++ rest.take n, .ofBytes (rest.drop n))
  | _ => .error .truncated

def lengthOrder : List Nat := [16, 17, 18, 0, 8, 7, 9, 6, 10, 5, 11, 4, 12, 3, 13, 2, 14, 1, 15]

def numbers (width : Nat) : (n : Nat) → Bits → Except Fault (List Nat × Bits)
  | 0, s => .ok ([], s)
  | n + 1, s =>
    match s.number width with
    | .error e => .error e
    | .ok (k, s) => (numbers width n s).map fun (ks, s) => (k :: ks, s)

/-- Code lengths, in reverse, until there are `total`. Some symbols repeat the last length, or
zero. -/
def readLengths (code : Code) (total : Nat) : (fuel : Nat) → List Nat → Bits →
    Except Fault (List Nat × Bits)
  | 0, _, _ => .error .corrupt
  | fuel + 1, seen, s =>
    if total < seen.length then .error .corrupt
    else if seen.length = total then .ok (seen, s)
    else
      match code.decode s with
      | .error e => .error e
      | .ok (symbol, s) =>
        if symbol < 16 then readLengths code total fuel (symbol :: seen) s
        else
          let (least, width) :=
            if symbol = 16 then (3, 2) else if symbol = 17 then (3, 3) else (11, 7)
          match s.number width with
          | .error e => .error e
          | .ok (k, s) =>
            if symbol = 16 then
              match seen with
              | [] => .error .corrupt
              | l :: _ => readLengths code total fuel (List.replicate (least + k) l ++ seen) s
            else readLengths code total fuel (List.replicate (least + k) 0 ++ seen) s

def readCodes (s : Bits) : Except Fault ((Code × Code) × Bits) := do
  let (n, s) ← s.number 5
  let (m, s) ← s.number 5
  let (k, s) ← s.number 4
  let (ls, s) ← numbers 3 (k + 4) s
  let given := lengthOrder.zip ls
  let code := Code.ofLengths ((List.range 19).map fun i => (given.lookup i).getD 0)
  let (seen, s) ← readLengths code (n + 257 + (m + 1)) (n + m + 260) [] s
  let ls := seen.reverse
  let lengths := Code.ofLengths (ls.take (n + 257))
  let distances := Code.ofLengths (ls.drop (n + 257))
  if lengths.roomLeft.isNone || distances.roomLeft.isNone then throw .corrupt
  return ((lengths, distances), s)

def inflateBlocks : (fuel : Nat) → Array UInt8 → Bits → Except Fault (Array UInt8 × Bits)
  | 0, _, _ => .error .truncated
  | fuel + 1, out, s => do
    let (last, s) ← s.bit
    let (kind, s) ← s.number 2
    let steps := 8 * s.rest.length + 1
    let (out, s) ←
      if kind = 0 then inflateStored out s
      else if kind = 1 then
        inflateCoded (.ofLengths fixedLengths) (.ofLengths fixedDistances) steps out s
      else if kind = 2 then do
        let ((lengths, distances), s) ← readCodes s
        inflateCoded lengths distances steps out s
      else throw .corrupt
    if last = 1 then return (out, s) else inflateBlocks fuel out s

def inflate (bs : Bytes) : Except Fault (Array UInt8 × Bytes) :=
  (inflateBlocks (8 * bs.length + 1) #[] (.ofBytes bs)).map fun (out, s) => (out, s.bytes)

end EventPost.Gzip
