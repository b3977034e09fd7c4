import EventPost.Json.Fault

/-!
The words of a JSON text: literals, numbers and strings, each read off the front of a sequence of
bytes. Digits of an integer are taken up while they fit 64 bits; a longer one continues as a scaled
floating-point number, whose further digits count only for its size.
-/

namespace EventPost.Json

open Text (Bytes)
open Numeral (Binary64 maxWord)

def isJsonBlank (b : UInt8) : Bool := b == 0x20 || b == 0x0a || b == 0x09 || b == 0x0d

def skipBlanks (bs : Bytes) : Bytes := bs.dropWhile isJsonBlank

def isDigit (b : UInt8) : Bool := 0x30 ≤ b && b ≤ 0x39

def digitOf (b : UInt8) : Nat := b.toNat - 0x30

def readWord : Bytes → Bytes → Except Fault Bytes
  | [], bs => .ok bs
  | _ :: _, [] => fail .endInValue []
  | w :: ws, b :: bs => if w = b then readWord ws bs else fail .expectedWord bs

def takeWhole (acc : Nat) : Bytes → Nat × Nat
  | [] => (acc, 0)
  | d :: ds =>
    if 10 * acc + digitOf d ≤ maxWord then takeWhole (10 * acc + digitOf d) ds
    else (acc, ds.length + 1)

def takeFraction (acc : Nat) : Bytes → Nat × Nat
  | [] => (acc, 0)
  | d :: ds =>
    if 10 * acc + digitOf d ≤ maxWord then
      let (n, k) := takeFraction (10 * acc + digitOf d) ds
      (n, k + 1)
    else (acc, 0)

def wholeNumber (negative : Bool) (n : Nat) : Option Number :=
  if negative then
    if n = 0 then some (.real (Binary64.zero true))
    else if h : Fits (-(n : Int)) then some (.integer _ h)
    else ((Binary64.ofNat? n).map Binary64.negate).map .real
  else if h : Fits n then some (.integer _ h)
  else (Binary64.ofNat? n).map .real

def scaledNumber (negative : Bool) (n : Nat) (e : Int) (rest : Bytes) : Reading Number :=
  match (Binary64.ofNat? n).bind (·.scaleTen e) with
  | some x => .ok (.real (if negative then x.negate else x), rest)
  | none => fail .numberOutOfRange rest

/-- The largest exponent that is still counted. -/
def maxExponent : Nat := 0x7fffffff

def takeExponent (acc : Nat) : Bytes → Option Nat × Bytes
  | [] => (some acc, [])
  | b :: bs =>
    if isDigit b then
      if 10 * acc + digitOf b ≤ maxExponent then takeExponent (10 * acc + digitOf b) bs
      else (none, bs)
    else (some acc, b :: bs)

def readExponent (negative : Bool) (n : Nat) (e : Int) (bs : Bytes) : Reading Number :=
  let (up, bs) := match bs with
    | 0x2b :: r => (true, r)
    | 0x2d :: r => (false, r)
    | r => (true, r)
  match bs with
  | [] => fail .endInValue []
  | b :: bs =>
    if isDigit b then
      match takeExponent (digitOf b) bs with
      | (some k, rest) => scaledNumber negative n (if up then e + k else e - k) rest
      | (none, rest) =>
        if n ≠ 0 ∧ up then fail .numberOutOfRange rest
        else .ok (.real (Binary64.zero negative), rest.dropWhile isDigit)
    else fail .invalidNumber bs

def isExponentMark (b : UInt8) : Bool := b == 0x65 || b == 0x45

def readFraction (negative : Bool) (n : Nat) (e : Int) (bs : Bytes) : Reading Number :=
  let digits := bs.takeWhile isDigit
  let rest := bs.dropWhile isDigit
  if digits.isEmpty then
    if bs.isEmpty then failAt .endInValue bs else failAt .invalidNumber bs
  else
    let (n, k) := takeFraction n digits
    match rest with
    | b :: r =>
      if isExponentMark b then readExponent negative n (e - k) r
      else scaledNumber negative n (e - k) rest
    | [] => scaledNumber negative n (e - k) []

def readAfterWhole (negative : Bool) (digits rest : Bytes) : Reading Number :=
  let (n, dropped) := takeWhole 0 digits
  let plain : Reading Number :=
    if dropped = 0 then
      match wholeNumber negative n with
      | some x => .ok (x, rest)
      | none => fail .numberOutOfRange rest
    else scaledNumber negative n dropped rest
  match rest with
  | b :: r =>
    if b = 0x2e then readFraction negative n dropped r
    else if isExponentMark b then readExponent negative n dropped r
    else plain
  | [] => plain

def readNumber (negative : Bool) : Bytes → Reading Number
  | [] => fail .endInValue []
  | b :: bs =>
    if b = 0x30 then
      match bs with
      | d :: _ => if isDigit d then failAt .invalidNumber bs else readAfterWhole negative [b] bs
      | [] => readAfterWhole negative [b] []
    else if isDigit b then
      readAfterWhole negative (b :: bs.takeWhile isDigit) (bs.dropWhile isDigit)
    else fail .invalidNumber bs

def hexValue? (b : UInt8) : Option Nat := Numeral.digitValue? 16 (Char.ofNat b.toNat)

def readUnit : Bytes → Reading Nat
  | a :: b :: c :: d :: rest =>
    match hexValue? a, hexValue? b, hexValue? c, hexValue? d with
    | some a, some b, some c, some d => .ok (((a * 16 + b) * 16 + c) * 16 + d, rest)
    | _, _, _, _ => fail .invalidEscape rest
  | _ => fail .endInText []

def utf8 (n : Nat) : Bytes := String.utf8EncodeChar (Char.ofNat n)

def readLowUnit (high : Nat) : Bytes → Reading Bytes
  | [] => fail .endInText []
  | [b] => if b = 0x5c then fail .endInText [] else fail .unfinishedSurrogate []
  | b :: c :: rest =>
    if b ≠ 0x5c then fail .unfinishedSurrogate (c :: rest)
    else if c ≠ 0x75 then fail .unfinishedSurrogate rest
    else
      match readUnit rest with
      | .error e => .error e
      | .ok (low, rest) =>
        if low < 0xdc00 ∨ 0xdfff < low then fail .loneSurrogate rest
        else .ok (utf8 ((high - 0xd800) * 0x400 + (low - 0xdc00) + 0x10000), rest)

def simpleEscape? (b : UInt8) : Option UInt8 :=
  if b = 0x22 then some 0x22
  else if b = 0x5c then some 0x5c
  else if b = 0x2f then some 0x2f
  else if b = 0x62 then some 0x08
  else if b = 0x66 then some 0x0c
  else if b = 0x6e then some 0x0a
  else if b = 0x72 then some 0x0d
  else if b = 0x74 then some 0x09
  else none

def readEscape : Bytes → Reading Bytes
  | [] => fail .endInText []
  | b :: rest =>
    match simpleEscape? b with
    | some x => .ok ([x], rest)
    | none =>
      if b = 0x75 then
        match readUnit rest with
        | .error e => .error e
        | .ok (n, rest) =>
          if 0xdc00 ≤ n ∧ n ≤ 0xdfff then fail .loneSurrogate rest
          else if 0xd800 ≤ n ∧ n ≤ 0xdbff then readLowUnit n rest
          else .ok (utf8 n, rest)
      else fail .invalidEscape rest

theorem length_readUnit {bs rest : Bytes} {n : Nat} (h : readUnit bs = .ok (n, rest)) :
    rest.length ≤ bs.length := by
  unfold readUnit at h
  split at h
  · split at h
    · simp only [Except.ok.injEq, Prod.mk.injEq] at h
      obtain ⟨_, rfl⟩ := h
      simp only [List.length_cons]; omega
    · simp [fail] at h
  · simp [fail] at h

theorem length_readLowUnit {high : Nat} {bs out rest : Bytes}
    (h : readLowUnit high bs = .ok (out, rest)) : rest.length ≤ bs.length := by
  unfold readLowUnit at h
  split at h
  · simp [fail] at h
  · split at h <;> simp [fail] at h
  · split at h
    · simp [fail] at h
    · split at h
      · simp [fail] at h
      · split at h
        · simp at h
        · rename_i hu
          split at h
          · simp [fail] at h
          · simp only [Except.ok.injEq, Prod.mk.injEq] at h
            obtain ⟨_, rfl⟩ := h
            have := length_readUnit hu
            simp only [List.length_cons]; omega

theorem length_readEscape {bs out rest : Bytes} (h : readEscape bs = .ok (out, rest)) :
    rest.length ≤ bs.length := by
  unfold readEscape at h
  split at h
  · simp [fail] at h
  · split at h
    · simp only [Except.ok.injEq, Prod.mk.injEq] at h
      obtain ⟨_, rfl⟩ := h
      simp
    · split at h
      · split at h
        · simp at h
        · rename_i hu
          have hr := length_readUnit hu
          split at h
          · simp [fail] at h
          · split at h
            · have := length_readLowUnit h
              simp only [List.length_cons]; omega
            · simp only [Except.ok.injEq, Prod.mk.injEq] at h
              obtain ⟨_, rfl⟩ := h
              simp only [List.length_cons]; omega
      · simp [fail] at h

/-- The bytes of a string up to its closing quote, escapes undone, onto `acc` in reverse. -/
def takeText (acc : Bytes) : Bytes → Reading Bytes
  | [] => fail .endInText []
  | b :: bs =>
    if b = 0x22 then .ok (acc.reverse, bs)
    else if b = 0x5c then
      match _h : readEscape bs with
      | .ok (out, rest) => takeText (out.reverse ++ acc) rest
      | .error e => .error e
    else if b < 0x20 then fail .controlCharacter bs
    else takeText (b :: acc) bs
termination_by bs => bs.length
decreasing_by
  · have := length_readEscape _h
    simp only [List.length_cons]; omega
  · simp

/-- A string after its opening quote. Bytes that are not text show at the closing quote. -/
def readText (bs : Bytes) : Reading String :=
  match takeText [] bs with
  | .error e => .error e
  | .ok (out, rest) =>
    match Text.decodeString? out with
    | some s => .ok (s, rest)
    | none => fail .invalidCodePoint (0x22 :: rest)

end EventPost.Json
