import EventPost.Json.Reader
import EventPost.Proofs.Numeral.Decimal
import EventPost.Proofs.Text.Utf8

/-!
Strings and integers that are written are read. A string may hold any characters: what could end it
or break it off is escaped, and each escape is undone. An integer of 64 bits has the one form that
the reader takes up whole, whatever follows it that could not go on with it.
-/

namespace EventPost.Json

open Numeral (decimal maxWord)
open Text (Bytes encode)

theorem skipBlanks_cons {b : UInt8} (h : isJsonBlank b = false) (bs : Bytes) :
    skipBlanks (b :: bs) = b :: bs :=
  List.dropWhile_cons_of_neg (by rw [h]; decide)

/-- The byte stands for itself inside a string. -/
structure Plain (b : UInt8) : Prop where
  control : ¬b < 0x20
  quote : b ≠ 0x22
  backslash : b ≠ 0x5c

theorem takeText_plain {b : UInt8} (h : Plain b) (acc rest : Bytes) :
    takeText acc (b :: rest) = takeText (b :: acc) rest := by
  rw [takeText, if_neg h.quote, if_neg h.backslash, if_neg h.control]

theorem takeText_run {bs : Bytes} (h : ∀ b ∈ bs, Plain b) (acc rest : Bytes) :
    takeText acc (bs ++ rest) = takeText (bs.reverse ++ acc) rest := by
  induction bs generalizing acc with
  | nil => rfl
  | cons b bs ih =>
    rw [List.cons_append, takeText_plain (h b List.mem_cons_self),
      ih fun x hx => h x (List.mem_cons_of_mem b hx), List.reverse_cons, List.append_assoc]
    rfl

theorem plain_of_large {b : UInt8} (h : 0x80 ≤ b.toNat) : Plain b := by
  refine ⟨?_, ?_, ?_⟩
  · intro hlt
    have hnat : b.toNat < 0x20 := UInt8.lt_iff_toNat_lt.1 hlt
    omega
  · rintro rfl
    exact absurd h (by decide)
  · rintro rfl
    exact absurd h (by decide)

theorem plain_of_mem_encodeChar {c : Char} (control : ¬c.toNat < 0x20) (quote : c ≠ '"')
    (backslash : c ≠ '\\') {b : UInt8} (h : b ∈ String.utf8EncodeChar c) : Plain b := by
  rcases Text.large_or_eq_of_mem_encodeChar h with hlarge | heq
  · exact plain_of_large hlarge
  · refine ⟨fun hlt => control ?_, ?_, ?_⟩
    · have hnat : b.toNat < 0x20 := UInt8.lt_iff_toNat_lt.1 hlt
      omega
    · rintro rfl
      exact quote (Char.toNat_inj.1 heq.symm)
    · rintro rfl
      exact backslash (Char.toNat_inj.1 heq.symm)

theorem takeText_escape {bs out rest : Bytes} (h : readEscape bs = .ok (out, rest)) (acc : Bytes) :
    takeText acc (0x5c :: bs) = takeText (out.reverse ++ acc) rest := by
  rw [takeText, if_neg (by decide), if_pos rfl]
  split
  · rename_i heq
    rw [h] at heq
    obtain ⟨rfl, rfl⟩ := Prod.mk.inj (Except.ok.inj heq)
    rfl
  · rename_i heq
    rw [h] at heq
    cases heq

theorem readEscape_simple {b x : UInt8} (h : simpleEscape? b = some x) (rest : Bytes) :
    readEscape (b :: rest) = .ok ([x], rest) := by
  rw [readEscape, h]

theorem hexValue?_digit : ∀ n < 16, ∃ b, String.utf8EncodeChar (Text.hexDigit n) = [b] ∧
    hexValue? b = some n := by
  intro n hn
  have hdigit : ∀ n < 16, String.utf8EncodeChar (Text.hexDigit n) =
      [UInt8.ofNat (Text.hexDigit n).toNat] ∧
      hexValue? (UInt8.ofNat (Text.hexDigit n).toNat) = some n := by decide
  exact ⟨_, hdigit n hn⟩

theorem hexDigit_mod (n : Nat) : Text.hexDigit (n % 16) = Text.hexDigit n := by
  rw [Text.hexDigit, Text.hexDigit, Nat.mod_mod]

theorem readEscape_control {c : Char} (h : c.toNat < 0x20) (rest : Bytes) :
    readEscape (encode ['u', '0', '0', Text.hexDigit (c.toNat / 16), Text.hexDigit c.toNat] ++ rest)
      = .ok (String.utf8EncodeChar c, rest) := by
  obtain ⟨high, hhigh, hhighValue⟩ := hexValue?_digit (c.toNat / 16) (by omega)
  obtain ⟨low, hlow, hlowValue⟩ := hexValue?_digit (c.toNat % 16) (by omega)
  rw [hexDigit_mod] at hlow
  have hbytes : encode ['u', '0', '0', Text.hexDigit (c.toNat / 16), Text.hexDigit c.toNat] =
      [0x75, 0x30, 0x30, high, low] := by
    simp only [encode, List.flatMap_cons, List.flatMap_nil, hhigh, hlow]
    rfl
  have hzero : hexValue? 0x30 = some 0 := by decide
  have hunit : readUnit (0x30 :: 0x30 :: high :: low :: rest) = .ok (c.toNat, rest) := by
    simp only [readUnit, hzero, hhighValue, hlowValue]
    have hcode : ((0 * 16 + 0) * 16 + c.toNat / 16) * 16 + c.toNat % 16 = c.toNat := by omega
    rw [hcode]
  have hchar : utf8 c.toNat = String.utf8EncodeChar c := by rw [utf8, Char.ofNat_toNat]
  have hsimple : simpleEscape? 0x75 = none := by decide
  simp only [hbytes, List.cons_append, List.nil_append, readEscape, hsimple, if_true, hunit]
  rw [if_neg (by omega), if_neg (by omega), hchar]

theorem takeText_escapeChar (c : Char) (acc rest : Bytes) :
    takeText acc (encode (escapeChar c) ++ rest) =
      takeText ((String.utf8EncodeChar c).reverse ++ acc) rest := by
  have hshort : ∀ {d : Char} {b : UInt8}, encode ['\\', d] = [0x5c, b] →
      simpleEscape? b = some (UInt8.ofNat c.toNat) →
      String.utf8EncodeChar c = [UInt8.ofNat c.toNat] →
      takeText acc (encode ['\\', d] ++ rest) =
        takeText ((String.utf8EncodeChar c).reverse ++ acc) rest := by
    intro d b hd hb hc
    rw [hd, hc]
    exact takeText_escape (readEscape_simple hb rest) acc
  unfold escapeChar
  -- Each of the seven short escapes is a letter behind a backslash.
  iterate 7
    split
    · rename_i hc
      subst hc
      exact hshort rfl (by decide) (by decide)
  split
  · rename_i hcontrol
    exact takeText_escape (readEscape_control hcontrol rest) acc
  · rename_i hquote hbackslash _ _ _ _ _ hcontrol
    have hone : encode [c] = String.utf8EncodeChar c := List.flatMap_singleton ..
    rw [hone]
    exact takeText_run (fun b => plain_of_mem_encodeChar hcontrol hquote hbackslash) acc rest

theorem takeText_written (cs : List Char) (acc rest : Bytes) :
    takeText acc (encode (cs.flatMap escapeChar) ++ 0x22 :: rest) =
      .ok (acc.reverse ++ encode cs, rest) := by
  induction cs generalizing acc with
  | nil =>
    have hend : takeText acc (0x22 :: rest) = .ok (acc.reverse, rest) := by
      rw [takeText, if_pos rfl]
    rw [show encode ([].flatMap escapeChar) = [] from rfl, List.nil_append, hend]
    exact congrArg (fun bs => Except.ok (bs, rest)) (List.append_nil _).symm
  | cons c cs ih =>
    have hsplit : encode ((c :: cs).flatMap escapeChar) =
        encode (escapeChar c) ++ encode (cs.flatMap escapeChar) := by
      rw [List.flatMap_cons, encode, List.flatMap_append]
      rfl
    rw [hsplit, List.append_assoc, takeText_escapeChar, ih, List.reverse_append,
      List.reverse_reverse, List.append_assoc]
    rfl

theorem readText_written (s : String) (rest : Bytes) :
    readText (encode (s.toList.flatMap escapeChar) ++ 0x22 :: rest) = .ok (s, rest) := by
  have hdecode : Text.decodeString? (encode s.toList) = some s := Text.decodeString?_eq_some.2 rfl
  rw [readText, takeText_written, List.reverse_nil, List.nil_append]
  simp only [hdecode]

def Ends (rest : Bytes) : Prop := ∀ b ∈ rest.head?, b = 0x2c ∨ b = 0x5d ∨ b = 0x7d

theorem digit_byte {c : Char} (h : c.isDigit = true) :
    String.utf8EncodeChar c = [UInt8.ofNat c.toNat] ∧ isDigit (UInt8.ofNat c.toNat) = true ∧
      digitOf (UInt8.ofNat c.toNat) = c.toNat - '0'.toNat := by
  have hbyte : ∀ v < 58, 48 ≤ v → isDigit (UInt8.ofNat v) = true ∧
      digitOf (UInt8.ofNat v) = v - '0'.toNat := by decide
  have hv : 48 ≤ c.toNat ∧ c.toNat ≤ 57 := Char.isDigit_iff_toNat.1 h
  refine ⟨?_, hbyte c.toNat (by omega) hv.1⟩
  exact if_pos (show c.val.toNat ≤ 0x7f from Nat.le_trans hv.2 (by decide))

theorem encode_digits {cs : List Char} (h : ∀ c ∈ cs, c.isDigit = true) :
    encode cs = cs.map fun c => UInt8.ofNat c.toNat := by
  induction cs with
  | nil => rfl
  | cons c cs ih =>
    rw [encode, List.flatMap_cons, (digit_byte (h c List.mem_cons_self)).1]
    exact congrArg (UInt8.ofNat c.toNat :: ·) (ih fun d hd => h d (List.mem_cons_of_mem c hd))

theorem isDigit_of_mem_encode {cs : List Char} (h : ∀ c ∈ cs, c.isDigit = true) :
    ∀ b ∈ encode cs, isDigit b = true := by
  intro b hb
  rw [encode_digits h] at hb
  obtain ⟨c, hc, rfl⟩ := List.mem_map.1 hb
  exact (digit_byte (h c hc)).2.1

theorem takeWhole_digits {cs : List Char} (h : ∀ c ∈ cs, c.isDigit = true) (acc : Nat)
    (hle : Nat.ofDigitChars 10 cs acc ≤ maxWord) :
    takeWhole acc (encode cs) = (Nat.ofDigitChars 10 cs acc, 0) := by
  rw [encode_digits h]
  induction cs generalizing acc with
  | nil => rw [Nat.ofDigitChars_nil]; rfl
  | cons c cs ih =>
    rw [Nat.ofDigitChars_cons] at hle ⊢
    have hnext := Numeral.le_value cs (10 * acc + (c.toNat - '0'.toNat))
    rw [List.map_cons, takeWhole, (digit_byte (h c List.mem_cons_self)).2.2, if_pos (by omega)]
    exact ih (fun d hd => h d (List.mem_cons_of_mem c hd)) _ hle

theorem isDigit_of_ends {rest : Bytes} (h : Ends rest) : ∀ b ∈ rest.head?, isDigit b = false := by
  intro b hb
  rcases h b hb with rfl | rfl | rfl <;> decide

theorem readAfterWhole_ends {negative : Bool} {digits rest : Bytes} {n : Nat} {x : Number}
    (hn : takeWhole 0 digits = (n, 0)) (hx : wholeNumber negative n = some x) (hr : Ends rest) :
    readAfterWhole negative digits rest = .ok (x, rest) := by
  unfold readAfterWhole
  simp only [hn, hx, if_true]
  split
  · rename_i b r
    have hpoint : b ≠ 0x2e ∧ isExponentMark b = false := by
      rcases hr b rfl with rfl | rfl | rfl <;> decide
    rw [if_neg hpoint.1, hpoint.2]
    rfl
  · rfl

theorem readNumber_decimal {negative : Bool} {n : Nat} {x : Number} (hn : n ≤ maxWord)
    (hx : wholeNumber negative n = some x) {rest : Bytes} (hr : Ends rest) :
    readNumber negative (encode (decimal n) ++ rest) = .ok (x, rest) := by
  have hdigits : ∀ c ∈ decimal n, c.isDigit = true := fun _ => Numeral.isDigit_of_mem_decimal
  have hwhole : takeWhole 0 (encode (decimal n)) = (n, 0) := by
    have hv := Numeral.value_decimal n
    rw [takeWhole_digits hdigits 0 (by omega), hv]
  have hstop : ∀ b ∈ rest.head?, ¬isDigit b = true := by
    intro b hb
    rw [isDigit_of_ends hr b hb]
    exact Bool.false_ne_true
  rcases Nat.eq_zero_or_pos n with rfl | hpos
  · -- A zero stands alone: what follows it is no digit.
    have hzero : encode (decimal 0) = [0x30] := by decide
    rw [hzero] at hwhole ⊢
    rw [List.singleton_append, readNumber.eq_def]
    simp only [if_true]
    split
    · rename_i d _
      rw [if_neg (hstop d rfl)]
      exact readAfterWhole_ends hwhole hx hr
    · exact readAfterWhole_ends hwhole hx hr
  · obtain ⟨c, cs, hcs, hc⟩ := Numeral.decimal_eq_cons hpos
    rw [hcs] at hdigits hwhole
    have hfirst := digit_byte (hdigits c List.mem_cons_self)
    have htail : ∀ b ∈ encode cs, isDigit b = true :=
      isDigit_of_mem_encode fun d hd => hdigits d (List.mem_cons_of_mem c hd)
    have hbytes : encode (c :: cs) = UInt8.ofNat c.toNat :: encode cs := by
      rw [encode, List.flatMap_cons, hfirst.1]
      rfl
    have hne : UInt8.ofNat c.toNat ≠ 0x30 := by
      intro heq
      have hv : 48 ≤ c.toNat ∧ c.toNat ≤ 57 :=
        Char.isDigit_iff_toNat.1 (hdigits c List.mem_cons_self)
      have h30 : (UInt8.ofNat c.toNat).toNat = 0x30 := by rw [heq]; rfl
      rw [UInt8.toNat_ofNat'] at h30
      exact hc (Char.ext (UInt32.toNat_inj.1 (show c.toNat = 48 by omega)))
    have htake : (encode cs ++ rest).takeWhile isDigit = encode cs := by
      rw [List.takeWhile_append_of_pos htail]
      cases rest with
      | nil => exact List.append_nil _
      | cons b rest => rw [List.takeWhile_cons_of_neg (hstop b rfl), List.append_nil]
    have hdrop : (encode cs ++ rest).dropWhile isDigit = rest := by
      rw [List.dropWhile_append_of_pos htail]
      cases rest with
      | nil => rfl
      | cons b rest => rw [List.dropWhile_cons_of_neg (hstop b rfl)]
    rw [hbytes] at hwhole
    rw [hcs, hbytes, List.cons_append, readNumber.eq_def]
    simp only [if_neg hne, if_pos hfirst.2.1]
    rw [htake, hdrop]
    exact readAfterWhole_ends hwhole hx hr

/-- An integer that is written is read, if what follows it does not go on with it. -/
theorem readNumeral_written (i : Int) (h : Fits i) {rest : Bytes} (hr : Ends rest) :
    ∃ b bs, encode (Number.write (.integer i h)) = b :: bs ∧ startsNumber b = true ∧
      readNumeral b (bs ++ rest) = .ok (.integer i h, rest) := by
  have hword : i.natAbs ≤ maxWord := by
    have hlow := h.1
    have hhigh := h.2
    unfold maxWord
    omega
  by_cases hi : i < 0
  · have hx : wholeNumber true i.natAbs = some (.integer i h) := by
      have hneg : -(i.natAbs : Int) = i := by omega
      rw [wholeNumber, if_pos rfl, if_neg (by omega)]
      simp only [hneg]
      exact dif_pos h
    refine ⟨0x2d, encode (decimal i.natAbs), ?_, rfl, ?_⟩
    · rw [Number.write, if_pos hi]
      rfl
    · rw [readNumeral, if_pos rfl, readNumber_decimal hword hx hr]
  · have hx : wholeNumber false i.natAbs = some (.integer i h) := by
      have hpos : (i.natAbs : Int) = i := by omega
      rw [wholeNumber, if_neg Bool.false_ne_true]
      simp only [hpos]
      exact dif_pos h
    have hne : decimal i.natAbs ≠ [] := Nat.toDigits_ne_nil
    obtain ⟨c, cs, hcs⟩ := List.exists_cons_of_ne_nil hne
    have hfirst := digit_byte
      (Numeral.isDigit_of_mem_decimal (n := i.natAbs) (hcs ▸ List.mem_cons_self))
    have hbytes : encode (decimal i.natAbs) = UInt8.ofNat c.toNat :: encode cs := by
      rw [hcs, encode, List.flatMap_cons, hfirst.1]
      rfl
    have hminus : UInt8.ofNat c.toNat ≠ 0x2d := by
      intro heq
      rw [heq] at hfirst
      exact absurd hfirst.2.1 (by decide)
    refine ⟨UInt8.ofNat c.toNat, encode cs, ?_, ?_, ?_⟩
    · rw [Number.write, if_neg hi, hbytes]
    · rw [startsNumber, hfirst.2.1, Bool.or_true]
    · rw [readNumeral, if_neg hminus, ← List.cons_append, ← hbytes,
        readNumber_decimal hword hx hr]

end EventPost.Json
