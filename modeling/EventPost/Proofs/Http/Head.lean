import EventPost.Http.Service
import EventPost.Proofs.Numeral.Decimal
import EventPost.Proofs.Text.Utf8

/-!
A head that is written is read: the status and every header come back, the names in small letters,
and what follows the empty line is left for the body.
-/

namespace EventPost.Http

open Numeral (decimal decimalText)
open Text (Bytes bytesOf)

/-- A header that fits on a line of its own, without blanks around its value. -/
structure WellFormed (h : String × String) : Prop where
  name_ne : bytesOf h.1 ≠ []
  name : ∀ b ∈ bytesOf h.1, Head.isNameByte b = true
  value : ∀ b ∈ bytesOf h.2, Head.isValueByte b = true
  start : (bytesOf h.2).dropWhile Head.isGap = bytesOf h.2
  finish : (bytesOf h.2).reverse.dropWhile Head.isGap = (bytesOf h.2).reverse

def received (h : String × String) : String × Bytes := (h.1.toLower, bytesOf h.2)

theorem headerLine_eq (name value : String) : Reply.headerLine name value =
    bytesOf name ++ 0x3a :: 0x20 :: (bytesOf value ++ [0x0d, 0x0a]) := by
  rw [Reply.headerLine, Text.bytesOf_append, Text.bytesOf_append, Text.bytesOf_append]
  have hcolon : bytesOf ": " = [0x3a, 0x20] := rfl
  have hend : bytesOf "\r\n" = [0x0d, 0x0a] := rfl
  rw [hcolon, hend, List.append_assoc, List.append_assoc]
  rfl

theorem readHeader_headerLine {h : String × String} (hw : WellFormed h) (rest : Bytes) :
    Head.readHeader (Reply.headerLine h.1 h.2 ++ rest) = .done (received h) rest := by
  have hline : Reply.headerLine h.1 h.2 ++ rest =
      bytesOf h.1 ++ 0x3a :: 0x20 :: (bytesOf h.2 ++ 0x0d :: 0x0a :: rest) := by
    rw [headerLine_eq]
    simp only [List.append_assoc, List.cons_append, List.nil_append]
  have hname : (bytesOf h.1).isEmpty = false := by
    rw [List.isEmpty_eq_false_iff]
    exact hw.name_ne
  have hcolon : Head.isNameByte 0x3a = false := by decide
  have hreturn : Head.isValueByte 0x0d = false := by decide
  -- The blank behind the colon goes, and an empty value leaves the end of the line in its place.
  have hgap : (0x20 :: (bytesOf h.2 ++ 0x0d :: 0x0a :: rest)).dropWhile Head.isGap =
      bytesOf h.2 ++ 0x0d :: 0x0a :: rest := by
    rw [List.dropWhile_cons_of_pos (by decide), List.dropWhile_append, hw.start]
    split
    · rename_i hempty
      rw [List.isEmpty_iff.1 hempty]
      rfl
    · rfl
  rw [hline, Head.readHeader, List.takeWhile_append_of_pos hw.name,
    List.dropWhile_append_of_pos hw.name, List.takeWhile_cons_of_neg (by rw [hcolon]; decide),
    List.dropWhile_cons_of_neg (by rw [hcolon]; decide), List.append_nil]
  simp only [Head.expect, hname, Bool.not_false, Bool.and_true, BEq.rfl, if_true, Step.andThen]
  rw [hgap, List.takeWhile_append_of_pos hw.value, List.dropWhile_append_of_pos hw.value,
    List.takeWhile_cons_of_neg (by rw [hreturn]; decide),
    List.dropWhile_cons_of_neg (by rw [hreturn]; decide), List.append_nil, hw.finish,
    List.reverse_reverse, Text.decodeLossy_bytesOf]
  rfl

theorem readHeaders_written {headers : List (String × String)}
    (hw : ∀ h ∈ headers, WellFormed h) {limit : Nat} (hl : headers.length ≤ limit)
    (seen : List (String × Bytes)) (rest : Bytes) :
    Head.readHeaders limit seen
        (headers.flatMap (fun h => Reply.headerLine h.1 h.2) ++ 0x0d :: 0x0a :: rest) =
      .ok (seen.reverse ++ headers.map received, some rest) := by
  induction headers generalizing limit seen with
  | nil =>
    rw [List.map_nil, List.append_nil]
    cases limit <;> rfl
  | cons h headers ih =>
    obtain ⟨limit, rfl⟩ : ∃ l, limit = l + 1 := ⟨limit - 1, by rw [List.length_cons] at hl; omega⟩
    have hh := hw h List.mem_cons_self
    obtain ⟨b, name, hb⟩ := List.exists_cons_of_ne_nil hh.name_ne
    have hne : ¬(b = 0x0d ∨ b = 0x0a) := by
      rintro (rfl | rfl)
      · exact absurd (hh.name 0x0d (hb ▸ List.mem_cons_self)) (by decide)
      · exact absurd (hh.name 0x0a (hb ▸ List.mem_cons_self)) (by decide)
    rw [List.flatMap_cons, List.append_assoc]
    have hread := readHeader_headerLine hh
      (headers.flatMap (fun h => Reply.headerLine h.1 h.2) ++ 0x0d :: 0x0a :: rest)
    have hstart : ∃ line, Reply.headerLine h.1 h.2 = b :: line := by
      rw [headerLine_eq, hb]
      exact ⟨_, rfl⟩
    obtain ⟨line, hline⟩ := hstart
    rw [hline, List.cons_append] at hread ⊢
    rw [Head.readHeaders]
    simp only [if_neg hne]
    rw [hread]
    simp only
    rw [ih (fun g hg => hw g (List.mem_cons_of_mem h hg))
      (by rw [List.length_cons] at hl; omega)]
    rw [List.reverse_cons, List.append_assoc]
    rfl

theorem digits_of_status {n : Nat} (h : 100 ≤ n ∧ n ≤ 999) : bytesOf (decimalText n) =
    [UInt8.ofNat (0x30 + n / 100), UInt8.ofNat (0x30 + n / 10 % 10),
      UInt8.ofNat (0x30 + n % 10)] := by
  have hdigit : ∀ d < 10, String.utf8EncodeChar (Nat.digitChar d) = [UInt8.ofNat (0x30 + d)] := by
    decide
  have hdecimal : decimal n =
      [Nat.digitChar (n / 100), Nat.digitChar (n / 10 % 10), Nat.digitChar (n % 10)] := by
    rw [decimal, Nat.toDigits_of_base_le (by decide) (by omega),
      Nat.toDigits_of_base_le (by decide) (by omega), Nat.toDigits_of_lt_base (by omega),
      Nat.div_div_eq_div_mul]
    rfl
  rw [bytesOf, decimalText, String.toList_ofList, hdecimal, Text.encode, List.flatMap_cons,
    List.flatMap_cons, List.flatMap_cons, hdigit _ (by omega), hdigit _ (by omega),
    hdigit _ (by omega)]
  rfl

theorem readDigit_digit {d : Nat} (h : d < 10) (rest : Bytes) :
    Head.readDigit (UInt8.ofNat (0x30 + d) :: rest) = .done d rest := by
  have hdigit : ∀ d < 10, Head.isDigit (UInt8.ofNat (0x30 + d)) = true ∧
      (UInt8.ofNat (0x30 + d)).toNat - 0x30 = d := by decide
  rw [Head.readDigit, Head.expect, if_pos (hdigit d h).1, Step.andThen, (hdigit d h).2]

theorem readVersion_current (rest : Bytes) :
    Head.readVersion (bytesOf "HTTP/1.1" ++ rest) = .done false rest := by
  have htake : (bytesOf "HTTP/1.1" ++ rest).take 8 = bytesOf "HTTP/1.1" := rfl
  have hlen : ¬(bytesOf "HTTP/1.1" ++ rest).length < 8 := by
    rw [List.length_append]
    have height : (bytesOf "HTTP/1.1").length = 8 := rfl
    omega
  rw [Head.readVersion, if_neg hlen, htake, if_neg (by decide), if_pos (by decide)]
  rfl

theorem readStatusLine_written {status : Nat} (h : 100 ≤ status ∧ status ≤ 999) (rest : Bytes) :
    Head.readStatusLine (bytesOf ("HTTP/1.1 " ++ decimalText status ++ " \r\n") ++ rest) =
      .done (false, status) rest := by
  have hline : bytesOf ("HTTP/1.1 " ++ decimalText status ++ " \r\n") ++ rest =
      bytesOf "HTTP/1.1" ++ 0x20 :: UInt8.ofNat (0x30 + status / 100) ::
        UInt8.ofNat (0x30 + status / 10 % 10) :: UInt8.ofNat (0x30 + status % 10) ::
        0x20 :: 0x0d :: 0x0a :: rest := by
    rw [Text.bytesOf_append, Text.bytesOf_append, digits_of_status h]
    rfl
  have hskip : ∀ bs, Head.skipEmptyLines (bytesOf "HTTP/1.1" ++ bs) =
      .done () (bytesOf "HTTP/1.1" ++ bs) := fun _ => rfl
  have hreason : Head.skipReason (0x20 :: 0x0d :: 0x0a :: rest) = .done () rest := rfl
  have hcode : 100 * (status / 100) + 10 * (status / 10 % 10) + status % 10 = status := by omega
  rw [hline, Head.readStatusLine, hskip]
  simp only [Step.andThen]
  rw [readVersion_current]
  simp only [Head.expect, BEq.rfl, if_true]
  rw [Head.readCode, readDigit_digit (by omega)]
  simp only [Step.andThen]
  rw [readDigit_digit (by omega)]
  simp only
  rw [readDigit_digit (by omega)]
  simp only
  rw [hreason, hcode]

theorem byte_of_isDigit {c : Char} (h : c.isDigit = true) : ∃ b : UInt8,
    String.utf8EncodeChar c = [b] ∧ Head.isDigit b = true ∧ Char.ofNat b.toNat = c := by
  have hbyte : ∀ v < 58, 48 ≤ v →
      Head.isDigit (UInt8.ofNat v) = true ∧ (UInt8.ofNat v).toNat = v := by decide
  have hv : 48 ≤ c.val.toNat ∧ c.val.toNat ≤ 57 := Char.isDigit_iff_toNat.1 h
  obtain ⟨hdigit, hvalue⟩ := hbyte c.val.toNat (by omega) hv.1
  refine ⟨UInt8.ofNat c.val.toNat, ?_, hdigit, ?_⟩
  · rw [String.utf8EncodeChar, if_pos (by omega)]
  · rw [hvalue]
    exact Char.ofNat_toNat c

theorem isDigit_of_mem_digits {b : UInt8} {n : Nat} (h : b ∈ bytesOf (decimalText n)) :
    Head.isDigit b = true := by
  rw [bytesOf, decimalText, String.toList_ofList, Text.encode, List.mem_flatMap] at h
  obtain ⟨c, hc, hb⟩ := h
  obtain ⟨d, hd, hdigit, -⟩ := byte_of_isDigit (Numeral.isDigit_of_mem_decimal hc)
  rw [hd, List.mem_singleton] at hb
  rw [hb]
  exact hdigit

theorem isGap_of_isDigit {b : UInt8} (h : Head.isDigit b = true) : Head.isGap b = false := by
  rw [Bool.eq_false_iff]
  intro hgap
  rw [Head.isGap, Bool.or_eq_true, beq_iff_eq, beq_iff_eq] at hgap
  rcases hgap with rfl | rfl
  · exact absurd h (by decide)
  · exact absurd h (by decide)

theorem isValueByte_of_isDigit {b : UInt8} (h : Head.isDigit b = true) :
    Head.isValueByte b = true := by
  simp only [Head.isDigit, Head.isValueByte, Bool.and_eq_true, decide_eq_true_eq, Bool.or_eq_true,
    UInt8.le_iff_toNat_le, bne_iff_ne, ne_eq, ← UInt8.toNat_inj, UInt8.reduceToNat] at h ⊢
  omega

theorem dropWhile_isGap {bs : Bytes} (h : ∀ b ∈ bs, Head.isGap b = false) :
    bs.dropWhile Head.isGap = bs := by
  cases bs with
  | nil => rfl
  | cons b bs => rw [List.dropWhile_cons_of_neg (by rw [h b List.mem_cons_self]; decide)]

theorem wellFormed_contentLength (n : Nat) : WellFormed ("Content-Length", decimalText n) := by
  have hgap : ∀ b ∈ bytesOf (decimalText n), Head.isGap b = false :=
    fun b hb => isGap_of_isDigit (isDigit_of_mem_digits hb)
  have hname : bytesOf "Content-Length" ≠ [] := by decide
  have hbytes : (bytesOf "Content-Length").all Head.isNameByte = true := by decide
  exact ⟨hname, List.all_eq_true.1 hbytes, fun b hb => isValueByte_of_isDigit (isDigit_of_mem_digits hb),
    dropWhile_isGap hgap, dropWhile_isGap fun b hb => hgap b (List.mem_reverse.1 hb)⟩

theorem wellFormed_connection : WellFormed ("Connection", "close") where
  name_ne := by decide
  name := List.all_eq_true.1 (by decide)
  value := List.all_eq_true.1 (by decide)
  start := by decide
  finish := by decide

def writtenHead (status : Nat) (headers : List (String × String)) (length : Nat) : Head :=
  ⟨false, status, headers.map received ++
    [("content-length", bytesOf (decimalText length)), ("connection", bytesOf "close")]⟩

theorem read_response {status : Nat} {headers : List (String × String)}
    (hs : 100 ≤ status ∧ status ≤ 999) (hw : ∀ h ∈ headers, WellFormed h)
    (hl : headers.length + 2 ≤ Head.maxHeaders) (length : Nat) (body : Bytes) :
    Head.read (Reply.response status headers length body).bytes =
      .ok (some (writtenHead status headers length, some body)) := by
  let written := headers ++ [("Content-Length", decimalText length), ("Connection", "close")]
  have hbytes : (Reply.response status headers length body).bytes =
      bytesOf ("HTTP/1.1 " ++ decimalText status ++ " \r\n") ++
        (written.flatMap (fun h => Reply.headerLine h.1 h.2) ++ 0x0d :: 0x0a :: body) := by
    simp only [Reply.response, written, List.flatMap_append, List.flatMap_cons, List.flatMap_nil,
      List.append_assoc, List.append_nil]
  have hwritten : ∀ h ∈ written, WellFormed h := by
    intro h hm
    rcases List.mem_append.1 hm with hm | hm
    · exact hw h hm
    · rcases List.mem_cons.1 hm with rfl | hm
      · exact wellFormed_contentLength length
      · rw [List.mem_singleton.1 hm]
        exact wellFormed_connection
  have hnames : "Content-Length".toLower = "content-length" ∧
      "Connection".toLower = "connection" := by constructor <;> decide +kernel
  have hlen : written.length ≤ Head.maxHeaders := by
    rw [List.length_append]
    exact hl
  rw [Head.read, hbytes, readStatusLine_written hs]
  simp only
  rw [readHeaders_written hwritten hlen]
  simp only [Option.isSome_some, true_and, if_neg (Nat.not_lt_of_le hs.1), List.reverse_nil,
    List.nil_append, written, writtenHead, List.map_append, List.map_cons, List.map_nil, received,
    hnames]

end EventPost.Http
