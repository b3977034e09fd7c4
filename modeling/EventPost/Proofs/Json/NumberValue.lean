import EventPost.Proofs.Json.Integer
import EventPost.Proofs.Numeral.Shortest

/-!
What a number is. The text of a number stands for a rational, whichever way its digits are set out;
a whole number stands for itself, and a written floating-point number for its shortest decimal.
-/

namespace EventPost

open Numeral (Binary64 decimal FloatLayout)
open Text (Bytes encode encode_append)

def Numeral.Binary64.decimalValue (x : Binary64) : ℚ :=
  (if x.negative then -1 else 1) * if x.isZero then 0 else (x.shortest.1 : ℚ) * 10 ^ x.shortest.2

namespace Json

def exponentValue : Bytes → Int
  | _ :: 0x2d :: ds => -digitsValue ds
  | _ :: 0x2b :: ds => digitsValue ds
  | _ :: ds => digitsValue ds
  | [] => 0

def fractionOf : Bytes → Bytes × Bytes
  | 0x2e :: bs => (bs.takeWhile isDigit, bs.dropWhile isDigit)
  | bs => ([], bs)

def magnitude (bs : Bytes) : ℚ :=
  let whole := bs.takeWhile isDigit
  let (fraction, exponent) := fractionOf (bs.dropWhile isDigit)
  digitsValue (whole ++ fraction) * 10 ^ (exponentValue exponent - fraction.length)

/-- The number that a text of one stands for. -/
def numberValue : Bytes → ℚ
  | 0x2d :: bs => -magnitude bs
  | bs => magnitude bs

theorem digitsValue_onto (ds : Bytes) (acc : Nat) :
    ds.foldl (fun n b => 10 * n + digitOf b) acc = acc * 10 ^ ds.length + digitsValue ds := by
  induction ds generalizing acc with
  | nil => simp [digitsValue]
  | cons d ds ih =>
    rw [digitsValue, List.foldl_cons, List.foldl_cons, ih, ih (10 * 0 + digitOf d),
      List.length_cons, pow_succ]
    ring

theorem digitsValue_append (ds es : Bytes) :
    digitsValue (ds ++ es) = digitsValue ds * 10 ^ es.length + digitsValue es := by
  rw [digitsValue, List.foldl_append, digitsValue_onto]
  rfl

theorem digitsValue_zeros (n : Nat) : digitsValue (List.replicate n 0x30) = 0 := by
  induction n with
  | zero => rfl
  | succ n ih =>
    rw [List.replicate_succ', digitsValue_append, ih]
    rfl

theorem foldl_encode {cs : List Char} (h : ∀ c ∈ cs, c.isDigit = true) (acc : Nat) :
    (encode cs).foldl (fun n b => 10 * n + digitOf b) acc = Nat.ofDigitChars 10 cs acc := by
  induction cs generalizing acc with
  | nil =>
    rw [Nat.ofDigitChars_nil]
    rfl
  | cons c cs ih =>
    have hrest : ∀ d ∈ cs, d.isDigit = true := fun d hd => h d (List.mem_cons_of_mem c hd)
    rw [encode_digits h, List.map_cons, List.foldl_cons,
      (digit_byte (h c List.mem_cons_self)).2.2, Nat.ofDigitChars_cons, ← ih hrest,
      encode_digits hrest]

theorem digitsValue_decimal (n : Nat) : digitsValue (encode (decimal n)) = n := by
  rw [digitsValue, foldl_encode fun _ => Numeral.isDigit_of_mem_decimal, Numeral.value_decimal]

theorem whole_decimal (n : Nat) : Whole (encode (decimal n)) := by
  have hdigits : ∀ c ∈ decimal n, c.isDigit = true := fun _ => Numeral.isDigit_of_mem_decimal
  have hne : decimal n ≠ [] := Nat.toDigits_ne_nil
  rw [encode_digits hdigits]
  refine ⟨⟨fun hnil => hne (List.map_eq_nil_iff.1 hnil), ?_⟩, ?_⟩
  · rw [← encode_digits hdigits]
    exact isDigit_of_mem_encode hdigits
  · rcases Nat.eq_zero_or_pos n with rfl | hpos
    · exact fun _ => by decide
    · -- The first digit of a number that is not zero is not zero.
      obtain ⟨c, cs, hcs, hc⟩ := Numeral.decimal_eq_cons hpos
      intro hhead
      have hdigit : 48 ≤ c.toNat ∧ c.toNat ≤ 57 :=
        Char.isDigit_iff_toNat.1 (hdigits c (hcs ▸ List.mem_cons_self))
      rw [hcs, List.map_cons, List.head?_cons, Option.some.injEq, ← UInt8.toNat_inj,
        UInt8.toNat_ofNat'] at hhead
      have hzero : c.toNat = '0'.toNat := by
        have h30 : (0x30 : UInt8).toNat = 48 ∧ '0'.toNat = 48 := ⟨rfl, rfl⟩
        omega
      exact absurd (Char.toNat_inj.1 hzero) hc

def point (fraction : Bytes) : Bytes := if fraction = [] then [] else 0x2e :: fraction

variable {whole fraction exponent : Bytes}

theorem undigit_exponent_nil (he : exponent = [] ∨ Exponent exponent) : Undigit exponent := by
  have hundigit := undigit_exponent he stops_nil
  rwa [List.append_nil] at hundigit

theorem fractionOf_point (hf : ∀ b ∈ fraction, isDigit b = true)
    (he : exponent = [] ∨ Exponent exponent) :
    fractionOf (point fraction ++ exponent) = (fraction, exponent) ∧
      Undigit (point fraction ++ exponent) := by
  have hundigit := undigit_exponent_nil he
  unfold point
  split
  · rename_i hnil
    subst hnil
    refine ⟨?_, hundigit⟩
    rcases he with rfl | he
    · rfl
    · obtain ⟨mark, sign, ds, hmark, -, -, rfl⟩ := he
      rw [List.nil_append, fractionOf]
      exact fun bs hbs => ne_point hmark (List.cons.inj hbs).1
  · obtain ⟨htake, hdrop⟩ := takeWhile_digits hf hundigit
    rw [List.cons_append, fractionOf, htake, hdrop]
    exact ⟨rfl, undigit_cons (by decide) _⟩

theorem magnitude_parts (hw : ∀ b ∈ whole, isDigit b = true)
    (hf : ∀ b ∈ fraction, isDigit b = true) (he : exponent = [] ∨ Exponent exponent) :
    magnitude (whole ++ (point fraction ++ exponent)) =
      digitsValue (whole ++ fraction) * 10 ^ (exponentValue exponent - fraction.length) := by
  obtain ⟨hparts, hundigit⟩ := fractionOf_point hf he
  obtain ⟨htake, hdrop⟩ := takeWhile_digits hw hundigit
  unfold magnitude
  simp only [htake, hdrop, hparts]

theorem scaling_parts (hf : ∀ b ∈ fraction, isDigit b = true)
    (he : exponent = [] ∨ Exponent exponent) : Scaling (point fraction ++ exponent) := by
  unfold point
  split
  · rw [List.nil_append]
    rcases he with rfl | he
    · exact .none
    · exact .exponent he
  · rename_i hne
    exact .fraction ⟨hne, hf⟩ he

theorem isNumber_parts {sign : Bytes} (hs : sign ∈ [[], [0x2d]]) (hw : Whole whole)
    (hf : ∀ b ∈ fraction, isDigit b = true) (he : exponent = [] ∨ Exponent exponent) :
    IsNumber (sign ++ (whole ++ (point fraction ++ exponent))) :=
  ⟨sign, whole, point fraction ++ exponent, hs, hw, scaling_parts hf he, rfl⟩

/-- A text of the digits of a number, broken up by a point or an exponent. -/
def SetOut (text : Bytes) (value : ℚ) : Prop :=
  ∃ whole fraction exponent, text = whole ++ (point fraction ++ exponent) ∧ Whole whole ∧
    (∀ b ∈ fraction, isDigit b = true) ∧ (exponent = [] ∨ Exponent exponent) ∧
    (fraction ≠ [] ∨ exponent ≠ []) ∧
    (digitsValue (whole ++ fraction) : ℚ) * 10 ^ (exponentValue exponent - fraction.length) = value

theorem encode_take {cs : List Char} (h : ∀ c ∈ cs, c.isDigit = true) (n : Nat) :
    encode (cs.take n) = (encode cs).take n ∧ encode (cs.drop n) = (encode cs).drop n := by
  rw [encode_digits h, encode_digits fun c hc => h c (List.mem_of_mem_take hc),
    encode_digits fun c hc => h c (List.mem_of_mem_drop hc), List.map_take, List.map_drop]
  exact ⟨rfl, rfl⟩

theorem encode_zeros (n : Nat) : encode (List.replicate n '0') = List.replicate n 0x30 := by
  have hzeros : ∀ c ∈ List.replicate n '0', c.isDigit = true := by
    intro c hc
    rw [List.eq_of_mem_replicate hc]
    rfl
  rw [encode_digits hzeros, List.map_replicate]
  rfl

theorem isDigit_of_mem_zeros {n : Nat} {b : UInt8} (h : b ∈ List.replicate n (0x30 : UInt8)) :
    isDigit b = true := by
  rw [List.eq_of_mem_replicate h]
  rfl

theorem Whole.take {ds : Bytes} (h : Whole ds) {n : Nat} (hn : n ≠ 0) : Whole (ds.take n) := by
  obtain ⟨⟨hne, hdigits⟩, hzero⟩ := h
  refine ⟨⟨?_, fun b hb => hdigits b (List.mem_of_mem_take hb)⟩, ?_⟩
  · rw [ne_eq, List.take_eq_nil_iff, not_or]
    exact ⟨hn, hne⟩
  · intro hhead
    rw [List.head?_take, if_neg hn] at hhead
    rw [hzero hhead, List.take_of_length_le]
    exact Nat.one_le_iff_ne_zero.2 hn

theorem whole_zero : Whole [0x30] :=
  ⟨⟨List.cons_ne_nil _ _, fun _ hb => List.mem_singleton.1 hb ▸ isDigit_zero⟩, fun _ => rfl⟩

section

variable {ds : Bytes} {k : Nat}

theorem setOut_zeros (hw : Whole ds) (hpos : ds.head? ≠ some 0x30) (hk : digitsValue ds = k)
    (n : Nat) : SetOut (ds ++ List.replicate n 0x30 ++ [0x2e, 0x30]) (k * 10 ^ (n : Int)) := by
  refine ⟨ds ++ List.replicate n 0x30, [0x30], [], by simp [point], ⟨⟨?_, ?_⟩, ?_⟩, ?_, .inl rfl,
    .inl (List.cons_ne_nil _ _), ?_⟩
  · exact List.append_ne_nil_of_left_ne_nil hw.1.1 _
  · intro b hb
    rcases List.mem_append.1 hb with hb | hb
    · exact hw.1.2 b hb
    · exact isDigit_of_mem_zeros hb
  · rw [List.head?_append_of_ne_nil _ hw.1.1]
    exact fun hhead => absurd hhead hpos
  · intro b hb
    rw [List.mem_singleton.1 hb]
    rfl
  · rw [digitsValue_append, digitsValue_append, digitsValue_zeros, hk]
    have hlast : digitsValue [0x30] = 0 := rfl
    simp [hlast, exponentValue, zpow_neg, mul_assoc]

theorem setOut_within (hw : Whole ds) (hk : digitsValue ds = k) {n : Nat} (hn : n ≠ 0)
    (hlt : n < ds.length) :
    SetOut (ds.take n ++ [0x2e] ++ ds.drop n) (k * 10 ^ (n - ds.length : Int)) := by
  have hne : ds.drop n ≠ [] := by
    rw [ne_eq, List.drop_eq_nil_iff]
    omega
  refine ⟨ds.take n, ds.drop n, [], by simp [point, hne], hw.take hn,
    fun b hb => hw.1.2 b (List.mem_of_mem_drop hb), .inl rfl, .inl hne, ?_⟩
  rw [List.take_append_drop, hk, List.length_drop, exponentValue, Nat.cast_sub hlt.le]
  congr 2
  omega

theorem setOut_below (hd : ∀ b ∈ ds, isDigit b = true) (hne : ds ≠ []) (hk : digitsValue ds = k)
    (n : Nat) : SetOut ([0x30, 0x2e] ++ List.replicate n 0x30 ++ ds)
      (k * 10 ^ (-(n + ds.length) : Int)) := by
  have hfraction : List.replicate n 0x30 ++ ds ≠ [] := List.append_ne_nil_of_right_ne_nil _ hne
  refine ⟨[0x30], List.replicate n 0x30 ++ ds, [], by simp [point, hne], whole_zero, ?_, .inl rfl,
    .inl hfraction, ?_⟩
  · intro b hb
    rcases List.mem_append.1 hb with hb | hb
    · exact isDigit_of_mem_zeros hb
    · exact hd b hb
  · rw [digitsValue_append, digitsValue_append, digitsValue_zeros, hk]
    have hfirst : digitsValue [0x30] = 0 := rfl
    simp [hfirst, exponentValue]

theorem exponentValue_written {sign : Bytes} {lead : Int}
    (hsign : sign = (if lead < 0 then [0x2d] else []) ∨ 0 ≤ lead ∧ sign = [0x2b]) :
    Exponent (0x65 :: (sign ++ encode (decimal lead.natAbs))) ∧
      exponentValue (0x65 :: (sign ++ encode (decimal lead.natAbs))) = lead := by
  have hdigits := (whole_decimal lead.natAbs).1
  have hvalue := digitsValue_decimal lead.natAbs
  generalize encode (decimal lead.natAbs) = es at hdigits hvalue
  have hexponent : sign ∈ [[], [0x2b], [0x2d]] → Exponent (0x65 :: (sign ++ es)) :=
    fun hmem => ⟨0x65, sign, es, by decide, hmem, hdigits, rfl⟩
  by_cases hneg : lead < 0
  · rw [if_pos hneg] at hsign
    obtain rfl := hsign.resolve_right fun h => absurd h.1 (by omega)
    refine ⟨hexponent (by simp), ?_⟩
    rw [List.singleton_append, exponentValue, hvalue]
    omega
  · rw [if_neg hneg] at hsign
    rcases hsign with rfl | ⟨-, rfl⟩
    · refine ⟨hexponent (by simp), ?_⟩
      obtain ⟨d, es, rfl, -, hd, -⟩ := exists_digit hdigits
      rw [not_or] at hd
      rw [List.nil_append, exponentValue, hvalue]
      · omega
      · exact fun es' h => hd.2 (List.cons.inj h).1
      · exact fun es' h => hd.1 (List.cons.inj h).1
    · refine ⟨hexponent (by simp), ?_⟩
      rw [List.singleton_append, exponentValue, hvalue]
      omega

theorem setOut_exponent (hw : Whole ds) (hk : digitsValue ds = k) {exponent : Bytes} {lead : Int}
    (he : Exponent exponent) (hlead : exponentValue exponent = lead) :
    SetOut (ds.take 1 ++ (point (ds.drop 1) ++ exponent)) (k * 10 ^ (lead + 1 - ds.length)) := by
  have hpos : ds.length ≠ 0 := fun h => hw.1.1 (List.length_eq_zero_iff.1 h)
  have hne : exponent ≠ [] := by
    obtain ⟨mark, sign, es, -, -, -, rfl⟩ := he
    exact List.cons_ne_nil _ _
  refine ⟨ds.take 1, ds.drop 1, exponent, rfl, hw.take Nat.one_ne_zero,
    fun b hb => hw.1.2 b (List.mem_of_mem_drop hb), .inr he, .inr hne, ?_⟩
  rw [List.take_append_drop, hk, List.length_drop, hlead]
  congr 2
  omega

end

theorem encode_marks : encode ['.', '0'] = [0x2e, 0x30] ∧ encode ['.'] = [0x2e] ∧
    encode ['0', '.'] = [0x30, 0x2e] ∧ encode ['e'] = [0x65] ∧ encode ['-'] = [0x2d] ∧
    encode ['+'] = [0x2b] ∧ encode [] = [] :=
  ⟨rfl, rfl, rfl, rfl, rfl, rfl, rfl⟩

theorem digits_written {k : Nat} (hk : 0 < k) : Whole (encode (decimal k)) ∧
    digitsValue (encode (decimal k)) = k ∧ (encode (decimal k)).head? ≠ some 0x30 ∧
    (encode (decimal k)).length = (decimal k).length ∧
    ∀ n, encode ((decimal k).take n) = (encode (decimal k)).take n ∧
      encode ((decimal k).drop n) = (encode (decimal k)).drop n := by
  have hdigits : ∀ c ∈ decimal k, c.isDigit = true := fun _ => Numeral.isDigit_of_mem_decimal
  have hwhole := whole_decimal k
  have hvalue := digitsValue_decimal k
  refine ⟨hwhole, hvalue, fun hzero => ?_, ?_, encode_take hdigits⟩
  · rw [hwhole.2 hzero] at hvalue
    have hfirst : digitsValue [0x30] = 0 := rfl
    omega
  · rw [encode_digits hdigits, List.length_map]

theorem setOut_positional {k : Nat} (hk : 0 < k) (p : Int) :
    let lead := p + (decimal k).length - 1
    SetOut (encode (if 0 ≤ p then decimal k ++ List.replicate p.toNat '0' ++ ['.', '0']
      else if 0 ≤ lead then
        (decimal k).take (lead + 1).toNat ++ ['.'] ++ (decimal k).drop (lead + 1).toNat
      else ['0', '.'] ++ List.replicate (-lead - 1).toNat '0' ++ decimal k)) (k * 10 ^ p) := by
  intro lead
  obtain ⟨hwhole, hvalue, hhead, hlength, hcut⟩ := digits_written hk
  have hlead : lead = p + (decimal k).length - 1 := rfl
  rw [← hlength] at hlead
  generalize hds : encode (decimal k) = ds at *
  split
  · rename_i hp
    obtain ⟨n, rfl⟩ := Int.eq_ofNat_of_zero_le hp
    simp only [encode_append, encode_zeros, encode_marks, hds]
    exact setOut_zeros hwhole hhead hvalue n
  · split
    · simp only [encode_append, encode_marks, hcut]
      have hset := setOut_within hwhole hvalue (n := (lead + 1).toNat) (by omega) (by omega)
      rwa [show ((lead + 1).toNat - ds.length : Int) = p by omega] at hset
    · simp only [encode_append, encode_zeros, encode_marks, hds]
      have hset := setOut_below hwhole.1.2 hwhole.1.1 hvalue (-lead - 1).toNat
      rwa [show -((-lead - 1).toNat + ds.length : Int) = p by omega] at hset

theorem setOut_scientific {k : Nat} (hk : 0 < k) (p : Int) (plus : Bool) :
    let lead := p + (decimal k).length - 1
    SetOut (encode ((decimal k).take 1
      ++ (if (decimal k).length = 1 then [] else '.' :: (decimal k).drop 1) ++ ['e']
      ++ (if lead < 0 then ['-'] else if plus then ['+'] else []) ++ decimal lead.natAbs))
      (k * 10 ^ p) := by
  intro lead
  obtain ⟨hwhole, hvalue, -, hlength, hcut⟩ := digits_written hk
  have hlead : lead = p + (decimal k).length - 1 := rfl
  rw [← hlength] at hlead ⊢
  generalize encode (decimal k) = ds at *
  have hpoint : encode (if ds.length = 1 then [] else '.' :: (decimal k).drop 1) =
      point (ds.drop 1) := by
    unfold point
    split
    · rename_i hone
      rw [if_pos (List.drop_eq_nil_of_le hone.le)]
      rfl
    · rename_i hone
      have hne : ds.length ≠ 0 := fun h => hwhole.1.1 (List.length_eq_zero_iff.1 h)
      rw [if_neg (by rw [List.drop_eq_nil_iff]; omega), ← (hcut 1).2]
      rfl
  have hsign : encode (if lead < 0 then ['-'] else if plus then ['+'] else []) =
      (if lead < 0 then [0x2d] else []) ∨ 0 ≤ lead ∧
        encode (if lead < 0 then ['-'] else if plus then ['+'] else []) = [0x2b] := by
    split
    · exact .inl rfl
    · rename_i hneg
      split
      · exact .inr ⟨Int.not_lt.1 hneg, rfl⟩
      · exact .inl rfl
  obtain ⟨he, hexponent⟩ := exponentValue_written hsign
  have hset := setOut_exponent hwhole hvalue he hexponent
  rw [show lead + 1 - ds.length = p by omega] at hset
  simp only [encode_append, encode_marks, hcut, hpoint]
  simpa using hset

theorem setOut_digits (l : FloatLayout) {k : Nat} (hk : 0 < k) (p : Int) :
    SetOut (encode (l.digits k p)) (k * 10 ^ p) := by
  unfold FloatLayout.digits
  dsimp only
  split
  · exact setOut_positional hk p
  · exact setOut_scientific hk p l.plus

theorem numberValue_eq {bs : Bytes} (h : ∀ rest, bs ≠ 0x2d :: rest) :
    numberValue bs = magnitude bs := by
  rw [numberValue]
  exact h

theorem Whole.unsigned {ds : Bytes} (h : Whole ds) (more : Bytes) :
    ∀ rest, ds ++ more ≠ 0x2d :: rest := by
  obtain ⟨d, es, rfl, hdigit, -, -⟩ := exists_digit h.1
  intro rest heq
  rw [(List.cons.inj heq).1] at hdigit
  exact absurd hdigit (by decide)

theorem numberValue_whole {ds : Bytes} (h : Whole ds) :
    numberValue ds = digitsValue ds ∧ numberValue (0x2d :: ds) = -digitsValue ds := by
  have hmagnitude := @magnitude_parts _ [] _ h.1.2 (by simp) (.inl rfl)
  have hunsigned := h.unsigned []
  rw [List.append_nil] at hunsigned
  simp only [point, if_true, List.append_nil, exponentValue, List.length_nil, Nat.cast_zero,
    sub_zero, zpow_zero, mul_one] at hmagnitude
  exact ⟨(numberValue_eq hunsigned).trans hmagnitude, congrArg Neg.neg hmagnitude⟩

theorem SetOut.number {bs : Bytes} {q : ℚ} (h : SetOut bs q) :
    (IsNumber bs ∧ numberValue bs = q) ∧ IsNumber (0x2d :: bs) ∧ numberValue (0x2d :: bs) = -q := by
  obtain ⟨whole, fraction, exponent, rfl, hw, hf, he, -, hvalue⟩ := h
  have hmagnitude := magnitude_parts hw.1.2 hf he
  rw [hvalue] at hmagnitude
  have hplain := @isNumber_parts _ _ _ [] (by simp) hw hf he
  have hsigned := @isNumber_parts _ _ _ [0x2d] (by simp) hw hf he
  exact ⟨⟨hplain, (numberValue_eq (hw.unsigned _)).trans hmagnitude⟩, hsigned,
    congrArg Neg.neg hmagnitude⟩

theorem setOut_magnitude (l : FloatLayout) (x : Binary64) :
    SetOut (encode (if x.isZero then ['0', '.', '0'] else l.digits x.shortest.1 x.shortest.2))
      (if x.isZero then 0 else (x.shortest.1 : ℚ) * 10 ^ x.shortest.2) := by
  split
  · have hdigits : digitsValue [0x30] = 0 := rfl
    have hzero := setOut_below whole_zero.1.2 whole_zero.1.1 hdigits 0
    rwa [Nat.cast_zero, zero_mul] at hzero
  · rename_i hx
    refine setOut_digits l (Binary64.shortest_spec fun hm => hx ?_).1 _
    rw [Binary64.isZero, hm]
    rfl

theorem write_real (x : Binary64) : IsNumber (encode (Number.write (.real x))) ∧
    numberValue (encode (Number.write (.real x))) = x.decimalValue := by
  obtain ⟨hplain, hsigned⟩ := (setOut_magnitude floatLayout x).number
  rw [Number.write, FloatLayout.write, encode_append, Binary64.decimalValue]
  cases x.negative with
  | true =>
    rw [if_pos rfl, if_pos rfl, neg_one_mul]
    exact hsigned
  | false =>
    rw [if_neg Bool.false_ne_true, if_neg Bool.false_ne_true, one_mul]
    exact hplain

end Json

end EventPost
