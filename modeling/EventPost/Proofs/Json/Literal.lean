import EventPost.Proofs.Json.NumberValue
import EventPost.Proofs.Json.Unambiguity
import EventPost.Proofs.Json.Written

/-!
Whole numbers of any length. One that fits 64 bits is written as it was read, but for a zero with a
sign; a longer one is read as a floating-point number, and what is written for that is never the
same text, and the same number only if it has seventeen digits and zeros behind them at most.
-/

namespace EventPost

open Numeral (Binary64 decimal FloatLayout)
open Text (Bytes bytesOf encode encode_append)

namespace Json

/-- The digits of a whole number, however many, with a minus sign before them if there is one. -/
inductive IsLiteral : Bytes → Int → Prop
  | plain {ds : Bytes} : Whole ds → IsLiteral ds (digitsValue ds)
  | minus {ds : Bytes} : Whole ds → IsLiteral (0x2d :: ds) (-digitsValue ds)

def negativeZero : Bytes := [0x2d, 0x30]

theorem digit_written {d : UInt8} (h : isDigit d = true) :
    [d] = encode [(digitOf d).digitChar] ∧ digitOf d < 10 := by
  have hall : ∀ n < 10, [UInt8.ofNat (0x30 + n)] = encode [n.digitChar] := by decide
  simp only [isDigit, Bool.and_eq_true, decide_eq_true_eq, UInt8.le_iff_toNat_le] at h
  have hbounds : 48 ≤ d.toNat ∧ d.toNat ≤ 57 := h
  have hlt : digitOf d < 10 := by
    unfold digitOf
    omega
  have hd : d = UInt8.ofNat (0x30 + digitOf d) := by
    rw [digitOf, show 0x30 + (d.toNat - 0x30) = d.toNat by omega, UInt8.ofNat_toNat]
  refine ⟨?_, hlt⟩
  rw [← hall _ hlt, ← hd]

theorem Whole.eq_decimal {ds : Bytes} (h : Whole ds) : ds = encode (decimal (digitsValue ds)) := by
  induction ds using List.reverseRecOn with
  | nil => exact absurd rfl h.1.1
  | append_singleton ds d ih =>
    obtain ⟨⟨-, hdigits⟩, hzero⟩ := h
    obtain ⟨hd, hlt⟩ := digit_written (hdigits d (List.mem_append_right _ List.mem_cons_self))
    have hlast : digitsValue [d] = digitOf d := by simp [digitsValue]
    by_cases hds : ds = []
    · subst hds
      rw [List.nil_append, hlast, decimal, Nat.toDigits_of_lt_base hlt]
      exact hd
    · -- What stands before the last digit does not begin with a zero.
      have hhead : ds.head? ≠ some 0x30 := by
        intro hhead
        rw [List.head?_append_of_ne_nil _ hds] at hzero
        have hlength := congrArg List.length (hzero hhead)
        have hpos := List.length_pos_iff.2 hds
        rw [List.length_append, List.length_singleton, List.length_singleton] at hlength
        omega
      have hbefore := ih ⟨⟨hds, fun b hb => hdigits b (List.mem_append_left _ hb)⟩,
        fun h => absurd h hhead⟩
      have hpos : digitsValue ds ≠ 0 := by
        intro hvalue
        rw [hvalue] at hbefore
        exact hhead (hbefore ▸ rfl)
      rw [digitsValue_append, hlast, List.length_singleton, decimal,
        Nat.toDigits_of_base_le (by decide) (by omega),
        show (digitsValue ds * 10 ^ 1 + digitOf d) / 10 = digitsValue ds by omega,
        show (digitsValue ds * 10 ^ 1 + digitOf d) % 10 = digitOf d by omega, encode_append, ← hd]
      exact congrArg (· ++ [d]) hbefore

variable {bs : Bytes} {i : Int}

theorem IsNumber.numeral_of_scalar (h : IsNumber bs) {v : Json} (hv : Scalar bs v) :
    ∃ n, IsNumeral bs n ∧ v = .number n := by
  obtain ⟨b, rest, rfl, hb, -⟩ := h.steady
  obtain ⟨-, hword, hquote, -⟩ := head_of_startsNumber hb
  cases hv with
  | word hw =>
    rw [← literal?_eq_some, hword] at hw
    cases hw
  | number hn => exact ⟨_, hn, rfl⟩
  | text ht =>
    obtain ⟨raw, -, hbytes⟩ := ht
    exact absurd (List.cons.inj hbytes).1 hquote

theorem IsNumber.numeral_of_means (h : IsNumber bs) {depth : Nat} {v : Json}
    (hv : Means depth bs v) : ∃ n, IsNumeral bs n ∧ v = .number n := by
  cases depth with
  | zero => exact h.numeral_of_scalar hv
  | succ depth =>
    obtain ⟨b, rest, hbytes, hb, -⟩ := h.steady
    obtain ⟨-, -, -, hlist, hobject, -⟩ := head_of_startsNumber hb
    cases hv with
    | scalar hv => exact h.numeral_of_scalar hv
    | list => exact absurd (List.cons.inj hbytes).1.symm hlist
    | object => exact absurd (List.cons.inj hbytes).1.symm hobject

theorem IsNumber.numeral_of_alone (h : IsNumber bs) {depth : Nat} {v : Json}
    (hv : Alone (Means depth · v) bs) : ∃ n, IsNumeral bs n ∧ v = .number n := by
  have hnumber : ∀ text, text = bs → Value IsNumber text := fun _ htext => .number (htext ▸ h)
  obtain ⟨text, hmeans, rfl⟩ := Alone.both (fun _ h => h.value) hnumber hv (alone_self rfl)
  exact h.numeral_of_means hmeans

theorem IsLiteral.isNumber (h : IsLiteral bs i) : IsNumber bs := by
  cases h with
  | plain hw => exact ⟨[], _, [], by simp, hw, .none, by simp⟩
  | minus hw => exact ⟨[0x2d], _, [], by simp, hw, .none, by simp⟩

theorem IsLiteral.numberValue (h : IsLiteral bs i) : Json.numberValue bs = i := by
  cases h with
  | plain hw =>
    rw [(numberValue_whole hw).1]
    rfl
  | minus hw =>
    rw [(numberValue_whole hw).2]
    push_cast
    rfl

theorem IsInteger.isLiteral (h : IsInteger bs i) : IsLiteral bs i := by
  cases h with
  | positive hw => exact .plain hw
  | negative hw => exact .minus hw

theorem IsLiteral.isInteger (h : IsLiteral bs i) (hf : Fits i) (hz : bs ≠ negativeZero) :
    IsInteger bs i := by
  cases h with
  | plain hw => exact .positive hw hf
  | minus hw =>
    refine .negative hw (fun hzero => hz ?_) hf
    rw [hw.eq_decimal, hzero]
    rfl

theorem IsInteger.text_eq (h : IsInteger bs i) (hf : Fits i) :
    bs = encode (Number.write (.integer i hf)) := by
  rw [Number.write]
  cases h with
  | positive hw =>
    rw [if_neg (by omega)]
    exact hw.eq_decimal
  | negative hw hne =>
    rw [if_pos (by omega)]
    have hds := hw.eq_decimal
    rw [Int.natAbs_neg, Int.natAbs_natCast]
    exact congrArg (0x2d :: ·) hds

theorem IsLiteral.eq_of_isInteger (h : IsLiteral bs i) {j : Int} (hj : IsInteger bs j) : j = i := by
  have hvalue := hj.isLiteral.numberValue.symm.trans h.numberValue
  exact_mod_cast hvalue

theorem SetOut.not_digits {q : ℚ} (h : SetOut bs q) : ¬∀ b ∈ bs, isDigit b = true := by
  obtain ⟨whole, fraction, exponent, rfl, hw, hf, he, hsome, -⟩ := h
  obtain ⟨hparts, hundigit⟩ := fractionOf_point hf he
  intro hdigits
  cases hrest : point fraction ++ exponent with
  | nil =>
    rw [hrest] at hparts
    obtain ⟨rfl, rfl⟩ := Prod.mk.inj hparts
    exact hsome.elim (absurd rfl) (absurd rfl)
  | cons b rest =>
    rw [hrest] at hundigit hdigits
    have hb := hdigits b (List.mem_append_right _ List.mem_cons_self)
    rw [hundigit b rfl] at hb
    cases hb

theorem write_real_ne (h : IsLiteral bs i) (x : Binary64) :
    encode (Number.write (.real x)) ≠ bs := by
  have hset := setOut_magnitude floatLayout x
  rw [Number.write, FloatLayout.write, encode_append]
  generalize encode (if x.isZero then ['0', '.', '0'] else
    floatLayout.digits x.shortest.1 x.shortest.2) = text at hset
  intro htext
  have hdash : isDigit 0x2d = false := by decide
  cases h with
  | plain hw =>
    refine hset.not_digits fun b hb => hw.1.2 b ?_
    rw [← htext]
    exact List.mem_append_right _ hb
  | minus hw =>
    cases hx : x.negative with
    | true =>
      rw [hx] at htext
      obtain rfl := (List.cons.inj htext).2
      exact hset.not_digits hw.1.2
    | false =>
      rw [hx] at htext
      obtain ⟨whole, fraction, exponent, rfl, hw', -⟩ := hset
      exact hw'.unsigned _ _ htext

end Json

theorem Numeral.Binary64.digits_of_decimalValue {x : Binary64} {i : Int}
    (h : x.decimalValue = i) : ∃ m ≤ 10 ^ 17, ∃ p : Nat, i.natAbs = m * 10 ^ p := by
  have habs : (i.natAbs : ℚ) = if x.isZero then 0 else (x.shortest.1 : ℚ) * 10 ^ x.shortest.2 := by
    rw [Nat.cast_natAbs, Int.cast_abs, ← h, Numeral.Binary64.decimalValue, abs_mul]
    have hsign : |if x.negative then (-1 : ℚ) else 1| = 1 := by split <;> simp
    rw [hsign, one_mul, abs_of_nonneg]
    split <;> positivity
  split at habs
  · refine ⟨0, Nat.zero_le _, 0, ?_⟩
    rw [zero_mul]
    exact_mod_cast habs
  · rename_i hzero
    have hk : x.shortest.1 ≤ 10 ^ 17 := by
      refine (Binary64.shortest_spec fun hm => hzero ?_).2
      rw [Binary64.isZero, hm]
      rfl
    rcases le_or_gt 0 x.shortest.2 with hp | hp
    · obtain ⟨p, hp⟩ := Int.eq_ofNat_of_zero_le hp
      refine ⟨x.shortest.1, hk, p, ?_⟩
      rw [hp, zpow_natCast] at habs
      exact_mod_cast habs
    · refine ⟨i.natAbs, hk.trans' ?_, 0, by rw [pow_zero, mul_one]⟩
      have hle : (i.natAbs : ℚ) ≤ x.shortest.1 := by
        rw [habs]
        exact mul_le_of_le_one_right (Nat.cast_nonneg _) (zpow_le_one_of_nonpos₀ (by norm_num) hp.le)
      exact_mod_cast hle

end EventPost
