import Mathlib.Algebra.Order.Field.Power
import Mathlib.Data.Nat.Digits.Defs
import Mathlib.Data.Rat.Floor
import Mathlib.Tactic.FieldSimp
import Mathlib.Tactic.Linarith
import Mathlib.Tactic.NormNum
import Mathlib.Tactic.Positivity
import EventPost.Numeral.Shortest

/-!
How long the shortest decimal is. The reals that round to a number are spread wider than the
seventeenth digit of any of them, so one with seventeen digits is always found among them.
-/

namespace EventPost.Numeral

theorem lt_pow_length (n : Nat) : n < 10 ^ (decimal n).length :=
  (Nat.length_toDigits_le_iff (by decide) Nat.length_toDigits_pos).1 (Nat.le_refl _)

theorem pow_length_le {n : Nat} (h : 0 < n) : 10 ^ ((decimal n).length - 1) ≤ n := by
  by_contra hlt
  rw [Nat.not_le] at hlt
  rcases Nat.eq_zero_or_pos ((decimal n).length - 1) with hzero | hpos
  · rw [hzero] at hlt
    omega
  · have hle := (Nat.length_toDigits_le_iff (by decide) hpos).2 hlt
    have hlength : 0 < (decimal n).length := Nat.length_toDigits_pos
    unfold decimal at *
    omega

/-- The power of ten of the leading digit of a quotient. -/
theorem leadingPower_spec {n d : Nat} (hn : 0 < n) (hd : 0 < d) :
    (10 : ℚ) ^ leadingPower n d ≤ n / d ∧ (n / d : ℚ) < 10 ^ (leadingPower n d + 1) := by
  have hn' : (0 : ℚ) < n := by exact_mod_cast hn
  have hd' : (0 : ℚ) < d := by exact_mod_cast hd
  unfold leadingPower
  split
  · rename_i hle
    have hpos : 0 < n / d := Nat.div_pos hle hd
    have hlow := pow_length_le hpos
    have hhigh := lt_pow_length (n / d)
    obtain ⟨l, hl⟩ : ∃ l, (decimal (n / d)).length = l + 1 :=
      Nat.exists_eq_succ_of_ne_zero (Nat.ne_of_gt Nat.length_toDigits_pos)
    rw [hl] at hlow hhigh ⊢
    rw [Nat.add_sub_cancel, Nat.le_div_iff_mul_le hd] at hlow
    rw [Nat.div_lt_iff_lt_mul hd] at hhigh
    rw [Nat.cast_succ, Int.add_sub_cancel, ← Nat.cast_succ, zpow_natCast, zpow_natCast,
      le_div_iff₀ hd', div_lt_iff₀ hd']
    exact ⟨by exact_mod_cast hlow, by exact_mod_cast hhigh⟩
  · rename_i hlt
    have hpos : 0 < (d - 1) / n := Nat.div_pos (by omega) hn
    have hlow := pow_length_le hpos
    have hhigh := lt_pow_length ((d - 1) / n)
    obtain ⟨l, hl⟩ : ∃ l, (decimal ((d - 1) / n)).length = l + 1 :=
      Nat.exists_eq_succ_of_ne_zero (Nat.ne_of_gt Nat.length_toDigits_pos)
    rw [hl] at hlow hhigh ⊢
    rw [Nat.add_sub_cancel, Nat.le_div_iff_mul_le hn] at hlow
    rw [Nat.div_lt_iff_lt_mul hn] at hhigh
    have hlow' : (10 : ℚ) ^ l * n < d := by
      exact_mod_cast Nat.lt_of_le_of_lt hlow (Nat.sub_lt hd Nat.one_pos)
    have hhigh' : (d : ℚ) ≤ 10 ^ (l + 1) * n := by
      exact_mod_cast Nat.le_of_pred_lt hhigh
    rw [Nat.cast_succ, neg_add, Int.neg_add_cancel_right, ← neg_add, ← Nat.cast_succ, zpow_neg,
      zpow_neg, zpow_natCast, zpow_natCast]
    constructor
    · rw [inv_le_comm₀ (by positivity) (by positivity), inv_div, div_le_iff₀ hn']
      exact hhigh'
    · rw [lt_inv_comm₀ (by positivity) (by positivity), inv_div, lt_div_iff₀ hn']
      exact hlow'

theorem multiple_le_iff {d : Nat} (hd : 0 < d) (n k : Nat) (p : Int) :
    ((k * 10 ^ p : ℚ) ≤ n / d ↔ k * 10 ^ p.toNat * d ≤ n * 10 ^ (-p).toNat) ∧
      ((n / d : ℚ) ≤ k * 10 ^ p ↔ n * 10 ^ (-p).toNat ≤ k * 10 ^ p.toNat * d) := by
  have hd' : (0 : ℚ) < d := by exact_mod_cast hd
  have hunit : (0 : ℚ) < 10 ^ (-p).toNat := by positivity
  have hpow : (10 : ℚ) ^ p = 10 ^ p.toNat / 10 ^ (-p).toNat := by
    rw [eq_div_iff hunit.ne', ← zpow_natCast, ← zpow_natCast, ← zpow_add₀ (by norm_num)]
    congr 1
    omega
  rw [hpow, ← mul_div_assoc, div_le_div_iff₀ hunit hd', div_le_div_iff₀ hd' hunit]
  constructor
  · exact_mod_cast Iff.rfl
  · exact_mod_cast Iff.rfl

namespace Interval

variable {i : Interval} {p : Int}

theorem holds_of_between (hd : 0 < i.denominator) {k : Nat}
    (hlow : (i.low / i.denominator : ℚ) < k * 10 ^ p)
    (hhigh : (k * 10 ^ p : ℚ) < i.high / i.denominator) : i.holds k p = true := by
  rw [← not_le, (multiple_le_iff hd i.low k p).1, Nat.not_le] at hlow
  rw [← not_le, (multiple_le_iff hd i.high k p).2, Nat.not_le] at hhigh
  unfold holds
  simp only [Nat.pow_eq]
  split
  · exact Bool.and_eq_true_iff.2 ⟨decide_eq_true hlow.le, decide_eq_true hhigh.le⟩
  · exact Bool.and_eq_true_iff.2 ⟨decide_eq_true hlow, decide_eq_true hhigh⟩

def stepsBelow (i : Interval) (p : Int) : Nat :=
  i.value * Nat.pow 10 (-p).toNat / (i.denominator * Nat.pow 10 p.toNat)

theorem stepsBelow_spec (hd : 0 < i.denominator) (p : Int) :
    (i.stepsBelow p * 10 ^ p : ℚ) ≤ i.value / i.denominator ∧
      (i.value / i.denominator : ℚ) < (i.stepsBelow p + 1 : ℕ) * 10 ^ p := by
  have hpos : 0 < i.denominator * 10 ^ p.toNat := by positivity
  have hlow := Nat.div_mul_le_self (i.value * 10 ^ (-p).toNat) (i.denominator * 10 ^ p.toNat)
  have hhigh := (Nat.div_lt_iff_lt_mul hpos).1
    (Nat.lt_succ_self (i.value * 10 ^ (-p).toNat / (i.denominator * 10 ^ p.toNat)))
  rw [(multiple_le_iff hd _ _ p).1, ← not_le, (multiple_le_iff hd _ _ p).1, Nat.not_le]
  unfold stepsBelow
  simp only [Nat.pow_eq]
  rw [mul_assoc, mul_assoc, mul_comm (10 ^ p.toNat)]
  exact ⟨hlow, hhigh⟩

theorem onGrid?_eq_some {k : Nat} (h : i.onGrid? p = some k) :
    k = i.stepsBelow p ∨ k = i.stepsBelow p + 1 := by
  unfold onGrid? at h
  simp only at h
  split at h
  · rw [← Option.some.inj h, Binary64.roundEven, stepsBelow]
    split
    · exact .inl rfl
    · split
      · exact .inr rfl
      · omega
  · exact .inl (Option.some.inj h).symm
  · exact .inr (Option.some.inj h).symm
  · exact nomatch h

theorem holds_of_onGrid? {k : Nat} (h : i.onGrid? p = some k) : i.holds k p = true := by
  have hsteps := onGrid?_eq_some h
  unfold onGrid? at h
  simp only at h
  split at h
  · rename_i hfirst hlast
    rcases hsteps with rfl | rfl
    · exact hfirst
    · exact hlast
  · rename_i hfirst _
    exact Option.some.inj h ▸ hfirst
  · rename_i _ hlast
    exact Option.some.inj h ▸ hlast
  · exact nomatch h

theorem pos_of_holds {k : Nat} (hlow : 0 < i.low) (h : i.holds k p = true) : 0 < k := by
  have hunit : 0 < i.low * 10 ^ (-p).toNat := by positivity
  rw [Nat.pos_iff_ne_zero]
  rintro rfl
  unfold holds at h
  simp only [Nat.zero_mul, Nat.pow_eq] at h
  split at h <;>
    rw [Bool.and_eq_true, decide_eq_true_eq, decide_eq_true_eq] at h <;>
    omega

theorem exists_onGrid (hd : 0 < i.denominator) (hlow : i.low < i.value) (hhigh : i.value < i.high)
    (hwide : (10 ^ p : ℚ) < (i.high - i.low) / i.denominator) : ∃ k, i.onGrid? p = some k := by
  have hd' : (0 : ℚ) < i.denominator := by exact_mod_cast hd
  have hlow' : (i.low / i.denominator : ℚ) < i.value / i.denominator := by gcongr
  have hhigh' : (i.value / i.denominator : ℚ) < i.high / i.denominator := by gcongr
  obtain ⟨hbelow, habove⟩ := stepsBelow_spec hd p
  have hheld : i.holds (i.stepsBelow p) p = true ∨ i.holds (i.stepsBelow p + 1) p = true := by
    by_contra hnone
    rw [not_or] at hnone
    have hfirst : (i.stepsBelow p * 10 ^ p : ℚ) ≤ i.low / i.denominator := by
      by_contra hlt
      exact hnone.1 (holds_of_between hd (not_le.1 hlt) (hbelow.trans_lt hhigh'))
    have hlast : (i.high / i.denominator : ℚ) ≤ (i.stepsBelow p + 1 : ℕ) * 10 ^ p := by
      by_contra hlt
      exact hnone.2 (holds_of_between hd (hlow'.trans habove) (not_le.1 hlt))
    rw [sub_div] at hwide
    push_cast at hlast
    linarith
  unfold onGrid?
  simp only
  split
  · exact ⟨_, rfl⟩
  · exact ⟨_, rfl⟩
  · exact ⟨_, rfl⟩
  · rename_i hfirst hlast
    rcases hheld with hheld | hheld
    · exact absurd (hheld.symm.trans hfirst) (by decide)
    · exact absurd (hheld.symm.trans hlast) (by decide)

theorem search_eq {lead : Int} {last : Nat} (h : ∃ k, i.onGrid? (lead - last) = some k)
    (tries : Nat) : ∀ count, count ≤ last → last < count + tries → ∃ c ≤ last, ∃ k,
      i.onGrid? (lead - c) = some k ∧ i.search lead tries count = (k, lead - c) := by
  induction tries with
  | zero =>
    intro count hle hlt
    omega
  | succ tries ih =>
    intro count hle hlt
    rw [search]
    cases hgrid : i.onGrid? (lead - count) with
    | some k => exact ⟨count, hle, k, hgrid, rfl⟩
    | none =>
      have hne : count ≠ last := by
        rintro rfl
        obtain ⟨k, hk⟩ := h
        exact nomatch hgrid.symm.trans hk
      exact ih (count + 1) (by omega) (by omega)

end Interval

theorem dropZeros_le (k : Nat) (p : Int) (n : Nat) : (dropZeros k p n).1 ≤ k := by
  induction n generalizing k p with
  | zero => exact Nat.le_refl k
  | succ n ih =>
    rw [dropZeros]
    split
    · exact (ih (k / 10) (p + 1)).trans (Nat.div_le_self k 10)
    · exact Nat.le_refl k

theorem dropZeros_pos {k : Nat} (h : 0 < k) (p : Int) (n : Nat) : 0 < (dropZeros k p n).1 := by
  induction n generalizing k p with
  | zero => exact h
  | succ n ih =>
    rw [dropZeros]
    split
    · exact ih (by omega) (p + 1)
    · exact h

namespace Binary64

variable {x : Binary64}

theorem interval_spec (hx : x.mantissa ≠ 0) : 0 < x.interval.denominator ∧ 0 < x.interval.low ∧
    x.interval.low < x.interval.value ∧ x.interval.value < x.interval.high := by
  have hscale : 0 < Nat.pow 2 (x.exponent - 2).toNat := Nat.pow_pos (by decide)
  have hm : 0 < x.mantissa := Nat.pos_of_ne_zero hx
  refine ⟨Nat.pow_pos (by decide), Nat.mul_pos ?_ hscale, ?_, ?_⟩
  · split <;> omega
  · refine Nat.mul_lt_mul_of_pos_right ?_ hscale
    split <;> omega
  · exact Nat.mul_lt_mul_of_pos_right (by omega) hscale

theorem interval_wide (hx : x.mantissa ≠ 0) : (x.interval.value : ℚ) <
    10 ^ 16 * (x.interval.high - x.interval.low) := by
  have hfull : leastFull = 2 ^ 52 := rfl
  have hm : x.mantissa < 2 * leastFull := by
    rcases x.canonical with h | h
    · exact h.2.1
    · exact h.1.trans (by decide)
  -- In units of a quarter of the last place, so many lie below the value within the interval.
  obtain ⟨below, hbelow, hlow, hnear⟩ : ∃ below ≤ 4 * x.mantissa,
      x.interval.low = (4 * x.mantissa - below) * Nat.pow 2 (x.exponent - 2).toNat ∧
        4 * x.mantissa < 10 ^ 16 * (2 + below) := by
    by_cases hleast : x.mantissa = leastFull ∧ x.exponent ≠ -1074
    · exact ⟨1, by omega, by rw [interval, if_pos hleast], by omega⟩
    · exact ⟨2, by omega, by rw [interval, if_neg hleast], by omega⟩
  have hnear' : (4 * x.mantissa : ℚ) < 10 ^ 16 * (2 + below) := by exact_mod_cast hnear
  have hscale : (0 : ℚ) < 2 ^ (x.exponent - 2).toNat := by positivity
  have hvalue : (x.interval.value : ℚ) = 4 * x.mantissa * 2 ^ (x.exponent - 2).toNat := by
    exact_mod_cast rfl
  have hhigh : (x.interval.high : ℚ) = (4 * x.mantissa + 2) * 2 ^ (x.exponent - 2).toNat := by
    exact_mod_cast rfl
  rw [hvalue, hhigh, hlow, Nat.cast_mul, Nat.cast_sub hbelow, Nat.pow_eq]
  push_cast
  calc (4 * x.mantissa * 2 ^ (x.exponent - 2).toNat : ℚ)
      < 10 ^ 16 * (2 + below) * 2 ^ (x.exponent - 2).toNat :=
        mul_lt_mul_of_pos_right hnear' hscale
    _ = 10 ^ 16 * ((4 * x.mantissa + 2) * 2 ^ (x.exponent - 2).toNat -
          (4 * x.mantissa - below) * 2 ^ (x.exponent - 2).toNat) := by ring

/-- The shortest decimal has seventeen digits at most, or is the power of ten beyond those. -/
theorem shortest_spec (hx : x.mantissa ≠ 0) : 0 < x.shortest.1 ∧ x.shortest.1 ≤ 10 ^ 17 := by
  obtain ⟨hd, hpos, hlow, hhigh⟩ := interval_spec hx
  have hd' : (0 : ℚ) < x.interval.denominator := by exact_mod_cast hd
  obtain ⟨hlead, hnext⟩ := leadingPower_spec (hpos.trans hlow) hd
  have hgrid : ∃ k, x.interval.onGrid?
      (leadingPower x.interval.value x.interval.denominator - (16 : ℕ)) = some k := by
    refine Interval.exists_onGrid hd hlow hhigh ?_
    rw [zpow_sub₀ (by norm_num), zpow_natCast, div_lt_iff₀ (by positivity)]
    calc (10 : ℚ) ^ leadingPower x.interval.value x.interval.denominator
        ≤ x.interval.value / x.interval.denominator := hlead
      _ < 10 ^ 16 * (x.interval.high - x.interval.low) / x.interval.denominator := by
        gcongr
        exact interval_wide hx
      _ = (x.interval.high - x.interval.low) / x.interval.denominator * 10 ^ 16 := by ring
  obtain ⟨c, hc, k, hk, hsearch⟩ := Interval.search_eq hgrid 17 0 (by omega) (by omega)
  have hsteps : x.interval.stepsBelow
      (leadingPower x.interval.value x.interval.denominator - c) < 10 ^ 17 := by
    have hbelow := (Interval.stepsBelow_spec hd
      (leadingPower x.interval.value x.interval.denominator - c)).1.trans_lt hnext
    have hpow : (10 : ℚ) ^ (leadingPower x.interval.value x.interval.denominator + 1) =
        10 ^ (c + 1) * 10 ^ (leadingPower x.interval.value x.interval.denominator - c) := by
      rw [← zpow_natCast, ← zpow_add₀ (by norm_num)]
      congr 1
      push_cast
      ring
    rw [hpow, mul_lt_mul_iff_left₀ (by positivity)] at hbelow
    calc x.interval.stepsBelow (leadingPower x.interval.value x.interval.denominator - c)
        < 10 ^ (c + 1) := by exact_mod_cast hbelow
      _ ≤ 10 ^ 17 := Nat.pow_le_pow_right (by decide) (by omega)
  unfold shortest
  simp only [hsearch]
  refine ⟨dropZeros_pos (Interval.pos_of_holds hpos (Interval.holds_of_onGrid? hk)) _ _,
    (dropZeros_le _ _ _).trans ?_⟩
  rcases Interval.onGrid?_eq_some hk with rfl | rfl <;> omega

end Binary64

end EventPost.Numeral
