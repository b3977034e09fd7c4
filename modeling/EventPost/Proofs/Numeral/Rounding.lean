import Mathlib.Algebra.Order.Field.Power
import Mathlib.Data.Rat.Cast.Order
import Mathlib.Tactic.Linarith
import Mathlib.Tactic.NormNum
import Mathlib.Tactic.Positivity
import Mathlib.Tactic.Ring
import EventPost.Numeral.Binary64

/-!
Rounding. The floating-point number of a rational is the one nearest to it, and of two that are
equally near the even one; from half a step beyond the largest on, a rational has none. There is at
most one such number, and a quotient is turned into it.
-/

namespace EventPost.Numeral.Binary64

/-- The number itself. -/
def value (x : Binary64) : ℚ := (if x.negative then -1 else 1) * (x.mantissa * 2 ^ x.exponent)

/-- The number that a rational without sign is rounded to. -/
structure Rounds (q : ℚ) (x : Binary64) : Prop where
  unsigned : x.negative = false
  below : q < 2 ^ 1024 - 2 ^ 970
  nearest : ∀ y : Binary64, |x.value - q| ≤ |y.value - q|
  even : ∀ y : Binary64, y.value ≠ x.value → |y.value - q| = |x.value - q| → x.mantissa % 2 = 0

variable {x y z : Binary64} {q : ℚ} {s : Int} {m n d : Nat}

theorem value_unsigned (h : x.negative = false) : x.value = x.mantissa * 2 ^ x.exponent := by
  rw [value, h, if_neg Bool.false_ne_true, one_mul]

theorem mantissa_lt (x : Binary64) : x.mantissa < 2 * leastFull := by
  rcases x.canonical with h | h <;> omega

theorem exponent_bounds (x : Binary64) : -1074 ≤ x.exponent ∧ x.exponent ≤ 971 := by
  rcases x.canonical with h | h <;> omega

theorem full_of_exponent (h : -1074 < x.exponent) : leastFull ≤ x.mantissa := by
  rcases x.canonical with h | h <;> omega

theorem two_zpow_pos (s : Int) : (0 : ℚ) < 2 ^ s := by positivity

theorem exists_multiple (h : s ≤ y.exponent) : ∃ k : ℤ, y.value = k * 2 ^ s := by
  obtain ⟨j, hj⟩ := Int.eq_ofNat_of_zero_le (Int.sub_nonneg_of_le h)
  have hpow : (2 : ℚ) ^ y.exponent = 2 ^ j * 2 ^ s := by
    rw [← zpow_natCast, ← zpow_add₀ two_ne_zero]
    congr 1
    omega
  refine ⟨(if y.negative then -1 else 1) * (y.mantissa * 2 ^ j), ?_⟩
  rw [value, hpow]
  push_cast
  ring

theorem value_lt_full (h : y.exponent < s) : y.value < leastFull * 2 ^ s := by
  have hmantissa : (y.mantissa : ℚ) < 2 * leastFull := by exact_mod_cast y.mantissa_lt
  have hpow := two_zpow_pos y.exponent
  have hsize : y.value ≤ y.mantissa * 2 ^ y.exponent := by
    have hnonneg : (0 : ℚ) ≤ y.mantissa * 2 ^ y.exponent := by positivity
    rw [value]
    split <;> linarith
  calc y.value ≤ y.mantissa * 2 ^ y.exponent := hsize
    _ < 2 * leastFull * 2 ^ y.exponent := mul_lt_mul_of_pos_right hmantissa hpow
    _ = leastFull * 2 ^ (y.exponent + 1) := by rw [zpow_add_one₀ two_ne_zero]; ring
    _ ≤ leastFull * 2 ^ s := by
      gcongr
      · norm_num
      · omega

section Uniqueness

theorem eq_of_value (hx : x.negative = false) (hy : y.negative = false)
    (h : x.value = y.value) : x = y := by
  -- The one with the greater exponent would have a full mantissa beyond what the other can reach.
  have hle : ∀ {x y : Binary64}, x.negative = false → y.negative = false → x.value = y.value →
      y.exponent ≤ x.exponent := by
    intro x y hx hy h
    by_contra hlt
    have hfull : (leastFull : ℚ) ≤ y.mantissa := by
      have := x.exponent_bounds
      exact_mod_cast full_of_exponent (x := y) (by omega)
    have hbelow := value_lt_full (not_le.1 hlt)
    rw [h, value_unsigned hy] at hbelow
    exact absurd (lt_of_mul_lt_mul_right hbelow (two_zpow_pos _).le) (not_lt.2 hfull)
  have hexponent := le_antisymm (hle hy hx h.symm) (hle hx hy h)
  have hmantissa : x.mantissa = y.mantissa := by
    rw [value_unsigned hx, value_unsigned hy, hexponent] at h
    exact_mod_cast mul_right_cancel₀ (two_zpow_pos _).ne' h
  obtain ⟨_, _, _, _⟩ := x
  obtain ⟨_, _, _, _⟩ := y
  simp_all

def next (x : Binary64) (h : x.mantissa % 2 = 0) : Binary64 where
  negative := false
  mantissa := x.mantissa + 1
  exponent := x.exponent
  canonical := by
    have hlt := x.mantissa_lt
    rcases x.canonical with hx | hx
    · exact .inl (by omega)
    · by_cases hfull : x.mantissa + 1 = leastFull
      · exact .inl (by omega)
      · exact .inr (by omega)

theorem value_next (hx : x.negative = false) (h : x.mantissa % 2 = 0) :
    (x.next h).value = x.value + 2 ^ x.exponent := by
  rw [value_unsigned rfl, value_unsigned hx, next]
  push_cast
  ring

theorem value_next_le (hx : x.negative = false) (h : x.mantissa % 2 = 0) (hy : x.value < y.value) :
    (x.next h).value ≤ y.value := by
  have hpow := two_zpow_pos x.exponent
  rw [value_unsigned hx] at hy
  by_cases he : x.exponent ≤ y.exponent
  · obtain ⟨k, hk⟩ := exists_multiple he
    rw [hk] at hy ⊢
    have hlt := lt_of_mul_lt_mul_right hy hpow.le
    have hle : (x.mantissa + 1 : ℚ) ≤ k := by exact_mod_cast hlt
    rw [value_next hx h, value_unsigned hx]
    linarith [mul_le_mul_of_nonneg_right hle hpow.le]
  · have hbelow := value_lt_full (not_le.1 he)
    have hfull : (leastFull : ℚ) ≤ x.mantissa := by
      have := y.exponent_bounds
      exact_mod_cast full_of_exponent (x := x) (by omega)
    exact absurd (lt_of_mul_lt_mul_right (hy.trans hbelow) hpow.le) (not_lt.2 hfull)

theorem Rounds.value_le (hx : Rounds q x) (hy : Rounds q y) : y.value ≤ x.value := by
  by_contra hapart
  have hlt : x.value < y.value := not_le.1 hapart
  have hnear : |y.value - q| = |x.value - q| := le_antisymm (hy.nearest x) (hx.nearest y)
  have hxeven := hx.even y hlt.ne' hnear
  have hyeven := hy.even x hlt.ne hnear.symm
  have hle := value_next_le hx.unsigned hxeven hlt
  have hne : (x.next hxeven).value ≠ y.value := by
    intro heq
    have hmantissa : x.mantissa + 1 = y.mantissa :=
      congrArg mantissa (eq_of_value (x := x.next hxeven) rfl hy.unsigned heq)
    omega
  have hnext := hx.nearest (x.next hxeven)
  have hpow := two_zpow_pos x.exponent
  have hstep := value_next hx.unsigned hxeven
  have hless := lt_of_le_of_ne hle hne
  rcases abs_cases (x.value - q) with h | h <;> rcases abs_cases (y.value - q) with h' | h' <;>
    rcases abs_cases ((x.next hxeven).value - q) with h'' | h'' <;> linarith

theorem Rounds.unique (hx : Rounds q x) (hy : Rounds q y) : x = y :=
  eq_of_value hx.unsigned hy.unsigned (le_antisymm (hy.value_le hx) (hx.value_le hy))

end Uniqueness

section Quotient

theorem zpow_split (s : Int) : (2 : ℚ) ^ s = 2 ^ s.toNat / 2 ^ (-s).toNat := by
  rw [eq_div_iff (by positivity), ← zpow_natCast, ← zpow_natCast, ← zpow_add₀ two_ne_zero]
  congr 1
  omega

theorem steps_eq (n d : Nat) (s : Int) :
    ((n * 2 ^ (-s).toNat : ℕ) : ℚ) / (d * 2 ^ s.toNat : ℕ) = n / d / 2 ^ s := by
  rw [zpow_split]
  push_cast
  rw [div_div_eq_mul_div, div_mul_eq_mul_div, div_div]

theorem log2_spec (hn : 0 < n) : (2 : ℚ) ^ (n.log2 : Int) ≤ n ∧ (n : ℚ) < 2 ^ (n.log2 + 1 : Int) := by
  rw [← Nat.cast_succ, zpow_natCast, zpow_natCast]
  exact ⟨by exact_mod_cast Nat.log2_self_le hn.ne', by exact_mod_cast Nat.lt_log2_self⟩

/-- By the lengths of both, a quotient is known but for one digit. -/
theorem quotient_bounds (hn : 0 < n) (hd : 0 < d) {p : Int}
    (hp : (n.log2 : Int) - d.log2 - 52 = p) :
    (2 : ℚ) ^ (52 + (p - 1)) < n / d ∧ (n / d : ℚ) < 2 ^ (53 + p) := by
  have hd' : (0 : ℚ) < d := by exact_mod_cast hd
  obtain ⟨hnlow, hnhigh⟩ := log2_spec hn
  obtain ⟨hdlow, hdhigh⟩ := log2_spec hd
  constructor
  · rw [lt_div_iff₀ hd']
    calc (2 : ℚ) ^ (52 + (p - 1)) * d < 2 ^ (52 + (p - 1)) * 2 ^ (d.log2 + 1 : Int) := by gcongr
      _ = 2 ^ (n.log2 : Int) := by
        rw [← zpow_add₀ two_ne_zero]
        congr 1
        omega
      _ ≤ n := hnlow
  · rw [div_lt_iff₀ hd']
    calc (n : ℚ) < 2 ^ (n.log2 + 1 : Int) := hnhigh
      _ = 2 ^ (53 + p) * 2 ^ (d.log2 : Int) := by
        rw [← zpow_add₀ two_ne_zero]
        congr 1
        omega
      _ ≤ 2 ^ (53 + p) * d := by gcongr

theorem leastFull_eq : (leastFull : ℚ) = 2 ^ (52 : Int) := by norm_num [leastFull]

/-- Whichever way that digit falls, the grid is the one for 53 digits before the finest is put in its
place. -/
theorem exists_scale (hn : 0 < n) (hd : 0 < d) : ∃ g, scaleOf n d = max g (-1074) ∧
    (2 : ℚ) ^ (52 + g) ≤ n / d ∧ (n / d : ℚ) < 2 ^ (53 + g) := by
  obtain ⟨hlow, hhigh⟩ := quotient_bounds hn hd rfl
  unfold scaleOf
  generalize (n.log2 : Int) - d.log2 - 52 = p at *
  have hpos : (0 : ℚ) < (d * 2 ^ p.toNat : ℕ) := by
    have hd' : (0 : ℚ) < d := by exact_mod_cast hd
    push_cast
    positivity
  have htest : n * Nat.pow 2 (-p).toNat < leastFull * (d * Nat.pow 2 p.toNat) ↔
      (n / d : ℚ) < 2 ^ (52 + p) := by
    rw [zpow_add₀ two_ne_zero, ← leastFull_eq, ← div_lt_iff₀ (two_zpow_pos p), ← steps_eq,
      div_lt_iff₀ hpos]
    exact_mod_cast Iff.rfl
  simp only [htest]
  split
  · rename_i hless
    refine ⟨p - 1, rfl, hlow.le, ?_⟩
    rwa [show (53 + (p - 1) : Int) = 52 + p by omega]
  · rename_i hmore
    exact ⟨p, rfl, not_lt.1 hmore, hhigh⟩

/-- On the grid that is chosen, a quotient comes to 53 digits at most, and to no less unless the grid
is the finest. -/
theorem scaleOf_spec (hn : 0 < n) (hd : 0 < d) : -1074 ≤ scaleOf n d ∧
    (n / d : ℚ) < 2 * leastFull * 2 ^ scaleOf n d ∧
    (scaleOf n d = -1074 ∨ leastFull * 2 ^ scaleOf n d ≤ (n / d : ℚ)) := by
  obtain ⟨g, hg, hlow, hhigh⟩ := exists_scale hn hd
  have htwice : ∀ g : Int, 2 * (leastFull : ℚ) * 2 ^ g = 2 ^ (53 + g) := by
    intro g
    rw [leastFull_eq, zpow_add₀ two_ne_zero 53 g]
    norm_num
  rw [hg, htwice, leastFull_eq, ← zpow_add₀ two_ne_zero]
  refine ⟨le_max_right _ _, hhigh.trans_le ?_, ?_⟩
  · gcongr
    · norm_num
    · exact le_max_left _ _
  · rcases le_total g (-1074) with h | h
    · exact .inl (max_eq_right h)
    · rw [max_eq_left h]
      exact .inr hlow

/-- What is left of a quotient behind its whole part decides where it is rounded to. -/
theorem roundEven_cases (hd : 0 < d) : ∃ f : ℚ, (n / d : ℚ) = (n / d : ℕ) + f ∧ 0 ≤ f ∧ f < 1 ∧
    (roundEven n d = n / d ∧ f ≤ 1 / 2 ∨ roundEven n d = n / d + 1 ∧ 1 / 2 ≤ f) ∧
    (f = 1 / 2 → roundEven n d % 2 = 0) := by
  have hd' : (0 : ℚ) < d := by exact_mod_cast hd
  obtain ⟨f, hmod⟩ : ∃ f : ℚ, ((n % d : ℕ) : ℚ) = f * d :=
    ⟨(n % d : ℕ) / d, (div_mul_cancel₀ _ hd'.ne').symm⟩
  have hsplit : (n / d : ℚ) = (n / d : ℕ) + f := by
    rw [div_eq_iff hd'.ne', add_mul, ← hmod]
    exact_mod_cast (Nat.div_add_mod' n d).symm
  have hnonneg : 0 ≤ f := by
    refine nonneg_of_mul_nonneg_left (hmod ▸ Nat.cast_nonneg _) hd'
  have hlt : f < 1 := by
    have hless : ((n % d : ℕ) : ℚ) < d := by exact_mod_cast Nat.mod_lt n hd
    rw [hmod] at hless
    exact (mul_lt_iff_lt_one_left hd').1 hless
  have hbelow : 2 * (n % d) < d ↔ f < 1 / 2 := by
    rw [← Nat.cast_lt (α := ℚ), Nat.cast_mul, hmod]
    push_cast
    constructor <;> intro h <;> nlinarith
  have habove : d < 2 * (n % d) ↔ 1 / 2 < f := by
    rw [← Nat.cast_lt (α := ℚ), Nat.cast_mul, hmod]
    push_cast
    constructor <;> intro h <;> nlinarith
  refine ⟨f, hsplit, hnonneg, hlt, ?_⟩
  unfold roundEven
  simp only [hbelow, habove]
  split
  · rename_i h
    exact ⟨.inl ⟨rfl, h.le⟩, fun heq => absurd heq h.ne⟩
  · split
    · rename_i h
      exact ⟨.inr ⟨rfl, h.le⟩, fun heq => absurd heq h.ne'⟩
    · rename_i hlow hhigh
      refine ⟨?_, fun _ => by omega⟩
      rcases Nat.mod_two_eq_zero_or_one (n / d) with h | h
      · exact .inl ⟨by rw [h, Nat.add_zero], not_lt.1 hhigh⟩
      · exact .inr ⟨by rw [h], not_lt.1 hlow⟩

/-- The whole number nearest to a quotient, and of two the even one. -/
theorem roundEven_spec (hd : 0 < d) (k : ℤ) :
    |(roundEven n d - n / d : ℚ)| ≤ |(k - n / d : ℚ)| ∧ (k ≠ roundEven n d →
      |(k - n / d : ℚ)| = |(roundEven n d - n / d : ℚ)| → roundEven n d % 2 = 0) := by
  obtain ⟨f, hf, hnonneg, hlt, hm, heven⟩ := roundEven_cases (n := n) hd
  rw [hf]
  generalize roundEven n d = m at *
  generalize n / d = i at *
  -- Apart from its two neighbours, every whole number is at least one away.
  have hfar : k = i ∨ k = i + 1 ∨ 1 ≤ |(k - (i + f) : ℚ)| := by
    rcases lt_trichotomy k i with h | h | h
    · have hk : (k : ℚ) + 1 ≤ i := by exact_mod_cast h
      exact .inr (.inr (le_abs.2 (.inr (by linarith))))
    · exact .inl h
    · rcases eq_or_lt_of_le (Int.add_one_le_of_lt h) with h | h
      · exact .inr (.inl h.symm)
      · have hk : (i + 1 + 1 : ℚ) ≤ k := by exact_mod_cast h
        exact .inr (.inr (le_abs.2 (.inl (by linarith))))
  have hfloor : |((i : ℚ) - (i + f))| = f := by
    rw [sub_add_cancel_left, abs_neg, abs_of_nonneg hnonneg]
  have hceil : |((i + 1 : ℕ) - (i + f) : ℚ)| = 1 - f := by
    rw [Nat.cast_succ, add_sub_add_left_eq_sub, abs_of_nonneg (by linarith)]
  rcases hm with ⟨rfl, h⟩ | ⟨rfl, h⟩
  · rw [hfloor]
    rcases hfar with rfl | rfl | hfar
    · exact ⟨hfloor.ge, fun hne => absurd rfl hne⟩
    · rw [← Nat.cast_succ, Int.cast_natCast, hceil]
      exact ⟨by linarith, fun _ heq => heven (by linarith)⟩
    · exact ⟨by linarith, fun _ heq => absurd heq (by linarith)⟩
  · rw [hceil]
    rcases hfar with rfl | rfl | hfar
    · rw [Int.cast_natCast, hfloor]
      exact ⟨by linarith, fun _ heq => heven (by linarith)⟩
    · exact ⟨by rw [← Nat.cast_succ, Int.cast_natCast, hceil], fun hne => absurd rfl hne⟩
    · exact ⟨by linarith, fun _ heq => heven (by linarith)⟩

/-- What a rational comes to on the grid for it is its number, if it is not beyond all of them. -/
theorem rounds_of_steps (hlow : s = -1074 ∨ leastFull * 2 ^ s ≤ q) (hq : q < 2 ^ 1024 - 2 ^ 970)
    (hm : ∀ k : ℤ, |(m - q / 2 ^ s : ℚ)| ≤ |(k - q / 2 ^ s : ℚ)| ∧ (k ≠ m →
      |(k - q / 2 ^ s : ℚ)| = |(m - q / 2 ^ s : ℚ)| → m % 2 = 0))
    (hx : x.negative = false) (hvalue : x.value = m * 2 ^ s)
    (heven : m % 2 = 0 → x.mantissa % 2 = 0) : Rounds q x := by
  have hpow := two_zpow_pos s
  have hdist : ∀ k : ℚ, |k * 2 ^ s - q| = |k - q / 2 ^ s| * 2 ^ s := by
    intro k
    rw [← abs_of_pos hpow, ← abs_mul, sub_mul, abs_of_pos hpow, div_mul_cancel₀ _ hpow.ne']
  -- Another number is a point of the grid, or lies below the point that is nearest from below.
  have hother : ∀ y : Binary64, (∃ k : ℤ, y.value = k * 2 ^ s) ∨
      |x.value - q| < |y.value - q| := by
    intro y
    by_cases hy : s ≤ y.exponent
    · exact .inl (exists_multiple hy)
    · right
      have hfull : leastFull * 2 ^ s ≤ q := by
        have := y.exponent_bounds
        exact hlow.resolve_left (by omega)
      have hbelow := value_lt_full (not_le.1 hy)
      have hnear := (hm leastFull).1
      rw [← mul_le_mul_iff_left₀ hpow, ← hdist, ← hdist, ← hvalue, Int.cast_natCast] at hnear
      refine hnear.trans_lt ?_
      rw [abs_of_nonpos (sub_nonpos.2 hfull), abs_of_neg (by linarith)]
      linarith
  refine ⟨hx, hq, fun y => ?_, fun y hne heq => ?_⟩
  · rcases hother y with ⟨k, hk⟩ | hlt
    · rw [hvalue, hk, hdist, hdist]
      exact mul_le_mul_of_nonneg_right (hm k).1 hpow.le
    · exact hlt.le
  · rcases hother y with ⟨k, hk⟩ | hlt
    · rw [hvalue, hk, hdist, hdist, mul_left_inj' hpow.ne'] at heq
      refine heven ((hm k).2 ?_ heq)
      rintro rfl
      exact hne (by rw [hk, hvalue, Int.cast_natCast])
    · exact absurd heq hlt.ne'

theorem make?_eq_some {b : Bool} {e : Int} : make? b m e = some x ↔
    x.negative = b ∧ x.mantissa = m ∧ x.exponent = e := by
  unfold make?
  constructor
  · intro h
    split at h
    · rw [← Option.some.inj h]
      exact ⟨rfl, rfl, rfl⟩
    · exact nomatch h
  · rintro ⟨rfl, rfl, rfl⟩
    rw [dif_pos x.canonical]

/-- The grid for a rational, and what it comes to there. -/
structure OnGrid (q : ℚ) (s : Int) (m : Nat) : Prop where
  finest : -1074 ≤ s
  high : q < 2 * leastFull * 2 ^ s
  low : s = -1074 ∨ leastFull * 2 ^ s ≤ q
  steps : ∀ k : ℤ, |(m - q / 2 ^ s : ℚ)| ≤ |(k - q / 2 ^ s : ℚ)| ∧ (k ≠ m →
    |(k - q / 2 ^ s : ℚ)| = |(m - q / 2 ^ s : ℚ)| → m % 2 = 0)

theorem OnGrid.le_twice (h : OnGrid q s m) : m ≤ 2 * leastFull := by
  have hpow := two_zpow_pos s
  have hhigh := (div_lt_iff₀ hpow).2 h.high
  have hnear := (h.steps (2 * leastFull : ℕ)).1
  rw [Int.cast_natCast, Nat.cast_mul, Nat.cast_ofNat, abs_of_pos (sub_pos.2 hhigh)] at hnear
  have hle : (m : ℚ) ≤ 2 * leastFull := sub_le_sub_iff_right _ |>.1 ((le_abs_self _).trans hnear)
  exact_mod_cast hle

theorem OnGrid.full_le (h : OnGrid q s m) (hs : s ≠ -1074) : leastFull ≤ m := by
  have hpow := two_zpow_pos s
  have hlow := (le_div_iff₀ hpow).2 (h.low.resolve_left hs)
  have hnear := (h.steps leastFull).1
  rw [Int.cast_natCast, abs_of_nonpos (sub_nonpos.2 hlow)] at hnear
  have hle : (leastFull : ℚ) ≤ m :=
    sub_le_sub_iff_right _ |>.1 (neg_le_neg_iff.1 ((neg_le_abs _).trans hnear))
  exact_mod_cast hle

theorem limit_eq : (2 : ℚ) ^ 1024 - 2 ^ 970 = (2 * leastFull - 1 / 2) * 2 ^ (971 : Int) ∧
    (2 : ℚ) ^ 1024 - 2 ^ 970 < leastFull * 2 ^ (972 : Int) ∧
    2 * leastFull * 2 ^ (970 : Int) < (2 : ℚ) ^ 1024 - 2 ^ 970 := by
  have hfull : (leastFull : ℚ) = 2 ^ 52 := by norm_num [leastFull]
  have hpow : (2 : ℚ) ^ 1024 = 2 ^ 54 * 2 ^ 970 := by rw [← pow_add]
  have hnext : (2 : ℚ) ^ (971 : Int) = 2 * 2 ^ 970 := by
    rw [show (971 : Int) = 1 + (970 : ℕ) from rfl, zpow_add₀ two_ne_zero, zpow_one, zpow_natCast]
  have hlast : (2 : ℚ) ^ (972 : Int) = 4 * 2 ^ 970 := by
    rw [show (972 : Int) = (2 : ℕ) + (970 : ℕ) from rfl, zpow_add₀ two_ne_zero, zpow_natCast,
      zpow_natCast]
    norm_num
  have hhere : (2 : ℚ) ^ (970 : Int) = 2 ^ 970 := zpow_natCast 2 970
  have hpos : (0 : ℚ) < 2 ^ 970 := by positivity
  rw [hfull, hpow, hnext, hlast, hhere]
  generalize (2 : ℚ) ^ 970 = p at hpos
  refine ⟨by ring, ?_, ?_⟩ <;> linarith

theorem halfway {i t top : ℚ} (hi : i + 1 ≤ top) (ht : top - 1 / 2 ≤ t)
    (hnear : |i - t| ≤ top - t) : i + 1 = top ∧ top - t = |i - t| := by
  rw [abs_of_neg (by linarith)] at hnear ⊢
  constructor <;> linarith

/-- A rational is beyond all numbers if what it comes to is. -/
theorem OnGrid.below_iff (h : OnGrid q s m) :
    q < 2 ^ 1024 - 2 ^ 970 ↔ s ≤ 971 ∧ (m = 2 * leastFull → s ≤ 970) := by
  have hm := h.le_twice
  constructor
  · intro hq
    have hle : s ≤ 971 := by
      by_contra hlt
      have hlow := h.low.resolve_left (by omega)
      have hpow : (2 : ℚ) ^ (972 : Int) ≤ 2 ^ s := zpow_le_zpow_right₀ (by norm_num) (by omega)
      have hfull : (0 : ℚ) ≤ leastFull := by positivity
      exact absurd (hq.trans limit_eq.2.1)
        (not_lt.2 ((mul_le_mul_of_nonneg_left hpow hfull).trans hlow))
    refine ⟨hle, fun hfull => ?_⟩
    by_contra hlt
    obtain rfl : s = 971 := by omega
    rw [limit_eq.1, ← div_lt_iff₀ (two_zpow_pos _)] at hq
    have hnear := (h.steps (2 * leastFull - 1 : ℕ)).1
    rw [hfull] at hnear
    rw [Int.cast_natCast, Nat.cast_sub (by decide), Nat.cast_mul, Nat.cast_ofNat, Nat.cast_one,
      abs_of_pos (by linarith)] at hnear
    rcases le_abs.1 hnear with hnear | hnear <;> linarith
  · rintro ⟨hle, hfull⟩
    by_cases hs : s ≤ 970
    · have hpow : (2 : ℚ) ^ s ≤ 2 ^ (970 : Int) := zpow_le_zpow_right₀ (by norm_num) hs
      have hpos : (0 : ℚ) ≤ 2 * leastFull := by positivity
      exact (h.high.trans_le (mul_le_mul_of_nonneg_left hpow hpos)).trans limit_eq.2.2
    · obtain rfl : s = 971 := by omega
      have hbefore : (m + 1 : ℚ) ≤ 2 * leastFull := by
        have : m + 1 ≤ 2 * leastFull := by omega
        exact_mod_cast this
      have hhigh := (div_lt_iff₀ (two_zpow_pos _)).2 h.high
      have hdist : |(((2 * leastFull : ℕ) : ℤ) - q / 2 ^ (971 : Int) : ℚ)| =
          2 * leastFull - q / 2 ^ (971 : Int) := by
        rw [Int.cast_natCast, Nat.cast_mul, Nat.cast_ofNat, abs_of_pos (sub_pos.2 hhigh)]
      obtain ⟨hnear, heven⟩ := h.steps (2 * leastFull : ℕ)
      rw [hdist] at hnear heven
      rw [limit_eq.1, ← div_lt_iff₀ (two_zpow_pos _)]
      generalize q / 2 ^ (971 : Int) = t at *
      by_contra hge
      obtain ⟨hlast, hhalf⟩ := halfway hbefore (not_lt.1 hge) hnear
      have hodd : m + 1 = 2 * leastFull := by exact_mod_cast hlast
      have hmod := heven (by omega) hhalf
      omega

theorem ofRatio_onGrid (hn : 0 < n) (hd : 0 < d) : ∃ s m, OnGrid (n / d) s m ∧
    ∀ b, ofRatio b n d =
      if m = 2 * leastFull then make? b leastFull (s + 1) else make? b m s := by
  obtain ⟨hfinest, hhigh, hlow⟩ := scaleOf_spec hn hd
  refine ⟨_, roundEven (n * 2 ^ (-scaleOf n d).toNat) (d * 2 ^ (scaleOf n d).toNat),
    ⟨hfinest, hhigh, hlow, fun k => ?_⟩, fun b => ?_⟩
  · have hpos : 0 < d * 2 ^ (scaleOf n d).toNat := by positivity
    have hspec := roundEven_spec (n := n * 2 ^ (-scaleOf n d).toNat) hpos k
    rwa [steps_eq] at hspec
  · rw [ofRatio]
    simp only [Nat.pow_eq, if_neg hn.ne']

theorem rounds_zero : Rounds 0 (zero false) := by
  have hvalue : (zero false).value = 0 := by simp [value, zero]
  refine ⟨rfl, sub_pos.2 (pow_lt_pow_right₀ (by norm_num) (by decide)), fun y => ?_, fun _ _ _ => rfl⟩
  rw [hvalue, sub_zero, abs_zero]
  exact abs_nonneg _

/-- A quotient has a number just if it is not beyond all of them, and is turned into it. -/
theorem ofRatio_eq_some (hd : 0 < d) : ofRatio false n d = some x ↔ Rounds (n / d) x := by
  rcases Nat.eq_zero_or_pos n with rfl | hn
  · rw [Nat.cast_zero, zero_div]
    have hzero : ofRatio false 0 d = some (zero false) := rfl
    rw [hzero, Option.some.injEq]
    exact ⟨fun h => h ▸ rounds_zero, fun h => rounds_zero.unique h⟩
  obtain ⟨s, m, hgrid, hratio⟩ := ofRatio_onGrid hn hd
  have hsound : ∀ {x}, ofRatio false n d = some x → Rounds (n / d) x := by
    intro x hx
    rw [hratio] at hx
    split at hx
    · rename_i hm
      obtain ⟨hnegative, hmantissa, hexponent⟩ := make?_eq_some.1 hx
      have := x.exponent_bounds
      refine rounds_of_steps hgrid.low (hgrid.below_iff.2 (by omega)) hgrid.steps hnegative ?_ ?_
      · rw [value_unsigned hnegative, hmantissa, hexponent, hm, zpow_add_one₀ two_ne_zero,
          Nat.cast_mul, Nat.cast_ofNat]
        ring
      · exact fun _ => by rw [hmantissa]; decide
    · rename_i hm
      obtain ⟨hnegative, hmantissa, hexponent⟩ := make?_eq_some.1 hx
      have := x.exponent_bounds
      refine rounds_of_steps hgrid.low (hgrid.below_iff.2 (by omega)) hgrid.steps hnegative ?_ ?_
      · rw [value_unsigned hnegative, hmantissa, hexponent]
      · exact fun heven => hmantissa ▸ heven
  refine ⟨hsound, fun h => ?_⟩
  obtain ⟨hle, hfull⟩ := hgrid.below_iff.1 h.below
  have hfinest := hgrid.finest
  have hm := hgrid.le_twice
  have hlow := hgrid.full_le
  obtain ⟨x', hx'⟩ : ∃ x', ofRatio false n d = some x' := by
    rw [hratio]
    split
    · rename_i heq
      have := hfull heq
      have hcanonical : Canonical leastFull (s + 1) :=
        .inl ⟨Nat.le_refl _, by decide, by omega, by omega⟩
      exact ⟨⟨false, leastFull, s + 1, hcanonical⟩, make?_eq_some.2 ⟨rfl, rfl, rfl⟩⟩
    · have hcanonical : Canonical m s := by
        by_cases hs : s = -1074
        · omega
        · have := hlow hs
          omega
      exact ⟨⟨false, m, s, hcanonical⟩, make?_eq_some.2 ⟨rfl, rfl, rfl⟩⟩
  rw [hx', (hsound hx').unique h]

end Quotient

end EventPost.Numeral.Binary64
