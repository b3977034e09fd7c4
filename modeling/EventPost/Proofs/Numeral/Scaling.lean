import EventPost.Proofs.Numeral.Rounding

/-!
Powers of ten. A number is scaled by one factor, itself rounded, with the product or the quotient
rounded in turn; far below, by one division after the other, each of them rounded. Beyond the largest
number nothing comes of it, even where a later step would lead back.
-/

namespace EventPost.Numeral.Binary64

/-- `x * 10 ^ e`, as it is worked out. -/
inductive Scaled : Binary64 → Int → Binary64 → Prop
  | up {x p y : Binary64} {k : Nat} : k ≤ 308 → Rounds (10 ^ k) p → Rounds (x.value * p.value) y →
    Scaled x k y
  | down {x p y : Binary64} {k : Nat} : k ≤ 308 → Rounds (10 ^ k) p →
    Rounds (x.value / p.value) y → Scaled x (-k) y
  | zero {x : Binary64} {e : Int} : 308 < e.natAbs → x.value = 0 → Scaled x e x
  | far {x p y z : Binary64} {k : Nat} : 308 < k → x.value ≠ 0 → Rounds (10 ^ 308) p →
    Rounds (x.value / p.value) y → Scaled y (308 - k) z → Scaled x (-k) z

variable {x y p : Binary64} {q : ℚ}

theorem value_eq_zero : x.value = 0 ↔ x.isZero = true := by
  have hpow := (two_zpow_pos x.exponent).ne'
  rw [isZero, beq_iff_eq, value]
  split <;> simp [hpow]

theorem rounds_value (h : x.negative = false) : Rounds x.value x := by
  refine ⟨h, ?_, fun y => ?_, fun y hne heq => ?_⟩
  · have hmantissa : (x.mantissa : ℚ) + 1 ≤ 2 * leastFull := by exact_mod_cast x.mantissa_lt
    have hpow : (2 : ℚ) ^ x.exponent ≤ 2 ^ (971 : Int) :=
      zpow_le_zpow_right₀ (by norm_num) x.exponent_bounds.2
    have hless : (x.mantissa : ℚ) < 2 * leastFull - 1 / 2 :=
      lt_of_lt_of_le (by linarith) (sub_le_sub_right hmantissa (1 / 2))
    rw [value_unsigned h, limit_eq.1]
    exact mul_lt_mul hless hpow (two_zpow_pos _) (le_of_lt ((Nat.cast_nonneg _).trans_lt hless))
  · rw [sub_self, abs_zero]
    exact abs_nonneg _
  · rw [sub_self, abs_zero, abs_eq_zero, sub_eq_zero] at heq
    exact absurd heq hne

theorem rounds_value_iff (h : x.negative = false) : Rounds x.value y ↔ y = x :=
  ⟨fun hy => hy.unique (rounds_value h), fun hy => hy.symm ▸ rounds_value h⟩

def one : Binary64 := ⟨false, leastFull, -52, by decide⟩

theorem value_one : one.value = 1 := by
  rw [value_unsigned rfl, one]
  norm_num [leastFull]

theorem Rounds.pos (h : Rounds q p) (hq : 1 ≤ q) : 0 < p.value := by
  have hnear := h.nearest one
  rw [value_one, abs_of_nonpos (by linarith : 1 - q ≤ 0)] at hnear
  linarith [neg_abs_le (p.value - q)]

theorem mul?_eq_some (hx : x.negative = false) (hp : p.negative = false) :
    x.mul? p = some y ↔ Rounds (x.value * p.value) y := by
  have hvalue : x.value * p.value =
      (x.mantissa * p.mantissa * 2 ^ (x.exponent + p.exponent).toNat : ℕ) /
        (2 ^ (-(x.exponent + p.exponent)).toNat : ℕ) := by
    rw [value_unsigned hx, value_unsigned hp]
    push_cast
    rw [mul_div_assoc, ← zpow_split, zpow_add₀ two_ne_zero]
    ring
  rw [hvalue, ← ofRatio_eq_some (by positivity), mul?, hx, hp]
  rfl

theorem div?_eq_some (hx : x.negative = false) (hp : p.negative = false) (hpos : 0 < p.value) :
    x.div? p = some y ↔ Rounds (x.value / p.value) y := by
  have hm : 0 < p.mantissa := by
    rw [Nat.pos_iff_ne_zero]
    intro hzero
    rw [value_unsigned hp, hzero, Nat.cast_zero, zero_mul] at hpos
    exact lt_irrefl 0 hpos
  have hvalue : x.value / p.value = (x.mantissa * 2 ^ (x.exponent - p.exponent).toNat : ℕ) /
      (p.mantissa * 2 ^ (-(x.exponent - p.exponent)).toNat : ℕ) := by
    have hm' : (p.mantissa : ℚ) ≠ 0 := by exact_mod_cast hm.ne'
    rw [value_unsigned hx, value_unsigned hp, mul_div_mul_comm, ← zpow_sub₀ two_ne_zero, zpow_split]
    push_cast
    rw [div_mul_div_comm]
  rw [hvalue, ← ofRatio_eq_some (by positivity), div?, hx, hp]
  rfl

theorem ofNat?_eq_some {n : Nat} : ofNat? n = some x ↔ Rounds n x := by
  rw [ofNat?, ofRatio_eq_some Nat.one_pos, Nat.cast_one, div_one]

theorem tenPower?_eq_some {k : Nat} : tenPower? k = some p ↔ Rounds (10 ^ k) p := by
  rw [tenPower?, ofNat?_eq_some, Nat.pow_eq, Nat.cast_pow, Nat.cast_ofNat]

theorem tenPower_pos {k : Nat} (h : Rounds (10 ^ k) p) : 0 < p.value :=
  h.pos (one_le_pow₀ (by norm_num))

theorem value_tenPower_zero (h : Rounds (10 ^ 0) p) : p.value = 1 := by
  rw [pow_zero, ← value_one, rounds_value_iff rfl] at h
  rw [h, value_one]

theorem scaled_zero_iff (hx : x.negative = false) : Scaled x 0 y ↔ y = x := by
  constructor
  · intro h
    generalize he : (0 : Int) = e at h
    cases h with
    | @up _ p _ k _ hp hy =>
      obtain rfl : k = 0 := by omega
      rw [value_tenPower_zero hp, mul_one] at hy
      exact (rounds_value_iff hx).1 hy
    | @down _ p _ k _ hp hy =>
      obtain rfl : k = 0 := by omega
      rw [value_tenPower_zero hp, div_one] at hy
      exact (rounds_value_iff hx).1 hy
    | zero hfar | far hfar => omega
  · rintro rfl
    have hone : Rounds (10 ^ 0) one := by
      rw [pow_zero, ← value_one]
      exact rounds_value rfl
    refine .up (k := 0) (by decide) hone ?_
    rw [value_one, mul_one]
    exact rounds_value hx

/-- A number is scaled in just these steps. -/
theorem scaleTen_eq_some {e : Int} (hx : x.negative = false) :
    x.scaleTen e = some y ↔ Scaled x e y := by
  induction x, e using scaleTen.induct with
  | case1 x e h =>
    rw [scaleTen, if_pos h]
    simp only [Option.bind_eq_bind, Option.bind_eq_some_iff, tenPower?_eq_some]
    constructor
    · rintro ⟨p, hp, hy⟩
      split at hy
      · rename_i hup
        obtain ⟨k, rfl⟩ := Int.eq_ofNat_of_zero_le hup
        exact .up h hp ((mul?_eq_some hx hp.unsigned).1 hy)
      · obtain ⟨k, rfl | rfl⟩ := e.eq_nat_or_neg
        · omega
        · rw [Int.natAbs_neg] at h hp
          exact .down h hp ((div?_eq_some hx hp.unsigned (tenPower_pos hp)).1 hy)
    · intro hs
      cases hs with
      | @up _ p _ k hk hp hy =>
        refine ⟨p, hp, ?_⟩
        rw [if_pos (Int.natCast_nonneg k)]
        exact (mul?_eq_some hx hp.unsigned).2 hy
      | @down _ p _ k hk hp hy =>
        refine ⟨p, by rwa [Int.natAbs_neg], ?_⟩
        split
        · -- Without a factor, there is none to divide by either.
          obtain rfl : k = 0 := by omega
          rw [value_tenPower_zero hp, div_one] at hy
          rw [mul?_eq_some hx hp.unsigned, value_tenPower_zero hp, mul_one]
          exact hy
        · exact (div?_eq_some hx hp.unsigned (tenPower_pos hp)).2 hy
      | zero hfar => exact absurd h (by rw [maxTenPower]; omega)
      | far hk => exact absurd h (by rw [maxTenPower]; omega)
  | case2 x e h hzero =>
    rw [scaleTen, if_neg h, if_pos hzero, Option.some.injEq]
    rw [maxTenPower] at h
    constructor
    · rintro rfl
      exact .zero (by omega) (value_eq_zero.2 hzero)
    · intro hs
      cases hs with
      | up hk | down hk => omega
      | zero => rfl
      | far _ hne => exact absurd (value_eq_zero.2 hzero) hne
  | case3 x e h hne hup =>
    rw [scaleTen, if_neg h, if_neg hne, if_pos hup]
    rw [maxTenPower] at h
    refine ⟨fun hs => (nomatch hs), fun hs => ?_⟩
    cases hs with
    | up hk | down hk | far hk => omega
    | zero _ hzero => exact absurd (value_eq_zero.1 hzero) hne
  | case4 x e h hne hdown ih =>
    rw [scaleTen, if_neg h, if_neg hne, if_neg hdown]
    simp only [Option.bind_eq_bind, Option.bind_eq_some_iff, tenPower?_eq_some]
    have hfar : 308 < e.natAbs := not_le.1 h
    constructor
    · rintro ⟨p, hp, z, hz, hy⟩
      rw [maxTenPower] at hp
      have hz' := (div?_eq_some hx hp.unsigned (tenPower_pos hp)).1 hz
      obtain ⟨k, rfl | rfl⟩ := e.eq_nat_or_neg
      · omega
      · rw [Int.natAbs_neg] at hfar
        have hrest := (ih z hz'.unsigned).1 hy
        rw [maxTenPower, show (-k + (308 : ℕ) : Int) = 308 - k by omega] at hrest
        exact .far hfar (fun hzero => hne (value_eq_zero.1 hzero)) hp hz' hrest
    · intro hs
      cases hs with
      | up hk | down hk => omega
      | zero _ hzero => exact absurd (value_eq_zero.1 hzero) hne
      | @far _ p z _ k hk _ hp hz hy =>
        refine ⟨p, hp, z, (div?_eq_some hx hp.unsigned (tenPower_pos hp)).2 hz, ?_⟩
        rw [ih z hz.unsigned, maxTenPower, show (-k + (308 : ℕ) : Int) = 308 - k by omega]
        exact hy

end EventPost.Numeral.Binary64
