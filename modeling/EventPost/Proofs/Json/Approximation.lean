import EventPost.Proofs.Json.NumberValue
import EventPost.Proofs.Numeral.Scaling

/-!
What the text of a number means. A whole number that fits 64 bits is an integer. Any other becomes a
floating-point number in steps: digits are taken up while they fit a word and otherwise count for the
scale alone, what they come to is rounded, and is then scaled. It need not be the number nearest to
what the text stands for, and a text that leads beyond the largest number means nothing. The reader
of numerals reads just this.
-/

namespace EventPost.Json

open Numeral (Binary64 maxWord)
open Numeral.Binary64 (Rounds Scaled)
open Text (Bytes)

/-- As many of the digits as fit a word behind `acc`: what they come to, and how many they are. -/
structure Kept (acc : Nat) (ds : Bytes) (n count : Nat) : Prop where
  count_le : count ≤ ds.length
  value : n = acc * 10 ^ count + digitsValue (ds.take count)
  fits : n < 2 ^ 64
  full : ∀ d, ds[count]? = some d → 2 ^ 64 ≤ 10 * n + digitOf d

/-- What `n * 10 ^ scale` comes to with an exponent behind it. One of more than 31 bits is not counted:
with it everything is zero or means nothing. -/
inductive Raised (n : Nat) (scale exponent : Int) : Binary64 → Prop
  | counted {x y : Binary64} : exponent.natAbs < 2 ^ 31 → Rounds n x →
    Scaled x (scale + exponent) y → Raised n scale exponent y
  | vanished : 2 ^ 31 ≤ exponent.natAbs → n = 0 ∨ exponent < 0 →
    Raised n scale exponent (Binary64.zero false)

/-- The floating-point number that the digits before and behind a point and an exponent make. -/
def Approximates (whole fraction : Bytes) (exponent : Int) (x : Binary64) : Prop :=
  ∃ n count m more, Kept 0 whole n count ∧ Kept n fraction m more ∧
    Raised m (whole.length - count - more) exponent x

/-- What the text of a number means. -/
inductive IsNumeral : Bytes → Number → Prop
  | integer {text : Bytes} {i : Int} (h : Fits i) : IsInteger text i → IsNumeral text (.integer i h)
  | real {sign whole fraction exponent : Bytes} {x : Binary64} : sign ∈ [[], [0x2d]] →
    Whole whole → (∀ b ∈ fraction, isDigit b = true) → exponent = [] ∨ Exponent exponent →
    (∀ i, ¬IsInteger (sign ++ (whole ++ (point fraction ++ exponent))) i) →
    Approximates whole fraction (exponentValue exponent) x →
    IsNumeral (sign ++ (whole ++ (point fraction ++ exponent)))
      (.real (if sign = [] then x else x.negate))

theorem takeFraction_kept {acc : Nat} (ha : acc < 2 ^ 64) (ds : Bytes) :
    Kept acc ds (takeFraction acc ds).1 (takeFraction acc ds).2 := by
  have hmax : maxWord = 2 ^ 64 - 1 := rfl
  induction ds generalizing acc with
  | nil => exact ⟨Nat.le_refl _, by simp [takeFraction, digitsValue], ha, fun d hd => nomatch hd⟩
  | cons d ds ih =>
    rw [takeFraction]
    split
    · rename_i hfits
      have hnext : 10 * acc + digitOf d < 2 ^ 64 := by omega
      obtain ⟨hle, hvalue, hword, hfull⟩ := ih hnext
      refine ⟨Nat.succ_le_succ hle, ?_, hword, hfull⟩
      rw [hvalue, List.take_succ_cons, ← List.singleton_append, digitsValue_append, pow_succ,
        List.length_take, Nat.min_eq_left hle]
      have hdigit : digitsValue [d] = digitOf d := by simp [digitsValue]
      rw [hdigit]
      ring
    · refine ⟨Nat.zero_le _, by simp [digitsValue], ha, fun d' hd' => ?_⟩
      obtain rfl : d = d' := Option.some.inj hd'
      omega

theorem Kept.foldl {acc n count : Nat} {ds : Bytes} (h : Kept acc ds n count) :
    (ds.take count).foldl (fun n b => 10 * n + digitOf b) acc = n := by
  rw [digitsValue_onto, List.length_take, Nat.min_eq_left h.count_le, h.value]

theorem Kept.unique {acc n n' count count' : Nat} {ds : Bytes} (h : Kept acc ds n count)
    (h' : Kept acc ds n' count') : n = n' ∧ count = count' := by
  -- The digit behind the shorter of two would be one of the longer, and does not fit.
  have hle : ∀ {n n' count count' : Nat}, Kept acc ds n count → Kept acc ds n' count' →
      count' ≤ count := by
    intro n n' count count' h h'
    by_contra hless
    have hlt : count < count' := Nat.lt_of_not_le hless
    have hlength := hlt.trans_le h'.count_le
    have hfull := h.full ds[count] (List.getElem?_eq_getElem hlength)
    have hsplit : ds.take count' =
        ds.take count ++ [ds[count]] ++ (ds.take count').drop (count + 1) := by
      have htake : (ds.take count').take (count + 1) = ds.take (count + 1) := by
        rw [List.take_take, Nat.min_eq_left hlt]
      rw [List.take_append_getElem hlength, ← htake, List.take_append_drop]
    have hvalue := h'.foldl
    rw [hsplit, List.foldl_append, List.foldl_append, h.foldl] at hvalue
    have hle := le_digitsValue ((ds.take count').drop (count + 1)) (10 * n + digitOf ds[count])
    have hfits := h'.fits
    simp only [List.foldl_cons, List.foldl_nil] at hvalue
    omega
  obtain rfl := Nat.le_antisymm (hle h' h) (hle h h')
  exact ⟨h.value.trans h'.value.symm, rfl⟩

theorem takeWhole_eq_takeFraction (acc : Nat) (ds : Bytes) :
    takeWhole acc ds = ((takeFraction acc ds).1, ds.length - (takeFraction acc ds).2) ∧
      (takeFraction acc ds).2 ≤ ds.length := by
  induction ds generalizing acc with
  | nil => exact ⟨rfl, Nat.le_refl _⟩
  | cons d ds ih =>
    rw [takeWhole, takeFraction]
    split
    · obtain ⟨htake, hle⟩ := ih (10 * acc + digitOf d)
      refine ⟨?_, Nat.succ_le_succ hle⟩
      rw [htake, List.length_cons, Nat.succ_sub_succ]
    · exact ⟨rfl, Nat.zero_le _⟩

theorem takeExponent_eq {ds : Bytes} (h : ∀ b ∈ ds, isDigit b = true) {acc : Nat}
    (ha : acc ≤ maxExponent) : (takeExponent acc ds).1 =
      if ds.foldl (fun n b => 10 * n + digitOf b) acc ≤ maxExponent then
        some (ds.foldl (fun n b => 10 * n + digitOf b) acc) else none := by
  induction ds generalizing acc with
  | nil => simp [takeExponent, ha]
  | cons d ds ih =>
    rw [takeExponent, if_pos (h d List.mem_cons_self)]
    split
    · rename_i hle
      exact ih (fun b hb => h b (List.mem_cons_of_mem d hb)) hle
    · rename_i hgt
      have hle := le_digitsValue ds (10 * acc + digitOf d)
      exact (if_neg (by rw [List.foldl_cons]; omega)).symm

theorem exponentValue_signed {mark d : UInt8} {sign r : Bytes} (hs : sign ∈ [[], [0x2b], [0x2d]])
    (hsign : ¬(d = 0x2b ∨ d = 0x2d)) : exponentValue (mark :: (sign ++ d :: r)) =
      if sign ≠ [0x2d] then (digitsValue (d :: r) : Int) else -digitsValue (d :: r) := by
  rw [not_or] at hsign
  simp only [List.mem_cons, List.not_mem_nil, or_false] at hs
  rcases hs with rfl | rfl | rfl
  · rw [List.nil_append, exponentValue]
    · rfl
    · exact fun _ h => hsign.2 (List.cons.inj h).1
    · exact fun _ h => hsign.1 (List.cons.inj h).1
  · rfl
  · rfl

variable {negative : Bool} {n : Nat} {e : Int} {x : Binary64} {num : Number}

def signed (negative : Bool) (x : Binary64) : Number := .real (if negative then x.negate else x)

theorem scaledNumber_eq_ok {bs rest : Bytes} : scaledNumber negative n e bs = .ok (num, rest) ↔
    bs = rest ∧ ∃ y x, Rounds n y ∧ Scaled y e x ∧ num = signed negative x := by
  have hscaled : ∀ x, (Binary64.ofNat? n).bind (·.scaleTen e) = some x ↔
      ∃ y, Rounds n y ∧ Scaled y e x := by
    intro x
    rw [Option.bind_eq_some_iff]
    constructor
    · rintro ⟨y, hy, hx⟩
      rw [Binary64.ofNat?_eq_some] at hy
      exact ⟨y, hy, (Binary64.scaleTen_eq_some hy.unsigned).1 hx⟩
    · rintro ⟨y, hy, hx⟩
      exact ⟨y, Binary64.ofNat?_eq_some.2 hy, (Binary64.scaleTen_eq_some hy.unsigned).2 hx⟩
  unfold scaledNumber
  split
  · rename_i x hx
    obtain ⟨y, hy, hyx⟩ := (hscaled x).1 hx
    constructor
    · intro h
      obtain ⟨rfl, rfl⟩ := Prod.mk.inj (Except.ok.inj h)
      exact ⟨rfl, y, x, hy, hyx, rfl⟩
    · rintro ⟨rfl, y', x', hy', hx', rfl⟩
      obtain rfl := Option.some.inj (hx.symm.trans ((hscaled x').2 ⟨y', hy', hx'⟩))
      rfl
  · rename_i hnone
    refine ⟨fun h => (nomatch h), ?_⟩
    rintro ⟨-, y, x, hy, hx, -⟩
    exact nomatch hnone.symm.trans ((hscaled x).2 ⟨y, hy, hx⟩)

theorem raised_of_counted {k : Int} (hk : k.natAbs < 2 ^ 31) :
    (∃ x, Raised n e k x ∧ num = signed negative x) ↔
      ∃ y x, Rounds n y ∧ Scaled y (e + k) x ∧ num = signed negative x := by
  constructor
  · rintro ⟨x, hx, hnum⟩
    cases hx with
    | counted _ hy hx => exact ⟨_, x, hy, hx, hnum⟩
    | vanished hlarge => omega
  · rintro ⟨y, x, hy, hx, hnum⟩
    exact ⟨x, .counted hk hy hx, hnum⟩

theorem raised_of_uncounted {k : Int} (hk : 2 ^ 31 ≤ k.natAbs) :
    (∃ x, Raised n e k x ∧ num = signed negative x) ↔
      (n = 0 ∨ k < 0) ∧ num = signed negative (Binary64.zero false) := by
  constructor
  · rintro ⟨x, hx, hnum⟩
    cases hx with
    | counted hsmall => omega
    | vanished _ hzero => exact ⟨hzero, hnum⟩
  · rintro ⟨hzero, hnum⟩
    exact ⟨_, .vanished hk hzero, hnum⟩

theorem signed_zero (negative : Bool) :
    signed negative (Binary64.zero false) = .real (Binary64.zero negative) := by
  cases negative <;> rfl

/-- The digits of an exponent, past its sign. -/
theorem readScale_eq_ok {up : Bool} {d : UInt8} {r : Bytes} (h : ∀ b ∈ r, isDigit b = true) :
    readScale negative up n e d r = .ok (num, []) ↔ ∃ x, Raised n e
      (if up then (digitsValue (d :: r) : Int) else -digitsValue (d :: r)) x ∧
        num = signed negative x := by
  have hmax : maxExponent = 2 ^ 31 - 1 := rfl
  have hdigit : digitOf d ≤ maxExponent := by
    have := d.toNat_lt
    rw [digitOf]
    omega
  have hcount := takeExponent_eq h hdigit
  have htotal : r.foldl (fun n b => 10 * n + digitOf b) (digitOf d) = digitsValue (d :: r) := by
    rw [digitsValue, List.foldl_cons, Nat.mul_zero, Nat.zero_add]
  obtain ⟨hdrop, hrest⟩ := takeExponent_rest (digitOf d) r
  rw [htotal] at hcount
  rw [List.dropWhile_eq_nil_iff.2 h] at hdrop hrest
  rw [readScale]
  generalize digitsValue (d :: r) = total at *
  obtain ⟨k, hk⟩ : ∃ k : Int, k = if up then (total : Int) else -total := ⟨_, rfl⟩
  have hsize : k.natAbs = total := by
    rw [hk]
    split <;> omega
  rw [← hk]
  split
  · rename_i k' rest htake
    rw [htake] at hcount hrest
    obtain rfl := hrest (Option.some_ne_none k')
    split at hcount
    · obtain rfl := Option.some.inj hcount
      rw [raised_of_counted (by omega), show (if up then e + k' else e - k' : Int) = e + k by
        rw [hk]; split <;> omega, scaledNumber_eq_ok]
      exact and_iff_right rfl
    · exact absurd hcount (Option.some_ne_none k')
  · rename_i rest htake
    rw [htake] at hcount hdrop
    split at hcount
    · exact absurd hcount.symm (Option.some_ne_none total)
    · have hzero : (n = 0 ∨ k < 0) ↔ ¬(n ≠ 0 ∧ up = true) := by
        rw [hk]
        cases up <;> simp
        omega
      rw [raised_of_uncounted (by omega), hzero, signed_zero]
      split
      · rename_i hrange
        refine ⟨fun h => ?_, fun h => absurd hrange h.1⟩
        cases h
      · rename_i hrange
        have hdrop : rest.dropWhile isDigit = [] := hdrop
        rw [hdrop, Except.ok.injEq, Prod.mk.injEq, and_iff_left rfl, and_iff_right hrange]
        exact eq_comm

theorem readExponent_eq_ok {r : Bytes} {mark : UInt8} (h : Exponent (mark :: r)) :
    readExponent negative n e r = .ok (num, []) ↔
      ∃ x, Raised n e (exponentValue (mark :: r)) x ∧ num = signed negative x := by
  obtain ⟨mark', sign, ds, -, hs, hd, heq⟩ := h
  obtain ⟨rfl, rfl⟩ := List.cons.inj heq
  obtain ⟨d, ds, rfl, hdigit, hsign, hall⟩ := exists_digit hd
  rw [readExponent_signed hs hdigit hsign, exponentValue_signed hs hsign, readScale_eq_ok hall]
  simp only [decide_eq_true_eq]

theorem Scaling.parts {s : Bytes} (h : Scaling s) : ∃ fraction exponent,
    (∀ b ∈ fraction, isDigit b = true) ∧ (exponent = [] ∨ Exponent exponent) ∧
      s = point fraction ++ exponent := by
  cases h with
  | none => exact ⟨[], [], fun b hb => absurd hb List.not_mem_nil, .inl rfl, rfl⟩
  | exponent he => exact ⟨[], _, fun b hb => absurd hb List.not_mem_nil, .inr he, rfl⟩
  | fraction hd he =>
    refine ⟨_, _, hd.2, he, ?_⟩
    rw [point, if_neg hd.1, List.cons_append]

theorem readFraction_eq_ok {fraction exponent : Bytes} (hd : Digits fraction)
    (he : exponent = [] ∨ Exponent exponent) :
    readFraction negative n e (fraction ++ exponent) = .ok (num, []) ↔
      ∃ x, Raised (takeFraction n fraction).1 (e - (takeFraction n fraction).2)
        (exponentValue exponent) x ∧ num = signed negative x := by
  rcases he with rfl | he
  · rw [readFraction_plain hd stops_nil, scaledNumber_eq_ok, and_iff_right rfl,
      raised_of_counted (by decide), exponentValue, Int.add_zero]
  · obtain ⟨mark, sign, ds, hmark, hs, hds, rfl⟩ := he
    rw [readFraction_exponent hd hmark]
    exact readExponent_eq_ok ⟨mark, sign, ds, hmark, hs, hds, rfl⟩

theorem approximates_iff {whole fraction : Bytes} {k : Int} :
    Approximates whole fraction k x ↔ Raised (takeFraction (takeWhole 0 whole).1 fraction).1
      ((takeWhole 0 whole).2 - (takeFraction (takeWhole 0 whole).1 fraction).2) k x := by
  obtain ⟨htake, hle⟩ := takeWhole_eq_takeFraction 0 whole
  have hwhole := takeFraction_kept (by decide : 0 < 2 ^ 64) whole
  rw [htake, Int.ofNat_sub hle]
  constructor
  · rintro ⟨n, count, m, more, hn, hm, hx⟩
    obtain ⟨rfl, rfl⟩ := hn.unique hwhole
    obtain ⟨rfl, rfl⟩ := hm.unique (takeFraction_kept hwhole.fits fraction)
    exact hx
  · intro hx
    exact ⟨_, _, _, _, hwhole, takeFraction_kept hwhole.fits fraction, hx⟩

section Whole

variable {whole fraction exponent : Bytes}

theorem readAfterWhole_scaled (hf : ∀ b ∈ fraction, isDigit b = true)
    (he : exponent = [] ∨ Exponent exponent) (hne : fraction ≠ [] ∨ exponent ≠ []) :
    readAfterWhole negative whole (point fraction ++ exponent) = .ok (num, []) ↔
      ∃ x, Approximates whole fraction (exponentValue exponent) x ∧ num = signed negative x := by
  simp only [approximates_iff]
  by_cases hnil : fraction = []
  · subst hnil
    have hexponent := he.resolve_left (hne.resolve_left fun h => h rfl)
    obtain ⟨mark, sign, ds, hmark, -, -, rfl⟩ := hexponent
    have hread : readAfterWhole negative whole (point [] ++ mark :: (sign ++ ds)) =
        readExponent negative (takeWhole 0 whole).1 (takeWhole 0 whole).2 (sign ++ ds) := by
      simp [readAfterWhole, point, ne_point hmark, hmark]
    rw [hread, readExponent_eq_ok (he.resolve_left (List.cons_ne_nil _ _)), takeFraction,
      Nat.cast_zero, Int.sub_zero]
  · have hread : readAfterWhole negative whole (point fraction ++ exponent) =
        readFraction negative (takeWhole 0 whole).1 (takeWhole 0 whole).2
          (fraction ++ exponent) := by
      simp [readAfterWhole, point, hnil]
    rw [hread, readFraction_eq_ok ⟨hnil, hf⟩ he]

/-- A whole number is rounded, if it is no integer of 64 bits. -/
theorem wholeNumber_spec (negative : Bool) (n : Nat) :
    (∃ i h, wholeNumber negative n = some (.integer i h)) ∨
      ∀ num, wholeNumber negative n = some num ↔ ∃ x, Rounds n x ∧ num = signed negative x := by
  have hmap : ∀ (f : Binary64 → Number) num, (Binary64.ofNat? n).map f = some num ↔
      ∃ x, Rounds n x ∧ num = f x := by
    intro f num
    rw [Option.map_eq_some_iff]
    simp only [Binary64.ofNat?_eq_some, eq_comm (a := num)]
  unfold wholeNumber
  split
  · rename_i hnegative
    subst hnegative
    split
    · rename_i hzero
      subst hzero
      right
      intro num
      rw [Nat.cast_zero, Option.some.injEq, ← signed_zero]
      constructor
      · rintro rfl
        exact ⟨_, Binary64.rounds_zero, rfl⟩
      · rintro ⟨x, hx, rfl⟩
        rw [hx.unique Binary64.rounds_zero]
    · split
      · exact .inl ⟨_, ‹Fits _›, rfl⟩
      · right
        rw [Option.map_map]
        exact hmap _
  · rename_i hpositive
    obtain rfl : negative = false := Bool.not_eq_true _ ▸ hpositive
    split
    · exact .inl ⟨_, ‹Fits _›, rfl⟩
    · exact .inr (hmap _)

theorem readAfterWhole_nil (negative : Bool) (whole : Bytes) :
    (∃ i h, readAfterWhole negative whole [] = .ok (.integer i h, [])) ∨
      ∀ num, readAfterWhole negative whole [] = .ok (num, []) ↔
        ∃ x, Approximates whole [] 0 x ∧ num = signed negative x := by
  simp only [approximates_iff, takeFraction, Nat.cast_zero, Int.sub_zero,
    raised_of_counted (by decide : (0 : Int).natAbs < 2 ^ 31), Int.add_zero]
  unfold readAfterWhole
  generalize takeWhole 0 whole = taken
  obtain ⟨n, dropped⟩ := taken
  dsimp only
  by_cases hdropped : dropped = 0
  · subst hdropped
    simp only [if_true, Nat.cast_zero]
    have hscaled : ∀ num, (∃ y x, Rounds n y ∧ Scaled y 0 x ∧ num = signed negative x) ↔
        ∃ x, Rounds n x ∧ num = signed negative x := by
      intro num
      constructor
      · rintro ⟨y, x, hy, hx, hnum⟩
        rw [Binary64.scaled_zero_iff hy.unsigned] at hx
        exact ⟨y, hy, hx ▸ hnum⟩
      · rintro ⟨x, hx, hnum⟩
        exact ⟨x, x, hx, (Binary64.scaled_zero_iff hx.unsigned).2 rfl, hnum⟩
    simp only [hscaled]
    rcases wholeNumber_spec negative n with ⟨i, h, hi⟩ | hreal
    · exact .inl ⟨i, h, by rw [hi]⟩
    · right
      intro num
      rw [← hreal]
      split
      · rename_i x hx
        rw [hx]
        simp
      · rename_i hnone
        rw [hnone]
        simp [fail]
  · right
    intro num
    rw [if_neg hdropped, scaledNumber_eq_ok]
    exact and_iff_right rfl

theorem readAfterWhole_spec (negative : Bool) (whole : Bytes)
    (hf : ∀ b ∈ fraction, isDigit b = true) (he : exponent = [] ∨ Exponent exponent) :
    (∃ i h, readAfterWhole negative whole (point fraction ++ exponent) = .ok (.integer i h, [])) ∨
      ∀ num, readAfterWhole negative whole (point fraction ++ exponent) = .ok (num, []) ↔
        ∃ x, Approximates whole fraction (exponentValue exponent) x ∧ num = signed negative x := by
  by_cases hne : fraction ≠ [] ∨ exponent ≠ []
  · exact .inr fun num => readAfterWhole_scaled hf he hne
  · simp only [ne_eq, not_or, Decidable.not_not] at hne
    obtain ⟨rfl, rfl⟩ := hne
    exact readAfterWhole_nil negative whole

end Whole

theorem ReadAs.unique {text : Bytes} {num' : Number} (h : ReadAs text num)
    (h' : ReadAs text num') : num = num' := by
  obtain ⟨-, b, bs, rfl, hread⟩ := h
  obtain ⟨-, b', bs', hbytes, hread'⟩ := h'
  obtain ⟨rfl, rfl⟩ := List.cons.inj hbytes
  rw [hread] at hread'
  exact (Prod.mk.inj (Except.ok.inj hread')).1

theorem readAs_parts {sign whole fraction exponent : Bytes} (hsign : sign ∈ [[], [0x2d]])
    (hw : Whole whole) (hf : ∀ b ∈ fraction, isDigit b = true)
    (he : exponent = [] ∨ Exponent exponent) :
    let text := sign ++ (whole ++ (point fraction ++ exponent))
    (∃ i h, ReadAs text (.integer i h)) ∨ ∀ num, ReadAs text num ↔
      ∃ x, Approximates whole fraction (exponentValue exponent) x ∧
        num = signed (!sign.isEmpty) x := by
  intro text
  have hs := scaling_parts hf he
  obtain ⟨b, bs, hbytes, -, hread⟩ := readNumeral_parts hsign hw hs
  have hnil := hread [] stops_nil
  rw [List.append_nil, List.append_nil] at hnil
  have hreadAs : ∀ num, ReadAs text num ↔
      readAfterWhole (!sign.isEmpty) whole (point fraction ++ exponent) = .ok (num, []) := by
    intro num
    rw [← hnil]
    refine ⟨?_, fun h => ⟨isNumber_parts hsign hw hf he, b, bs, hbytes, h⟩⟩
    rintro ⟨-, b', bs', hbytes', h⟩
    obtain ⟨rfl, rfl⟩ := List.cons.inj (hbytes.symm.trans hbytes')
    exact h
  simp only [hreadAs]
  exact readAfterWhole_spec (!sign.isEmpty) whole hf he

theorem signed_of_sign {sign : Bytes} (hsign : sign ∈ [[], [0x2d]]) (x : Binary64) :
    signed (!sign.isEmpty) x = .real (if sign = [] then x else x.negate) := by
  simp only [List.mem_cons, List.not_mem_nil, or_false] at hsign
  rcases hsign with rfl | rfl <;> rfl

theorem isNumeral_iff_readAs {text : Bytes} : IsNumeral text num ↔ ReadAs text num := by
  constructor
  · intro h
    cases h with
    | integer h hi => exact (readAs_integer h).2 hi
    | real hsign hw hf he hnone hx =>
      rcases readAs_parts hsign hw hf he with ⟨i, hfits, hi⟩ | hread
      · exact absurd ((readAs_integer hfits).1 hi) (hnone i)
      · rw [hread, ← signed_of_sign hsign]
        exact ⟨_, hx, rfl⟩
  · intro h
    cases num with
    | integer i hfits => exact .integer hfits ((readAs_integer hfits).1 h)
    | real v =>
      have hnone : ∀ i, ¬IsInteger text i := by
        intro i hi
        obtain ⟨hfits, hinteger⟩ : ∃ hfits, ReadAs text (.integer i hfits) := by
          cases hi with
          | positive hw hfits => exact ⟨hfits, (readAs_integer hfits).2 (.positive hw hfits)⟩
          | negative hw hne hfits =>
            exact ⟨hfits, (readAs_integer hfits).2 (.negative hw hne hfits)⟩
        exact nomatch h.unique hinteger
      obtain ⟨⟨sign, whole, s, hsign, hw, hs, rfl⟩, -⟩ := id h
      obtain ⟨fraction, exponent, hf, he, rfl⟩ := hs.parts
      rcases readAs_parts hsign hw hf he with ⟨i, hfits, hi⟩ | hread
      · exact nomatch h.unique hi
      · obtain ⟨x, hx, hnum⟩ := (hread _).1 h
        rw [hnum, signed_of_sign hsign]
        exact .real hsign hw hf he hnone hx

theorem IsNumeral.isNumber {text : Bytes} (h : IsNumeral text num) : IsNumber text :=
  (isNumeral_iff_readAs.1 h).1

theorem IsNumeral.unique {text : Bytes} {num' : Number} (h : IsNumeral text num)
    (h' : IsNumeral text num') : num = num' :=
  (isNumeral_iff_readAs.1 h).unique (isNumeral_iff_readAs.1 h')

theorem isNumeral_integer {text : Bytes} {i : Int} (h : Fits i) :
    IsNumeral text (.integer i h) ↔ IsInteger text i := by
  rw [isNumeral_iff_readAs, readAs_integer]

theorem readNumeral_eq_ok {b : UInt8} {r rest : Bytes} (hr : Stops rest) :
    readNumeral b r = .ok (num, rest) ↔ ∃ bs, IsNumeral (b :: bs) num ∧ r = bs ++ rest := by
  simp only [isNumeral_iff_readAs]
  exact readNumeral_iff_readAs hr

end EventPost.Json
