import EventPost.Numeral.Decimal

/-!
Digits as a written form of numbers: no two numbers have the same digits, padded or not, and the
reader takes up what the writer sets down as far as its limit goes.
-/

namespace EventPost.Numeral

theorem isDigit_of_mem_decimal {c : Char} {n : Nat} (h : c ∈ decimal n) : c.isDigit = true :=
  Nat.isDigit_of_mem_toDigits (by decide) (by decide) h

theorem value_decimal (n : Nat) : Nat.ofDigitChars 10 (decimal n) 0 = n :=
  Nat.ofDigitChars_ten_toDigits

theorem decimal_injective {m n : Nat} (h : decimal m = decimal n) : m = n := by
  rw [← value_decimal m, h, value_decimal]

theorem decimal_eq_cons {n : Nat} (h : 0 < n) : ∃ c cs, decimal n = c :: cs ∧ c ≠ '0' := by
  induction n using Nat.strongRecOn with
  | ind n ih =>
    by_cases hn : n < 10
    · have hzero : n.digitChar ≠ '0' := fun hc => by rw [Nat.digitChar_eq_zero] at hc; omega
      exact ⟨n.digitChar, [], Nat.toDigits_of_lt_base hn, hzero⟩
    · obtain ⟨c, cs, hcs, hc⟩ := ih (n / 10) (by omega) (by omega)
      refine ⟨c, cs ++ [(n % 10).digitChar], ?_, hc⟩
      rw [decimal] at hcs ⊢
      rw [Nat.toDigits_of_base_le (by decide) (by omega), hcs]
      rfl

theorem value_padded (width n : Nat) : Nat.ofDigitChars 10 (padded width n) 0 = n := by
  rw [padded, Nat.ofDigitChars_append, Nat.ofDigitChars_replicate_zero, Nat.mul_zero, value_decimal]

theorem padded_injective {width m n : Nat} (h : padded width m = padded width n) : m = n := by
  rw [← value_padded width m, h, value_padded]

theorem isDigit_of_mem_padded {c : Char} {width n : Nat} (h : c ∈ padded width n) :
    c.isDigit = true := by
  rcases List.mem_append.1 h with hz | hd
  · rw [List.eq_of_mem_replicate hz]
    rfl
  · exact isDigit_of_mem_decimal hd

theorem length_padded {width n : Nat} (hw : 0 < width) (h : n < Nat.pow 10 width) :
    (padded width n).length = width := by
  have hd : (decimal n).length ≤ width := (Nat.length_toDigits_le_iff (by decide) hw).2 h
  rw [padded, List.length_append, List.length_replicate]
  omega

theorem signedText_injective {i j : Int} (h : signedText i = signedText j) : i = j := by
  have hsign : ∀ m n : Nat, "-" ++ decimalText m ≠ decimalText n := by
    intro m n he
    have hl : ['-'] ++ decimal m = decimal n := by
      have ht := congrArg String.toList he
      simp only [String.toList_append, decimalText, String.toList_ofList] at ht
      exact ht
    have hm : '-' ∈ decimal n := hl ▸ List.mem_append_left _ (List.mem_singleton.2 rfl)
    exact absurd (isDigit_of_mem_decimal hm) (by decide)
  have hdigits : ∀ m n : Nat, decimalText m = decimalText n → m = n := by
    intro m n he
    exact decimal_injective (String.ofList_injective he)
  unfold signedText at h
  split at h <;> split at h
  · have hn := hdigits _ _ ((String.append_right_inj _).1 h)
    omega
  · exact absurd h (hsign _ _)
  · exact absurd h.symm (hsign _ _)
  · have hn := hdigits _ _ h
    omega

theorem digitValue?_of_isDigit {c : Char} (h : c.isDigit = true) :
    digitValue? 10 c = some (c.toNat - '0'.toNat) := by
  have hc : '0' ≤ c ∧ c ≤ '9' := by
    rw [Char.isDigit, Bool.and_eq_true, decide_eq_true_eq, decide_eq_true_eq] at h
    exact h
  have hv : c.toNat - '0'.toNat < 10 := by
    have h9 : c.toNat ≤ 57 := hc.2
    have h0 : '0'.toNat = 48 := rfl
    omega
  simp only [digitValue?, hc, and_self, if_true, hv]

theorem le_value (cs : List Char) (acc : Nat) : acc ≤ Nat.ofDigitChars 10 cs acc := by
  induction cs generalizing acc with
  | nil => exact Nat.le_of_eq Nat.ofDigitChars_nil.symm
  | cons c cs ih =>
    rw [Nat.ofDigitChars_cons]
    exact Nat.le_trans (by omega) (ih _)

theorem readOnto_digits {limit : Nat} (cs : List Char) (digits : ∀ c ∈ cs, c.isDigit = true)
    (acc : Nat) (h : acc ≤ limit) : readOnto 10 limit acc cs =
      if Nat.ofDigitChars 10 cs acc ≤ limit then .ok (Nat.ofDigitChars 10 cs acc)
      else .error .overflow := by
  induction cs generalizing acc with
  | nil => rw [Nat.ofDigitChars_nil, if_pos h]; rfl
  | cons c cs ih =>
    rw [readOnto, digitValue?_of_isDigit (digits c List.mem_cons_self), Nat.ofDigitChars_cons]
    dsimp only
    split
    · rename_i hle
      exact ih (fun d hd => digits d (List.mem_cons_of_mem c hd)) _ hle
    · rename_i hgt
      -- The number only grows, so it stays past the limit.
      have hv := le_value cs (10 * acc + (c.toNat - '0'.toNat))
      rw [if_neg (by omega)]

theorem isDigit_of_digitValue? {c : Char} {d : Nat} (h : digitValue? 10 c = some d) :
    c.isDigit = true := by
  rw [Char.isDigit, Bool.and_eq_true, decide_eq_true_eq, decide_eq_true_eq]
  by_cases hd : '0' ≤ c ∧ c ≤ '9'
  · exact hd
  · -- Whatever is no digit counts for ten or more.
    have hlarge : ¬(if 'a' ≤ c ∧ c ≤ 'z' then c.toNat - 'a'.toNat + 10
        else if 'A' ≤ c ∧ c ≤ 'Z' then c.toNat - 'A'.toNat + 10 else 10) < 10 := by
      split
      · omega
      · split
        · omega
        · omega
    unfold digitValue? at h
    dsimp only at h
    rw [if_neg hd, if_neg hlarge] at h
    exact nomatch h

theorem isDigit_of_readOnto {limit acc n : Nat} {cs : List Char}
    (h : readOnto 10 limit acc cs = .ok n) : ∀ c ∈ cs, c.isDigit = true := by
  induction cs generalizing acc with
  | nil => exact fun c hc => absurd hc List.not_mem_nil
  | cons c cs ih =>
    rw [readOnto] at h
    split at h
    · cases h
    · rename_i d hd
      split at h
      · intro b hb
        rcases List.mem_cons.1 hb with rfl | hb
        · exact isDigit_of_digitValue? hd
        · exact ih h b hb
      · cases h

theorem readOnto_eq_ok {limit n : Nat} {cs : List Char} : readOnto 10 limit 0 cs = .ok n ↔
    (∀ c ∈ cs, c.isDigit = true) ∧ Nat.ofDigitChars 10 cs 0 = n ∧ n ≤ limit := by
  constructor
  · intro h
    have hdigits := isDigit_of_readOnto h
    have hlimit := readOnto_le (Nat.zero_le limit) h
    rw [readOnto_digits cs hdigits 0 (Nat.zero_le limit)] at h
    split at h
    · exact ⟨hdigits, Except.ok.inj h, hlimit⟩
    · exact nomatch h
  · rintro ⟨hdigits, rfl, hlimit⟩
    rw [readOnto_digits cs hdigits 0 (Nat.zero_le limit), if_pos hlimit]

/-- A number of digits, as it may be written: with a plus sign before it, or without one. -/
def Spells (cs : List Char) (n : Nat) : Prop :=
  ∃ ds, (cs = ds ∨ cs = '+' :: ds) ∧ ds ≠ [] ∧ (∀ c ∈ ds, c.isDigit = true) ∧
    Nat.ofDigitChars 10 ds 0 = n

theorem readUnsigned_eq_ok {limit n : Nat} {cs : List Char} :
    readUnsigned 10 limit cs = .ok n ↔ Spells cs n ∧ n ≤ limit := by
  constructor
  · intro h
    unfold readUnsigned at h
    split at h
    · exact nomatch h
    · exact nomatch h
    · rename_i ds hne
      obtain ⟨hdigits, hvalue, hlimit⟩ := readOnto_eq_ok.1 h
      exact ⟨⟨ds, .inr rfl, hne, hdigits, hvalue⟩, hlimit⟩
    · rename_i hne _ _
      obtain ⟨hdigits, hvalue, hlimit⟩ := readOnto_eq_ok.1 h
      exact ⟨⟨cs, .inl rfl, hne, hdigits, hvalue⟩, hlimit⟩
  · rintro ⟨⟨ds, rfl | rfl, hne, hdigits, hvalue⟩, hlimit⟩
    · have hplus : ∀ rest, cs ≠ '+' :: rest := by
        rintro rest rfl
        exact absurd (hdigits '+' List.mem_cons_self) (by decide)
      rw [← readOnto_eq_ok.2 ⟨hdigits, hvalue, hlimit⟩]
      unfold readUnsigned
      split
      · exact absurd rfl hne
      · exact absurd rfl (hplus _)
      · exact absurd rfl (hplus _)
      · rfl
    · rw [← readOnto_eq_ok.2 ⟨hdigits, hvalue, hlimit⟩]
      cases ds with
      | nil => exact absurd rfl hne
      | cons d ds => rfl

theorem readWord_eq_ok {word : UInt64} {cs : List Char} :
    readWord cs = .ok word ↔ Spells cs word.toNat := by
  rw [readWord]
  constructor
  · intro h
    cases hr : readUnsigned 10 maxWord cs with
    | error f => rw [hr] at h; exact nomatch h
    | ok n =>
      rw [hr] at h
      obtain ⟨hspells, hlimit⟩ := readUnsigned_eq_ok.1 hr
      have hword : (UInt64.ofNat n).toNat = n :=
        UInt64.toNat_ofNat_of_lt' (Nat.lt_succ_of_le hlimit)
      rw [← Except.ok.inj h, hword]
      exact hspells
  · intro h
    have hlimit : word.toNat ≤ maxWord := Nat.le_of_lt_succ word.toNat_lt
    rw [readUnsigned_eq_ok.2 ⟨h, hlimit⟩]
    exact congrArg Except.ok UInt64.ofNat_toNat

theorem readUnsigned_decimal (limit n : Nat) : readUnsigned 10 limit (decimal n) =
    if n ≤ limit then .ok n else .error .overflow := by
  have hr := readOnto_digits (decimal n) (fun _ => isDigit_of_mem_decimal) 0 (Nat.zero_le limit)
  rw [value_decimal] at hr
  rw [← hr]
  have hne : decimal n ≠ [] := Nat.toDigits_ne_nil
  have hplus : ∀ cs, decimal n ≠ '+' :: cs := by
    intro cs he
    have hd := isDigit_of_mem_decimal (n := n) (he ▸ List.mem_cons_self)
    exact absurd hd (by decide)
  unfold readUnsigned
  split
  · exact absurd ‹_› hne
  · exact absurd ‹_› (hplus _)
  · exact absurd ‹_› (hplus _)
  · rfl

theorem readWord_decimal (n : Nat) : readWord (decimal n) =
    if n ≤ maxWord then .ok (UInt64.ofNat n) else .error .overflow := by
  rw [readWord, readUnsigned_decimal]
  split <;> rfl

end EventPost.Numeral
