import EventPost.Proofs.Text.Line
import EventPost.Proofs.Yaml.Line

/-!
Escapes read back. A character that would not show is written by a letter or by its number, which
has as many digits as the letter before it says.
-/

namespace EventPost.Yaml

open Text (hexText)

def upperDigit (d : Nat) : Char := (Nat.digitChar d).toUpper

theorem upperDigit_spec : ∀ d < 16, Numeral.digitValue? 16 (upperDigit d) = some d ∧
    isBlankOrBreak (upperDigit d) = false := by decide

theorem hexNumber_append (cs : List Char) (c : Char) :
    hexNumber (cs ++ [c]) = hexNumber cs * 16 + (Numeral.digitValue? 16 c).getD 0 := by
  rw [hexNumber, List.foldl_append]
  rfl

theorem hexNumber_hexText (n : Nat) : hexNumber ((hexText n).map Char.toUpper) = n := by
  induction n using Nat.strongRecOn with
  | ind n ih =>
    by_cases hn : n < 16
    · rw [hexText, Nat.toDigits_of_lt_base hn]
      have hdigits : ∀ n < 16, hexNumber ([Nat.digitChar n].map Char.toUpper) = n := by decide
      exact hdigits n hn
    · rw [hexText, Nat.toDigits_of_base_le (by decide) (Nat.le_of_not_lt hn), List.map_append]
      have hlast := (upperDigit_spec (n % 16) (Nat.mod_lt n (by decide))).1
      have hinit := ih (n / 16) (by omega)
      rw [hexText] at hinit
      rw [List.map_singleton, hexNumber_append, hinit, ← upperDigit, hlast, Option.getD_some]
      omega

theorem hexNumber_zeros (k : Nat) (cs : List Char) :
    hexNumber (List.replicate k '0' ++ cs) = hexNumber cs := by
  induction k with
  | zero => rfl
  | succ k ih =>
    rw [← ih]
    rfl

theorem hexNumber_upperHex (width n : Nat) : hexNumber (upperHex width n) = n := by
  rw [upperHex, hexNumber_zeros, hexNumber_hexText]

theorem length_upperHex {width n : Nat} (hw : 0 < width) (h : n < Nat.pow 16 width) :
    (upperHex width n).length = width := by
  have hd : (hexText n).length ≤ width := (Nat.length_toDigits_le_iff (by decide) hw).2 h
  rw [upperHex, List.length_append, List.length_replicate, List.length_map]
  omega

theorem exists_digit_of_mem_upperHex {width n : Nat} {c : Char} (h : c ∈ upperHex width n) :
    ∃ d < 16, c = upperDigit d := by
  rcases List.mem_append.1 h with h | h
  · exact ⟨0, by decide, (List.eq_of_mem_replicate h).trans (by decide)⟩
  · obtain ⟨x, hx, rfl⟩ := List.mem_map.1 h
    obtain ⟨d, hd, rfl⟩ := Text.exists_digit_of_mem_hexText hx
    exact ⟨d, hd, rfl⟩

/-- What is written for a character, as far as it matters to a reader of quoted text: the character
itself, or a backslash and what the backslash announces. -/
inductive Escaped (c : Char) : List Char → Prop
  | bare : isShown c = true → isBlankOrBreak c = false → c ≠ '"' → c ≠ '\\' → Escaped c [c]
  | space : c = ' ' → Escaped c [c]
  | letter {d : Char} : escapeShape? d = some (.inl c) → isBreak d = false → Escaped c ['\\', d]
  | number {d : Char} {width : Nat} : escapeShape? d = some (.inr width) → isBreak d = false →
    0 < width → c.toNat < Nat.pow 16 width → Escaped c ('\\' :: d :: upperHex width c.toNat)

theorem escaped_escapeChar (c : Char) : Escaped c (escapeChar c) := by
  unfold escapeChar
  split
  · rename_i d hd
    have htable : ∀ e ∈ shortEscapes, escapeShape? e.2 = some (.inl e.1) ∧ isBreak e.2 = false := by
      decide
    obtain ⟨before, after, hlist, -⟩ := List.lookup_eq_some_iff.1 hd
    have hmem : (c, d) ∈ shortEscapes := by
      rw [hlist]
      exact List.mem_append_right _ List.mem_cons_self
    exact .letter (htable _ hmem).1 (htable _ hmem).2
  · rename_i hnone
    have hother : ∀ e ∈ shortEscapes, c ≠ e.1 := by
      intro e he hc
      exact absurd (List.lookup_eq_none_iff.1 hnone e he) (by simp [hc])
    simp only [shortEscapes, List.forall_mem_cons] at hother
    split
    · rename_i hshown
      by_cases hspace : c = ' '
      · exact .space hspace
      · refine .bare hshown ?_ (by grind) (by grind)
        rw [isBlankOrBreak_of_isShown hshown, isSpaceOrBreak, isBreak]
        simp only [Bool.or_eq_false_iff, beq_eq_false_iff_ne, ne_eq]
        grind
    · have hvalid : c.toNat < 0x110000 := by
        rcases c.valid with h | h
        · exact Nat.lt_trans h (by decide)
        · exact h.2
      split
      · rename_i hsmall
        exact .number rfl rfl (by decide) (Nat.lt_of_le_of_lt hsmall (by decide))
      · split
        · rename_i hsmall
          exact .number rfl rfl (by decide) (Nat.lt_of_le_of_lt hsmall (by decide))
        · exact .number rfl rfl (by decide) (Nat.lt_trans hvalid (by decide))

variable {start m : Mark} {c d : Char} {rest : List Char}

theorem scanEscape_letter (h : escapeShape? d = some (.inl c)) :
    scanEscape start ⟨'\\' :: d :: rest, m⟩ = .ok (c, ⟨rest, m.forward 2⟩) := by
  have hpeek : (Source.peek? ⟨'\\' :: d :: rest, m⟩ 1).bind escapeShape? = some (.inl c) := h
  rw [scanEscape, hpeek]
  rfl

theorem scanEscape_number {width : Nat} (h : escapeShape? d = some (.inr width)) (hw : 0 < width)
    (hc : c.toNat < Nat.pow 16 width) :
    scanEscape start ⟨'\\' :: d :: (upperHex width c.toNat ++ rest), m⟩ =
      .ok (c, ⟨rest, m.forward (2 + width)⟩) := by
  have hpeek : (Source.peek? ⟨'\\' :: d :: (upperHex width c.toNat ++ rest), m⟩ 1).bind
      escapeShape? = some (.inr width) := h
  have hlength := length_upperHex hw hc
  have htake : (upperHex width c.toNat ++ rest).take width = upperHex width c.toNat := by
    rw [List.take_append_of_le_length (Nat.le_of_eq hlength.symm),
      List.take_of_length_le (Nat.le_of_eq hlength)]
  have hdrop : (upperHex width c.toNat ++ rest).drop width = rest := by
    rw [List.drop_append_of_le_length (Nat.le_of_eq hlength.symm),
      List.drop_of_length_le (Nat.le_of_eq hlength), List.nil_append]
  have hdigits : (upperHex width c.toNat).all isHex = true := by
    rw [List.all_eq_true]
    intro x hx
    obtain ⟨n, hn, rfl⟩ := exists_digit_of_mem_upperHex hx
    rw [isHex, (upperDigit_spec n hn).1]
    rfl
  have hvalid : ¬((0xd800 ≤ c.toNat ∧ c.toNat ≤ 0xdfff) ∨ 0x10ffff < c.toNat) := by
    have hv : c.toNat < 0xd800 ∨ 0xdfff < c.toNat ∧ c.toNat < 0x110000 := c.valid
    omega
  have hskip : Source.skip ⟨'\\' :: d :: (upperHex width c.toNat ++ rest), m⟩ 2 =
      ⟨upperHex width c.toNat ++ rest, m.forward 2⟩ := rfl
  have hbehind : Source.skip ⟨upperHex width c.toNat ++ rest, m.forward 2⟩ width =
      ⟨rest, m.forward (2 + width)⟩ := by
    rw [Source.skip, hdrop, Mark.forward_forward]
  rw [scanEscape, hpeek]
  simp only [hskip, htake, hlength, hdigits, hexNumber_upperHex, if_neg hvalid, Nat.lt_irrefl,
    decide_false, Bool.not_true, Bool.or_self, Bool.false_eq_true, if_false, hbehind,
    Char.ofNat_toNat]

end EventPost.Yaml
