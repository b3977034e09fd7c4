import EventPost.Proofs.CommandLine.Given
import EventPost.Proofs.Event.Members
import EventPost.Proofs.Json.Literal

/-!
Integers given as fields. One that fits 64 bits stands in the event as it was given; a longer one
stands there as the shortest decimal of a floating-point number, or in quotes if it is too large for
one, and so only a number of few digits with zeros behind them is still the number that was given.
-/

namespace EventPost.CommandLine

open Json (Fits IsLiteral Number maxDepth negativeZero)
open Numeral (Binary64)
open Text (bytesOf encode)

variable {k d : String} {i : Int}

theorem entryValue_negativeZero (h : bytesOf d = negativeZero) :
    entryValue d = .number (.real (Binary64.zero true)) := by
  have hread : Json.parse negativeZero = .ok (.number (.real (Binary64.zero true))) := rfl
  rw [entryValue, Json.parse?, h, hread]
  rfl

theorem entryValue_literal (h : IsLiteral (bytesOf d) i) :
    (∃ hf : Fits i, bytesOf d ≠ negativeZero ∧ entryValue d = .number (.integer i hf)) ∨
      (bytesOf d = negativeZero ∧ i = 0 ∧ entryValue d = .number (.real (Binary64.zero true))) ∨
      ¬Fits i ∧ ((∃ x, entryValue d = .number (.real x)) ∨ entryValue d = .text d) := by
  by_cases hz : bytesOf d = negativeZero
  · have hzero : Json.numberValue negativeZero = (0 : Int) :=
      (IsLiteral.minus Json.whole_zero).numberValue
    have hvalue := h.numberValue
    rw [hz, hzero] at hvalue
    exact .inr (.inl ⟨hz, by exact_mod_cast hvalue.symm, entryValue_negativeZero hz⟩)
  by_cases hf : Fits i
  · have hn := (Json.isNumeral_integer hf).2 (h.isInteger hf hz)
    have hmeans := Json.Means.scalar (.number hn) maxDepth
    exact .inl ⟨hf, hz, entryValue_eq.2 (.json (Json.alone_self hmeans))⟩
  refine .inr (.inr ⟨hf, ?_⟩)
  have hstands := entryValue_eq.1 (Eq.refl (entryValue d))
  generalize entryValue d = v at hstands
  cases hstands with
  | json hmeans =>
    obtain ⟨n, hn, rfl⟩ := h.isNumber.numeral_of_alone hmeans
    cases n with
    | real x => exact .inl ⟨x, rfl⟩
    | integer j hj => exact absurd (h.eq_of_isInteger ((Json.isNumeral_integer hj).1 hn) ▸ hj) hf
  | plain => exact .inr rfl

section

variable {e : Event} (hcore : k ∉ Event.coreFields) (hd : IsLiteral (bytesOf d) i)
  (hvalue : e.fields.get? k = some (entryValue d))
include hcore hd hvalue

theorem carries_literal_iff : e.Carries k i ↔
    Fits i ∨ ∃ x, entryValue d = .number (.real x) ∧ x.decimalValue = i := by
  rw [e.carries_iff hcore hvalue]
  rcases entryValue_literal hd with ⟨hf, -, hv⟩ | ⟨-, rfl, hv⟩ | ⟨hf, ⟨x, hv⟩ | hv⟩
  · have hnumber := Json.isNumeral_written i hf
    rw [hv]
    exact ⟨fun _ => .inl hf, fun _ => ⟨hnumber.isNumber,
      ((Json.isNumeral_integer hf).1 hnumber).isLiteral.numberValue⟩⟩
  · obtain ⟨hnumber, hdecimal⟩ := Json.write_real (Binary64.zero true)
    have hzero : (Binary64.zero true).decimalValue = (0 : Int) := by
      rw [Binary64.decimalValue, if_pos (show (Binary64.zero true).isZero from rfl), mul_zero]
      rfl
    rw [hv]
    exact ⟨fun _ => .inr ⟨_, rfl, hzero⟩, fun _ => ⟨hnumber, hdecimal.trans hzero⟩⟩
  · obtain ⟨hnumber, hdecimal⟩ := Json.write_real x
    rw [hv]
    constructor
    · intro h
      exact .inr ⟨x, rfl, hdecimal.symm.trans h.2⟩
    · rintro (hf' | ⟨y, hy, hi⟩)
      · exact absurd hf' hf
      · cases hy
        exact ⟨hnumber, hdecimal.trans hi⟩
  · rw [hv]
    constructor
    · intro h
      obtain ⟨n, -, hn⟩ := h.1.numeral_of_scalar (.text (Json.isText_written d))
      cases hn
    · rintro (hf' | ⟨y, hy, -⟩)
      · exact absurd hf' hf
      · cases hy

theorem says_literal_iff :
    e.Says k (bytesOf d) ↔ Fits i ∧ bytesOf d ≠ negativeZero := by
  rw [e.says_iff hcore hvalue]
  rcases entryValue_literal hd with ⟨hf, hz, hv⟩ | ⟨hz, -, hv⟩ | ⟨hf, ⟨x, hv⟩ | hv⟩
  · rw [hv]
    exact ⟨fun _ => ⟨hf, hz⟩, fun _ => (hd.isInteger hf hz).text_eq hf⟩
  · rw [hv]
    exact ⟨fun h => absurd h.symm (Json.write_real_ne hd _), fun h => absurd hz h.2⟩
  · rw [hv]
    exact ⟨fun h => absurd h.symm (Json.write_real_ne hd x), fun h => absurd h.1 hf⟩
  · rw [hv]
    refine ⟨fun h => ?_, fun h => absurd h.1 hf⟩
    have htext := Json.isText_written d
    rw [← show bytesOf d = encode (Json.writeText d) from h] at htext
    obtain ⟨n, -, hn⟩ := hd.isNumber.numeral_of_scalar (.text htext)
    cases hn

theorem says_of_not_fits (hf : ¬Fits i) :
    (∃ x, entryValue d = .number (.real x) ∧ e.Says k (encode (Number.write (.real x)))) ∨
      e.Says k (encode (Json.writeText d)) := by
  rcases entryValue_literal hd with ⟨hf', -⟩ | ⟨-, rfl, -⟩ | ⟨-, ⟨x, hv⟩ | hv⟩
  · exact absurd hf' hf
  · exact absurd (by decide) hf
  · exact .inl ⟨x, hv, (e.says_iff hcore hvalue).2 (by rw [hv]; rfl)⟩
  · exact .inr ((e.says_iff hcore hvalue).2 (by rw [hv]; rfl))

theorem digits_of_carries (hf : ¬Fits i) (h : e.Carries k i) :
    ∃ m ≤ 10 ^ 17, ∃ p : Nat, i.natAbs = m * 10 ^ p := by
  rcases (carries_literal_iff hcore hd hvalue).1 h with hf' | ⟨x, -, hx⟩
  · exact absurd hf' hf
  · exact Binary64.digits_of_decimalValue hx

end

/-- Whatever else is on the command line, an integer that is given as a field is in the text of the
event if it fits 64 bits, or if the shortest decimal of what it is read as happens to be the same
number; only in the first case does it stand there as it was given, but for a zero with a sign. -/
theorem integer_carried_iff (hkey : IsKey k) (hcore : k ∉ Event.coreFields)
    (hd : IsLiteral (bytesOf d) i) :
    (∀ option, Spells .field (k ++ "=" ++ d) option → ∀ title, ∃ a,
      Arguments.parse (option ++ ["--", title]) = .ok a ∧ a.title = some title ∧
        a.fields = [(k, entryValue d)]) ∧
    ∀ argv a, Arguments.parse argv = .ok a → Given argv .field (k ++ "=" ++ d) →
      (∀ v, (k, v) ∈ a.fields → v = entryValue d) → ∀ title stamp,
        let e := Event.ofNotification (a.notification title) stamp
        (e.Carries k i ↔
          Fits i ∨ ∃ x, entryValue d = .number (.real x) ∧ x.decimalValue = i) ∧
        (e.Says k (bytesOf d) ↔ Fits i ∧ bytesOf d ≠ negativeZero) ∧
        (¬Fits i →
          ((∃ x, entryValue d = .number (.real x) ∧ e.Says k (encode (Number.write (.real x)))) ∨
            e.Says k (encode (Json.writeText d))) ∧
          (e.Carries k i → ∃ m ≤ 10 ^ 17, ∃ p : Nat, i.natAbs = m * 10 ^ p)) := by
  refine ⟨fun option hoption title => ?_, fun argv a hparse hgiven hsole title stamp => ?_⟩
  · exact ⟨_, parse_spelled hoption (readEntry_key hkey d) title, rfl, rfl⟩
  · have hmem := mem_fields_of_given hparse hgiven (readEntry_key hkey d)
    have hvalue := get?_of_mem_fields hcore hmem hsole title stamp
    exact ⟨carries_literal_iff hcore hd hvalue, says_literal_iff hcore hd hvalue,
      fun hf => ⟨says_of_not_fits hcore hd hvalue hf, digits_of_carries hcore hd hvalue hf⟩⟩

/-- The largest number of 64 bits stands in the event as it was given. -/
theorem integer_carried_iff_word :
    ∃ a, Arguments.parse ["--field", "n=18446744073709551615", "--", "t"] = .ok a ∧
      ∀ stamp, (Event.ofNotification (a.notification "t") stamp).Carries "n" 18446744073709551615 ∧
        (Event.ofNotification (a.notification "t") stamp).Says "n"
          (bytesOf "18446744073709551615") := by
  have hd : IsLiteral (bytesOf "18446744073709551615") 18446744073709551615 :=
    .plain ⟨⟨by decide, by decide +kernel⟩, by decide⟩
  have hoption : Spells .field ("n" ++ "=" ++ "18446744073709551615")
      ["--field", "n=18446744073709551615"] := .apart (by decide)
  have hkey : IsKey "n" := .of_blankless (by decide) (List.forall_mem_singleton.2 (by decide))
  obtain ⟨hread, hcarried⟩ := integer_carried_iff hkey (by decide) hd
  obtain ⟨a, hparse, -, hfields⟩ := hread _ hoption "t"
  refine ⟨a, hparse, fun stamp => ?_⟩
  have hgiven : Given ["--field", "n=18446744073709551615", "--", "t"] .field
      ("n" ++ "=" ++ "18446744073709551615") :=
    ⟨[], _, ["--", "t"], rfl, List.not_mem_nil, hoption⟩
  obtain ⟨hcarries, hsays, -⟩ := hcarried _ a hparse hgiven (by simp [hfields]) "t" stamp
  exact ⟨by exact_mod_cast hcarries.2 (.inl (by decide)), hsays.2 ⟨by decide, by decide⟩⟩

/-- Two more than that, and it is another number. -/
theorem not_carried_beyond_word :
    IsKey "n" ∧ "n" ∉ Event.coreFields ∧
      IsLiteral (bytesOf "18446744073709551617") 18446744073709551617 ∧
      ∃ a, Arguments.parse ["--field", "n=18446744073709551617", "--", "t"] = .ok a ∧
        ∀ stamp, ¬(Event.ofNotification (a.notification "t") stamp).Carries "n"
          18446744073709551617 := by
  have hcore : "n" ∉ Event.coreFields := by decide
  have hd : IsLiteral (bytesOf "18446744073709551617") 18446744073709551617 :=
    .plain ⟨⟨by decide, by decide +kernel⟩, by decide⟩
  have hoption : Spells .field ("n" ++ "=" ++ "18446744073709551617")
      ["--field", "n=18446744073709551617"] := .apart (by decide)
  have hkey : IsKey "n" := .of_blankless (by decide) (List.forall_mem_singleton.2 (by decide))
  have hparse := parse_spelled hoption (readEntry_key hkey "18446744073709551617") "t"
  refine ⟨hkey, hcore, hd, _, hparse, fun stamp hcarries => ?_⟩
  let a : Arguments := { Arguments.none with
    title := some "t", fields := [("n", entryValue "18446744073709551617")] }
  have hsole : ∀ w, ("n", w) ∈ a.fields → w = entryValue "18446744073709551617" := by
    intro w hw
    exact (Prod.mk.inj (List.mem_singleton.1 hw)).2
  have hmem : ("n", entryValue "18446744073709551617") ∈ a.fields := List.mem_cons_self
  have hvalue := get?_of_mem_fields hcore hmem hsole "t" stamp
  obtain ⟨m, hm, p, hp⟩ :=
    digits_of_carries hcore hd hvalue (by decide) (by exact_mod_cast hcarries)
  -- Its last digit is not zero, so it would have to be the digits themselves.
  have hdigits : 18446744073709551617 = m * 10 ^ p := hp
  cases p with
  | zero =>
    rw [pow_zero] at hdigits
    omega
  | succ p =>
    rw [pow_succ, ← mul_assoc] at hdigits
    omega

end EventPost.CommandLine
