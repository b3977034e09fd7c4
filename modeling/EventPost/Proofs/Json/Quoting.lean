import EventPost.Proofs.Json.Grammar

/-!
Strings are read as they are formed. A reader that keeps what a string stands for takes just the
strings that stand for a text; the one that passes over a string takes all that may be quoted.
-/

namespace EventPost.Json

open Text (Bytes bytesOf)

theorem readUnit_quartet {ds : Bytes} {n : Nat} (h : Quartet ds n) (rest : Bytes) :
    readUnit (ds ++ rest) = .ok (n, rest) := by
  cases h with
  | digits ha hb hc hd => simp only [List.cons_append, List.nil_append, readUnit, ha, hb, hc, hd]

theorem readUnit_eq_ok {bs rest : Bytes} {n : Nat} :
    readUnit bs = .ok (n, rest) ↔ ∃ ds, Quartet ds n ∧ bs = ds ++ rest := by
  constructor
  · intro h
    unfold readUnit at h
    split at h
    · split at h
      · rename_i ha hb hc hd
        obtain ⟨rfl, rfl⟩ := Prod.mk.inj (Except.ok.inj h)
        exact ⟨_, .digits ha hb hc hd, rfl⟩
      · cases h
    · cases h
  · intro h
    obtain ⟨ds, hds, rfl⟩ := h
    exact readUnit_quartet hds rest

theorem readLowUnit_eq_ok {high : Nat} {bs out rest : Bytes} :
    readLowUnit high bs = .ok (out, rest) ↔ ∃ ds low, Quartet ds low ∧ 0xdc00 ≤ low ∧
      low ≤ 0xdfff ∧ bs = 0x5c :: 0x75 :: (ds ++ rest) ∧
      out = utf8 ((high - 0xd800) * 0x400 + (low - 0xdc00) + 0x10000) := by
  constructor
  · intro h
    unfold readLowUnit at h
    split at h
    · cases h
    · split at h <;> cases h
    · split at h
      · cases h
      · split at h
        · cases h
        · rename_i hslash hu
          split at h
          · cases h
          · rename_i hunit
            split at h
            · cases h
            · rename_i hrange
              obtain ⟨rfl, rfl⟩ := Prod.mk.inj (Except.ok.inj h)
              obtain ⟨ds, hds, rfl⟩ := readUnit_eq_ok.1 hunit
              refine ⟨ds, _, hds, by omega, by omega, ?_, rfl⟩
              rw [not_not.1 hslash, not_not.1 hu]
  · intro h
    obtain ⟨ds, low, hds, hlow, hhigh, rfl, hout⟩ := h
    rw [readLowUnit, if_neg (by decide), if_neg (by decide), readUnit_quartet hds]
    simp only
    rw [if_neg (by omega), hout]

theorem readEscape_eq_ok {bs out rest : Bytes} :
    readEscape bs = .ok (out, rest) ↔ ∃ e, EscapeSequence e out ∧ bs = e ++ rest := by
  constructor
  · intro h
    unfold readEscape at h
    split at h
    · cases h
    · split at h
      · rename_i hsimple
        obtain ⟨rfl, rfl⟩ := Prod.mk.inj (Except.ok.inj h)
        exact ⟨_, .short hsimple, rfl⟩
      · split at h
        · rename_i hu
          subst hu
          split at h
          · cases h
          · rename_i hunit
            obtain ⟨ds, hds, rfl⟩ := readUnit_eq_ok.1 hunit
            split at h
            · cases h
            · split at h
              · rename_i hlow hhigh
                obtain ⟨ds', low, hds', hmin, hmax, rfl, hout⟩ := readLowUnit_eq_ok.1 h
                rw [hout]
                refine ⟨_, .pair hds hds' hhigh ⟨hmin, hmax⟩, ?_⟩
                simp
              · obtain ⟨rfl, rfl⟩ := Prod.mk.inj (Except.ok.inj h)
                exact ⟨_, .unit hds (by omega), rfl⟩
        · cases h
  · intro h
    obtain ⟨e, he, rfl⟩ := h
    have hsimple : simpleEscape? 0x75 = none := by decide
    cases he with
    | short hb => exact readEscape_simple hb rest
    | unit hds hn =>
      rw [List.cons_append, readEscape, hsimple]
      simp only [if_true, readUnit_quartet hds]
      rw [if_neg (by omega), if_neg (by omega)]
    | @pair ds ds' high low hds hds' hhigh hlow =>
      rw [List.cons_append, readEscape, hsimple]
      simp only [if_true, List.append_assoc, List.cons_append, readUnit_quartet hds]
      rw [if_neg (by omega), if_pos hhigh]
      exact readLowUnit_eq_ok.2 ⟨ds', low, hds', hlow.1, hlow.2, rfl, rfl⟩

theorem takeText_chars {raw out : Bytes} (h : Chars raw out) (acc rest : Bytes) :
    takeText acc (raw ++ 0x22 :: rest) = .ok (acc.reverse ++ out, rest) := by
  induction h generalizing acc with
  | done => rw [List.nil_append, takeText, if_pos rfl, List.append_nil]
  | plain hb _ ih => simp [takeText_plain hb, ih]
  | escape he _ ih =>
    rw [List.cons_append, List.append_assoc, takeText_escape (readEscape_eq_ok.2 ⟨_, he, rfl⟩), ih]
    simp

theorem chars_of_takeText {acc bs out rest : Bytes} (h : takeText acc bs = .ok (out, rest)) :
    ∃ raw o, Chars raw o ∧ bs = raw ++ 0x22 :: rest ∧ out = acc.reverse ++ o := by
  fun_induction takeText acc bs with
  | case1 => cases h
  | case2 acc bs =>
    obtain ⟨rfl, rfl⟩ := Prod.mk.inj (Except.ok.inj h)
    exact ⟨[], [], .done, rfl, (List.append_nil _).symm⟩
  | case3 acc bs o rest' hescape _ ih =>
    obtain ⟨raw, tail, hraw, rfl, rfl⟩ := ih h
    obtain ⟨e, he, rfl⟩ := readEscape_eq_ok.1 hescape
    exact ⟨_, _, .escape he hraw, by simp, by simp⟩
  | case4 => cases h
  | case5 => cases h
  | case6 acc b bs hquote hslash hcontrol ih =>
    obtain ⟨raw, tail, hraw, rfl, rfl⟩ := ih h
    exact ⟨_, _, .plain ⟨hcontrol, hquote, hslash⟩ hraw, rfl, by simp⟩

theorem readText_chars {raw : Bytes} {s : String} (h : Chars raw (bytesOf s)) (rest : Bytes) :
    readText (raw ++ 0x22 :: rest) = .ok (s, rest) := by
  have hdecode : Text.decodeString? (bytesOf s) = some s := Text.decodeString?_eq_some.2 rfl
  rw [readText, takeText_chars h, List.reverse_nil, List.nil_append]
  simp only [hdecode]

theorem readText_eq_ok {bs rest : Bytes} {s : String} :
    readText bs = .ok (s, rest) ↔ ∃ raw, Chars raw (bytesOf s) ∧ bs = raw ++ 0x22 :: rest := by
  constructor
  · intro h
    unfold readText at h
    split at h
    · cases h
    · rename_i htake
      split at h
      · rename_i hdecode
        obtain ⟨rfl, rfl⟩ := Prod.mk.inj (Except.ok.inj h)
        obtain ⟨raw, o, hraw, rfl, rfl⟩ := chars_of_takeText htake
        rw [Text.decodeString?_eq_some] at hdecode
        exact ⟨raw, hdecode ▸ hraw, rfl⟩
      · cases h
  · intro h
    obtain ⟨raw, hraw, rfl⟩ := h
    exact readText_chars hraw rest

theorem Chars.quotable {raw out : Bytes} (h : Chars raw out) : Quotable raw := by
  induction h with
  | done => exact .done
  | plain hb _ ih => exact .plain hb ih
  | escape he _ ih =>
    cases he with
    | short hb => exact .short hb ih
    | unit hds => exact .unit hds ih
    | pair hds hds' =>
      have hlow := Quotable.unit hds' ih
      have hboth := Quotable.unit hds hlow
      simpa using hboth

theorem skipText_quotable {raw : Bytes} (h : Quotable raw) (rest : Bytes) :
    skipText (raw ++ 0x22 :: rest) = .ok rest := by
  have hquote : (0x5c : UInt8) ≠ 0x22 := by decide
  induction h with
  | done => simp [skipText.eq_def]
  | plain hb _ ih =>
    rw [List.cons_append, skipText.eq_def]
    simp only [if_neg hb.quote, if_neg hb.backslash, if_neg hb.control, ih]
  | short hb _ ih =>
    rw [List.cons_append, List.cons_append, skipText.eq_def]
    simp only [if_neg hquote, hb, Option.isSome_some, if_true, ih]
  | unit hds _ ih =>
    have hsimple : (simpleEscape? 0x75).isSome = false := by decide
    rw [List.cons_append, List.cons_append, List.append_assoc, skipText.eq_def]
    simp only [if_neg hquote, hsimple, Bool.false_eq_true, if_false, if_true]
    split
    · rename_i heq
      rw [readUnit_quartet hds] at heq
      cases heq
    · rename_i heq
      rw [readUnit_quartet hds] at heq
      obtain ⟨rfl, rfl⟩ := Prod.mk.inj (Except.ok.inj heq)
      exact ih

theorem quotable_of_skipText {bs rest : Bytes} (h : skipText bs = .ok rest) :
    ∃ raw, Quotable raw ∧ bs = raw ++ 0x22 :: rest := by
  induction hlength : bs.length using Nat.strong_induction_on generalizing bs with
  | _ n ih =>
    subst hlength
    rw [skipText.eq_def] at h
    split at h
    · cases h
    · rename_i b bs
      split at h
      · rename_i hquote
        obtain rfl := Except.ok.inj h
        exact ⟨[], .done, by rw [hquote]; rfl⟩
      · rename_i hquote
        split at h
        · rename_i hslash
          subst hslash
          split at h
          · cases h
          · rename_i c bs
            split at h
            · rename_i hsimple
              obtain ⟨raw, hraw, rfl⟩ := ih _ (by simp only [List.length_cons]; omega) h rfl
              obtain ⟨x, hx⟩ := Option.isSome_iff_exists.1 hsimple
              exact ⟨_, .short hx hraw, rfl⟩
            · split at h
              · rename_i hu
                subst hu
                split at h
                · cases h
                · rename_i hunit
                  have hshorter := length_readUnit hunit
                  obtain ⟨raw, hraw, rfl⟩ := ih _ (by simp only [List.length_cons]; omega) h rfl
                  obtain ⟨ds, hds, rfl⟩ := readUnit_eq_ok.1 hunit
                  exact ⟨_, .unit hds hraw, by simp⟩
              · cases h
        · rename_i hslash
          split at h
          · cases h
          · rename_i hcontrol
            obtain ⟨raw, hraw, rfl⟩ := ih _ (by simp only [List.length_cons]; omega) h rfl
            exact ⟨_, .plain ⟨hcontrol, hquote, hslash⟩ hraw, rfl⟩

theorem skipText_eq_ok {bs rest : Bytes} :
    skipText bs = .ok rest ↔ ∃ raw, Quotable raw ∧ bs = raw ++ 0x22 :: rest := by
  constructor
  · exact quotable_of_skipText
  · intro h
    obtain ⟨raw, hraw, rfl⟩ := h
    exact skipText_quotable hraw rest

end EventPost.Json
