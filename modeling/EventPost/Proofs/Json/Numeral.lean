import EventPost.Proofs.Json.Grammar

/-!
Numbers are read as they are formed: a sign, the digits of a whole number, a fraction and an
exponent. What a number is read as does not depend on what follows it, as long as that does not go
on with it.
-/

namespace EventPost.Json

open Text (Bytes)
open Numeral (Binary64)

def Undigit (rest : Bytes) : Prop := ∀ b ∈ rest.head?, isDigit b = false

theorem Stops.undigit {rest : Bytes} (h : Stops rest) : Undigit rest := fun b hb => (h b hb).1

theorem undigit_cons {b : UInt8} (h : isDigit b = false) (rest : Bytes) : Undigit (b :: rest) := by
  intro b' hb
  obtain rfl : b = b' := Option.some.inj hb
  exact h

theorem undigit_dropWhile (bs : Bytes) : Undigit (bs.dropWhile isDigit) := by
  intro b hb
  have hhead := List.head?_dropWhile_not isDigit bs
  rw [Option.mem_def.1 hb] at hhead
  exact hhead

theorem takeWhile_digits {ds rest : Bytes} (h : ∀ b ∈ ds, isDigit b = true) (hr : Undigit rest) :
    (ds ++ rest).takeWhile isDigit = ds ∧ (ds ++ rest).dropWhile isDigit = rest := by
  rw [List.takeWhile_append_of_pos h, List.dropWhile_append_of_pos h]
  cases rest with
  | nil => exact ⟨List.append_nil ds, rfl⟩
  | cons b rest =>
    have hb : ¬isDigit b = true := by rw [hr b rfl]; exact Bool.false_ne_true
    rw [List.takeWhile_cons_of_neg hb, List.dropWhile_cons_of_neg hb]
    exact ⟨List.append_nil ds, rfl⟩

theorem exists_digits {b : UInt8} (h : isDigit b = true) (r : Bytes) :
    Digits (b :: r.takeWhile isDigit) ∧
      b :: r = b :: r.takeWhile isDigit ++ r.dropWhile isDigit := by
  refine ⟨⟨List.cons_ne_nil _ _, ?_⟩, ?_⟩
  · intro d hd
    rcases List.mem_cons.1 hd with rfl | hd
    · exact h
    · exact List.mem_takeWhile_imp hd
  · rw [List.cons_append, List.takeWhile_append_dropWhile]

theorem undigit_mark {mark : UInt8} (h : isExponentMark mark = true) (rest : Bytes) :
    Undigit (mark :: rest) := by
  refine undigit_cons ?_ rest
  simp only [isExponentMark, Bool.or_eq_true, beq_iff_eq] at h
  rcases h with rfl | rfl <;> decide

theorem Exponent.undigit {bs : Bytes} (h : Exponent bs) (rest : Bytes) : Undigit (bs ++ rest) := by
  obtain ⟨mark, sign, ds, hmark, -, -, rfl⟩ := h
  exact undigit_mark hmark _

theorem ne_point {b : UInt8} (h : isExponentMark b = true) : b ≠ 0x2e := by
  rintro rfl
  exact absurd h (by decide)

theorem undigit_exponent {bs rest : Bytes} (h : bs = [] ∨ Exponent bs) (hr : Stops rest) :
    Undigit (bs ++ rest) := by
  rcases h with rfl | h
  · exact hr.undigit
  · exact h.undigit rest

theorem Scaling.undigit {bs rest : Bytes} (h : Scaling bs) (hr : Stops rest) :
    Undigit (bs ++ rest) := by
  cases h with
  | none => exact hr.undigit
  | exponent he => exact he.undigit rest
  | fraction => exact undigit_cons (by decide) _

theorem exists_digit {ds : Bytes} (h : Digits ds) : ∃ d ds', ds = d :: ds' ∧ isDigit d = true ∧
    ¬(d = 0x2b ∨ d = 0x2d) ∧ ∀ b ∈ ds', isDigit b = true := by
  obtain ⟨hne, hall⟩ := h
  obtain ⟨d, ds', rfl⟩ := List.exists_cons_of_ne_nil hne
  have hdigit := hall d List.mem_cons_self
  refine ⟨d, ds', rfl, hdigit, ?_, fun b hb => hall b (List.mem_cons_of_mem d hb)⟩
  rintro (rfl | rfl) <;> exact absurd hdigit (by decide)

theorem skipExponent_digits {sign ds rest : Bytes} (hs : sign ∈ [[], [0x2b], [0x2d]])
    (hd : Digits ds) (hr : Undigit rest) : skipExponent (sign ++ (ds ++ rest)) = .ok rest := by
  obtain ⟨d, ds, rfl, hdigit, hsign, hall⟩ := exists_digit hd
  have hdrop := (takeWhile_digits hall hr).2
  simp only [List.mem_cons, List.not_mem_nil, or_false] at hs
  rcases hs with rfl | rfl | rfl <;> simp [skipExponent, hsign, hdigit, hdrop]

theorem digits_of_passed {b : UInt8} {r rest : Bytes} (h : (if isDigit b then
      .ok (r.dropWhile isDigit) else fail .invalidNumber r) = Except.ok rest) :
    ∃ ds, Digits ds ∧ b :: r = ds ++ rest := by
  split at h
  · rename_i hdigit
    obtain rfl := Except.ok.inj h
    exact ⟨_, exists_digits hdigit r⟩
  · cases h

theorem digits_of_skipExponent {bs rest : Bytes} (h : skipExponent bs = .ok rest) :
    ∃ sign ds, sign ∈ [[], [0x2b], [0x2d]] ∧ Digits ds ∧ bs = sign ++ (ds ++ rest) := by
  cases bs with
  | nil => cases h
  | cons b r =>
    by_cases hsign : b = 0x2b ∨ b = 0x2d
    · simp only [skipExponent, if_pos hsign] at h
      cases r with
      | nil => cases h
      | cons d r =>
        obtain ⟨ds, hds, hbytes⟩ := digits_of_passed h
        refine ⟨[b], ds, ?_, hds, by rw [hbytes]; rfl⟩
        rcases hsign with rfl | rfl <;> simp
    · simp only [skipExponent, if_neg hsign] at h
      obtain ⟨ds, hds, hbytes⟩ := digits_of_passed h
      exact ⟨[], ds, List.mem_cons_self, hds, hbytes⟩

theorem skipAfterWhole_scaling {s rest : Bytes} (h : Scaling s) (hr : Stops rest) :
    skipAfterWhole (s ++ rest) = .ok rest := by
  cases h with
  | none =>
    cases rest with
    | nil => rfl
    | cons b rest =>
      obtain ⟨-, hpoint, hmark⟩ := hr b rfl
      simp [skipAfterWhole, hpoint, hmark]
  | exponent he =>
    obtain ⟨mark, sign, ds, hmark, hs, hd, rfl⟩ := he
    simp [skipAfterWhole, ne_point hmark, hmark, skipExponent_digits hs hd hr.undigit]
  | @fraction ds bs hd he =>
    obtain ⟨htake, hdrop⟩ := takeWhile_digits hd.2 (undigit_exponent he hr)
    have hne : ds.isEmpty = false := List.isEmpty_eq_false_iff.2 hd.1
    simp only [skipAfterWhole, List.cons_append, List.append_assoc, if_true, htake, hdrop, hne,
      Bool.false_eq_true, if_false]
    rcases he with rfl | he
    · cases rest with
      | nil => rfl
      | cons b rest => simp [(hr b rfl).2.2]
    · obtain ⟨mark, sign, ds, hmark, hs, hd, rfl⟩ := he
      simp [hmark, skipExponent_digits hs hd hr.undigit]

theorem scaling_of_point {r bs rest : Bytes} (hne : ¬(r.takeWhile isDigit).isEmpty = true)
    (hbs : bs = [] ∨ Exponent bs) (htail : r.dropWhile isDigit = bs ++ rest) :
    ∃ s, Scaling s ∧ 0x2e :: r = s ++ rest := by
  have hd : Digits (r.takeWhile isDigit) :=
    ⟨fun hnil => hne (List.isEmpty_iff.2 hnil), fun _ hb => List.mem_takeWhile_imp hb⟩
  refine ⟨_, .fraction hd hbs, ?_⟩
  rw [List.cons_append, List.append_assoc, ← htail, List.takeWhile_append_dropWhile]

theorem scaling_of_skipAfterWhole {bs rest : Bytes} (h : skipAfterWhole bs = .ok rest) :
    ∃ s, Scaling s ∧ bs = s ++ rest := by
  have hexponent : ∀ {e : UInt8} {r : Bytes}, isExponentMark e = true → skipExponent r = .ok rest →
      ∃ bs, Exponent bs ∧ e :: r = bs ++ rest := by
    intro e r he h
    obtain ⟨sign, ds, hs, hd, rfl⟩ := digits_of_skipExponent h
    exact ⟨_, ⟨e, sign, ds, he, hs, hd, rfl⟩, by simp⟩
  unfold skipAfterWhole at h
  split at h
  · obtain rfl := Except.ok.inj h
    exact ⟨[], .none, rfl⟩
  · split at h
    · rename_i hpoint
      subst hpoint
      split at h
      · cases h
      · rename_i hne
        simp only at h
        split at h
        · rename_i hdrop
          split at h
          · rename_i he
            obtain ⟨bs, hbs, htail⟩ := hexponent he h
            exact scaling_of_point hne (.inr hbs) (hdrop.trans htail)
          · obtain rfl := Except.ok.inj h
            exact scaling_of_point hne (.inl rfl) rfl
        · rename_i hdrop
          obtain rfl := Except.ok.inj h
          exact scaling_of_point hne (.inl rfl) hdrop
    · split at h
      · rename_i he
        obtain ⟨bs, hbs, htail⟩ := hexponent he h
        exact ⟨bs, .exponent hbs, htail⟩
      · obtain rfl := Except.ok.inj h
        exact ⟨[], .none, rfl⟩

theorem takeExponent_rest (acc : Nat) (bs : Bytes) :
    (takeExponent acc bs).2.dropWhile isDigit = bs.dropWhile isDigit ∧
      ((takeExponent acc bs).1 ≠ none → (takeExponent acc bs).2 = bs.dropWhile isDigit) := by
  fun_induction takeExponent acc bs with
  | case1 => simp
  | case2 acc b bs hb _ ih => simpa [hb] using ih
  | case3 acc b bs hb => simp [hb]
  | case4 acc b bs hb => simp [hb]

theorem takeExponent_append {ds rest : Bytes} (h : ∀ b ∈ ds, isDigit b = true) (hr : Undigit rest)
    (acc : Nat) : takeExponent acc (ds ++ rest) =
      ((takeExponent acc ds).1, (takeExponent acc ds).2 ++ rest) := by
  induction ds generalizing acc with
  | nil =>
    cases rest with
    | nil => rfl
    | cons b rest => simp [takeExponent, hr b rfl]
  | cons d ds ih =>
    have hd := h d List.mem_cons_self
    simp only [List.cons_append, takeExponent, hd, if_true]
    split
    · exact ih (fun b hb => h b (List.mem_cons_of_mem d hb)) _
    · rfl

theorem ok_of_scaledNumber {negative : Bool} {n : Nat} {e : Int} {bs rest : Bytes} {x : Number}
    (h : scaledNumber negative n e bs = .ok (x, rest)) : (∃ v, x = .real v) ∧ bs = rest := by
  unfold scaledNumber at h
  split at h
  · obtain ⟨rfl, rfl⟩ := Prod.mk.inj (Except.ok.inj h)
    exact ⟨⟨_, rfl⟩, rfl⟩
  · cases h

theorem ok_of_readExponent {negative : Bool} {n : Nat} {e : Int} {bs rest : Bytes} {x : Number}
    (h : readExponent negative n e bs = .ok (x, rest)) : (∃ v, x = .real v) ∧
      ∃ sign ds, sign ∈ [[], [0x2b], [0x2d]] ∧ Digits ds ∧ bs = sign ++ (ds ++ rest) := by
  unfold readExponent at h
  split at h
  rename_i up r hsign
  split at h
  · cases h
  · rename_i d r
    split at h
    · rename_i hdigit
      have hbytes : ∃ sign, sign ∈ [[], [0x2b], [0x2d]] ∧ bs = sign ++ d :: r := by
        split at hsign <;> obtain ⟨-, rfl⟩ := Prod.mk.inj hsign
        · exact ⟨[0x2b], by simp, rfl⟩
        · exact ⟨[0x2d], by simp, rfl⟩
        · exact ⟨[], by simp, rfl⟩
      obtain ⟨sign, hs, rfl⟩ := hbytes
      obtain ⟨hdigits, hr⟩ := exists_digits hdigit r
      obtain ⟨hdrop, hall⟩ := takeExponent_rest (digitOf d) r
      have hend : (∃ v, x = .real v) ∧ r.dropWhile isDigit = rest := by
        split at h
        · rename_i htake
          rw [htake] at hall
          obtain ⟨hx, rfl⟩ := ok_of_scaledNumber h
          exact ⟨hx, (hall (Option.some_ne_none _)).symm⟩
        · rename_i htake
          rw [htake] at hdrop
          split at h
          · cases h
          · obtain ⟨rfl, rfl⟩ := Prod.mk.inj (Except.ok.inj h)
            exact ⟨⟨_, rfl⟩, hdrop.symm⟩
      refine ⟨hend.1, sign, _, hs, hdigits, ?_⟩
      rw [← hend.2, ← hr]
    · cases h

theorem ok_of_readFraction {negative : Bool} {n : Nat} {e : Int} {bs rest : Bytes} {x : Number}
    (h : readFraction negative n e bs = .ok (x, rest)) : (∃ v, x = .real v) ∧
      ∃ s, Scaling s ∧ 0x2e :: bs = s ++ rest := by
  unfold readFraction at h
  simp only at h
  split at h
  · split at h <;> cases h
  · rename_i hne
    split at h
    · rename_i b r hdrop
      split at h
      · rename_i hmark
        obtain ⟨hx, sign, ds, hs, hd, rfl⟩ := ok_of_readExponent h
        refine ⟨hx, scaling_of_point hne (.inr ⟨b, sign, ds, hmark, hs, hd, rfl⟩) ?_⟩
        rw [hdrop]
        simp
      · obtain ⟨hx, rfl⟩ := ok_of_scaledNumber h
        exact ⟨hx, scaling_of_point hne (.inl rfl) rfl⟩
    · rename_i hdrop
      obtain ⟨hx, rfl⟩ := ok_of_scaledNumber h
      exact ⟨hx, scaling_of_point hne (.inl rfl) hdrop⟩

theorem ok_of_plain {negative : Bool} {n dropped : Nat} {bs rest : Bytes} {x : Number}
    (h : (if dropped = 0 then
        match wholeNumber negative n with
        | some x => .ok (x, bs)
        | none => fail .numberOutOfRange bs
      else scaledNumber negative n dropped bs) = .ok (x, rest)) :
    bs = rest ∧ ((∃ v, x = .real v) ∨ dropped = 0 ∧ wholeNumber negative n = some x) := by
  split at h
  · rename_i hfits
    split at h
    · rename_i hx
      obtain ⟨rfl, rfl⟩ := Prod.mk.inj (Except.ok.inj h)
      exact ⟨rfl, .inr ⟨hfits, hx⟩⟩
    · cases h
  · obtain ⟨hx, rfl⟩ := ok_of_scaledNumber h
    exact ⟨rfl, .inl hx⟩

theorem ok_of_readAfterWhole {negative : Bool} {digits bs rest : Bytes} {x : Number}
    (h : readAfterWhole negative digits bs = .ok (x, rest)) :
    ∃ s, Scaling s ∧ bs = s ++ rest ∧ ((∃ v, x = .real v) ∨ s = [] ∧
      (takeWhole 0 digits).2 = 0 ∧ wholeNumber negative (takeWhole 0 digits).1 = some x) := by
  unfold readAfterWhole at h
  simp only at h
  split at h
  · rename_i b r
    split at h
    · rename_i hpoint
      obtain ⟨hx, s, hs, hr⟩ := ok_of_readFraction h
      exact ⟨s, hs, hpoint ▸ hr, .inl hx⟩
    · split at h
      · rename_i hmark
        obtain ⟨hx, sign, ds, hsign, hd, rfl⟩ := ok_of_readExponent h
        exact ⟨_, .exponent ⟨b, sign, ds, hmark, hsign, hd, rfl⟩, by simp, .inl hx⟩
      · obtain ⟨rfl, hx⟩ := ok_of_plain h
        exact ⟨[], .none, rfl, hx.imp_right fun hx => ⟨rfl, hx⟩⟩
  · obtain ⟨rfl, hx⟩ := ok_of_plain h
    exact ⟨[], .none, rfl, hx.imp_right fun hx => ⟨rfl, hx⟩⟩

/-- Whether the text is read, and as what, does not depend on what follows it. -/
def Steady (read : Bytes → Reading Number) (text : Bytes) : Prop :=
  ∃ o : Option Number, ∀ rest, Stops rest →
    (read (text ++ rest)).toOption = o.map fun x => (x, rest)

theorem scaledNumber_steady (negative : Bool) (n : Nat) (e : Int) :
    ∃ o : Option Number, ∀ rest,
      (scaledNumber negative n e rest).toOption = o.map fun x => (x, rest) := by
  unfold scaledNumber
  cases (Binary64.ofNat? n).bind (·.scaleTen e) with
  | none => exact ⟨none, fun _ => rfl⟩
  | some x => exact ⟨some (.real (if negative then x.negate else x)), fun _ => rfl⟩

def readScale (negative up : Bool) (n : Nat) (e : Int) (d : UInt8) (r : Bytes) : Reading Number :=
  match takeExponent (digitOf d) r with
  | (some k, rest) => scaledNumber negative n (if up then e + k else e - k) rest
  | (none, rest) =>
    if n ≠ 0 ∧ up then fail .numberOutOfRange rest
    else .ok (.real (Binary64.zero negative), rest.dropWhile isDigit)

theorem readExponent_signed {sign : Bytes} {d : UInt8} (hs : sign ∈ [[], [0x2b], [0x2d]])
    (hdigit : isDigit d = true) (hsign : ¬(d = 0x2b ∨ d = 0x2d)) (negative : Bool) (n : Nat)
    (e : Int) (r : Bytes) : readExponent negative n e (sign ++ d :: r) =
      readScale negative (sign ≠ [0x2d]) n e d r := by
  rw [not_or] at hsign
  simp only [List.mem_cons, List.not_mem_nil, or_false] at hs
  rcases hs with rfl | rfl | rfl
  · unfold readExponent
    split
    rename_i up bs hmatch
    split at hmatch
    · rename_i heq
      exact absurd (List.cons.inj heq).1 hsign.1
    · rename_i heq
      exact absurd (List.cons.inj heq).1 hsign.2
    · obtain ⟨rfl, rfl⟩ := Prod.mk.inj hmatch
      exact if_pos hdigit
  · exact if_pos hdigit
  · exact if_pos hdigit

theorem readExponent_steady {sign ds : Bytes} (hs : sign ∈ [[], [0x2b], [0x2d]]) (hd : Digits ds)
    (negative : Bool) (n : Nat) (e : Int) : Steady (readExponent negative n e) (sign ++ ds) := by
  obtain ⟨d, ds, rfl, hdigit, hsign, hall⟩ := exists_digit hd
  have hread := readExponent_signed hs hdigit hsign negative n e
  generalize decide (sign ≠ [0x2d]) = up at hread
  obtain ⟨-, hnil⟩ := takeExponent_rest (digitOf d) ds
  have hscale : ∀ rest, Stops rest → readExponent negative n e (sign ++ d :: ds ++ rest) =
      readScale negative up n e d (ds ++ rest) := by
    intro rest hr
    rw [List.append_assoc, List.cons_append, hread]
  have happend : ∀ rest, Stops rest → takeExponent (digitOf d) (ds ++ rest) = _ :=
    fun rest hr => takeExponent_append hall hr.undigit (digitOf d)
  cases htake : (takeExponent (digitOf d) ds).1 with
  | none =>
    -- An exponent past all bounds leaves digits unread, which are passed over.
    by_cases hrange : n ≠ 0 ∧ up = true
    · refine ⟨none, fun rest hr => ?_⟩
      rw [hscale rest hr, readScale, happend rest hr, htake]
      simp only [if_pos hrange]
      rfl
    · refine ⟨some (.real (Binary64.zero negative)), fun rest hr => ?_⟩
      have hdrop := (takeExponent_rest (digitOf d) (ds ++ rest)).1
      rw [happend rest hr, (takeWhile_digits hall hr.undigit).2] at hdrop
      rw [hscale rest hr, readScale, happend rest hr, htake]
      simp only [if_neg hrange, hdrop]
      rfl
  | some k =>
    rw [htake, List.dropWhile_eq_nil_iff.2 hall] at hnil
    obtain ⟨o, ho⟩ := scaledNumber_steady negative n (if up then e + k else e - k)
    refine ⟨o, fun rest hr => ?_⟩
    rw [hscale rest hr, readScale, happend rest hr, htake, hnil (Option.some_ne_none k), ← ho rest]
    rfl

theorem readFraction_exponent {ds : Bytes} (hd : Digits ds) {mark : UInt8}
    (hmark : isExponentMark mark = true) (negative : Bool) (n : Nat) (e : Int) (r : Bytes) :
    readFraction negative n e (ds ++ mark :: r) =
      readExponent negative (takeFraction n ds).1 (e - (takeFraction n ds).2) r := by
  have hne : ds.isEmpty = false := List.isEmpty_eq_false_iff.2 hd.1
  obtain ⟨htake, hdrop⟩ := takeWhile_digits hd.2 (undigit_mark hmark r)
  simp only [readFraction, htake, hdrop, hne, hmark, Bool.false_eq_true, if_false, if_true]

theorem readFraction_plain {ds rest : Bytes} (hd : Digits ds) (hr : Stops rest) (negative : Bool)
    (n : Nat) (e : Int) : readFraction negative n e (ds ++ rest) =
      scaledNumber negative (takeFraction n ds).1 (e - (takeFraction n ds).2) rest := by
  have hne : ds.isEmpty = false := List.isEmpty_eq_false_iff.2 hd.1
  obtain ⟨htake, hdrop⟩ := takeWhile_digits hd.2 hr.undigit
  cases rest with
  | nil => simp only [readFraction, htake, hdrop, hne, Bool.false_eq_true, if_false]
  | cons b rest =>
    simp only [readFraction, htake, hdrop, hne, (hr b rfl).2.2, Bool.false_eq_true, if_false]

theorem readFraction_steady {ds bs : Bytes} (hd : Digits ds) (he : bs = [] ∨ Exponent bs)
    (negative : Bool) (n : Nat) (e : Int) : Steady (readFraction negative n e) (ds ++ bs) := by
  rcases he with rfl | he
  · obtain ⟨o, ho⟩ := scaledNumber_steady negative (takeFraction n ds).1 (e - (takeFraction n ds).2)
    refine ⟨o, fun rest hr => ?_⟩
    rw [List.append_nil, readFraction_plain hd hr, ho rest]
  · obtain ⟨mark, sign, ds', hmark, hs, hd', rfl⟩ := he
    obtain ⟨o, ho⟩ := readExponent_steady hs hd' negative (takeFraction n ds).1
      (e - (takeFraction n ds).2)
    refine ⟨o, fun rest hr => ?_⟩
    rw [List.append_assoc, List.cons_append, readFraction_exponent hd hmark, ho rest hr]

theorem plain_steady (negative : Bool) (n dropped : Nat) :
    ∃ o : Option Number, ∀ rest : Bytes, (if dropped = 0 then
        match wholeNumber negative n with
        | some x => .ok (x, rest)
        | none => fail .numberOutOfRange rest
      else scaledNumber negative n dropped rest).toOption = o.map fun x => (x, rest) := by
  split
  · cases wholeNumber negative n with
    | none => exact ⟨none, fun _ => rfl⟩
    | some x => exact ⟨some x, fun _ => rfl⟩
  · exact scaledNumber_steady _ _ _

theorem readAfterWhole_steady {s : Bytes} (hs : Scaling s) (negative : Bool) (digits : Bytes) :
    Steady (readAfterWhole negative digits) s := by
  cases hs with
  | none =>
    obtain ⟨o, ho⟩ := plain_steady negative (takeWhole 0 digits).1 (takeWhole 0 digits).2
    refine ⟨o, fun rest hr => ?_⟩
    rw [← ho rest]
    cases rest with
    | nil => rfl
    | cons b rest =>
      obtain ⟨-, hpoint, hmark⟩ := hr b rfl
      have hnone : ¬isExponentMark b = true := by rw [hmark]; exact Bool.false_ne_true
      exact congrArg Except.toOption ((if_neg hpoint).trans (if_neg hnone))
  | exponent he =>
    obtain ⟨mark, sign, ds, hmark, hsign, hd, rfl⟩ := he
    obtain ⟨o, ho⟩ := readExponent_steady hsign hd negative (takeWhole 0 digits).1
      (takeWhole 0 digits).2
    refine ⟨o, fun rest hr => ?_⟩
    rw [← ho rest hr]
    simp [readAfterWhole, ne_point hmark, hmark]
  | fraction hd he =>
    obtain ⟨o, ho⟩ := readFraction_steady hd he negative (takeWhole 0 digits).1
      (takeWhole 0 digits).2
    refine ⟨o, fun rest hr => ?_⟩
    rw [← ho rest hr]
    simp [readAfterWhole]

theorem isDigit_zero : isDigit 0x30 = true := by decide

theorem readNumber_whole {ds rest : Bytes} (hw : Whole ds) (hr : Undigit rest) (negative : Bool) :
    readNumber negative (ds ++ rest) = readAfterWhole negative ds rest ∧
      skipNumber (ds ++ rest) = skipAfterWhole rest := by
  obtain ⟨hd, hzero⟩ := hw
  obtain ⟨d, tail, rfl, hdigit, -, hall⟩ := exists_digit hd
  by_cases hd : d = 0x30
  · subst hd
    obtain rfl : tail = [] := (List.cons.inj (hzero rfl)).2
    cases rest with
    | nil => exact ⟨rfl, rfl⟩
    | cons b rest =>
      have hb := hr b rfl
      constructor
      · simp [readNumber, hb]
      · simp [skipNumber, hb]
  · obtain ⟨htake, hdrop⟩ := takeWhile_digits hall hr
    constructor
    · rw [List.cons_append, readNumber.eq_def]
      simp only [if_neg hd, hdigit, if_true, htake, hdrop]
    · rw [List.cons_append, skipNumber.eq_def]
      simp only [if_neg hd, hdigit, if_true, hdrop]

theorem exists_whole {b : UInt8} {r : Bytes} (h : isDigit b = true) (hz : b = 0x30 → Undigit r) :
    ∃ ds rest, Whole ds ∧ Undigit rest ∧ b :: r = ds ++ rest := by
  by_cases hb : b = 0x30
  · subst hb
    exact ⟨[0x30], r, ⟨⟨by simp, by simpa using isDigit_zero⟩, fun _ => rfl⟩, hz rfl, rfl⟩
  · obtain ⟨hd, hr⟩ := exists_digits h r
    refine ⟨_, _, ⟨hd, fun hhead => absurd (Option.some.inj hhead) hb⟩, undigit_dropWhile r, hr⟩

theorem whole_cases (bs : Bytes) : (∃ ds rest, Whole ds ∧ Undigit rest ∧ bs = ds ++ rest) ∨
    (∀ negative r, readNumber negative bs ≠ .ok r) ∧ ∀ r, skipNumber bs ≠ .ok r := by
  cases bs with
  | nil => exact .inr ⟨fun _ _ => nofun, fun _ => nofun⟩
  | cons b r =>
    by_cases hdigit : isDigit b = true
    · by_cases hzero : b = 0x30 → Undigit r
      · exact .inl (exists_whole hdigit hzero)
      · right
        obtain ⟨rfl, hr⟩ := Classical.not_imp.1 hzero
        obtain ⟨d, himp⟩ := not_forall.1 hr
        obtain ⟨hhead, hd⟩ := Classical.not_imp.1 himp
        obtain ⟨r, rfl⟩ := List.head?_eq_some_iff.1 hhead
        simp [readNumber, skipNumber, Bool.of_not_eq_false hd, failAt]
    · have hzero : b ≠ 0x30 := fun h => hdigit (h ▸ isDigit_zero)
      right
      simp [readNumber, skipNumber, hzero, hdigit, fail]

theorem parts_of_skipNumber {bs rest : Bytes} (h : skipNumber bs = .ok rest) :
    ∃ ds s, Whole ds ∧ Scaling s ∧ bs = ds ++ s ++ rest := by
  obtain ⟨ds, tail, hw, ht, rfl⟩ := (whole_cases bs).resolve_right fun hnone => hnone.2 _ h
  rw [(readNumber_whole hw ht true).2] at h
  obtain ⟨s, hs, rfl⟩ := scaling_of_skipAfterWhole h
  exact ⟨ds, s, hw, hs, (List.append_assoc ..).symm⟩

theorem skipNumber_parts {ds s rest : Bytes} (hw : Whole ds) (hs : Scaling s) (hr : Stops rest) :
    skipNumber (ds ++ s ++ rest) = .ok rest := by
  rw [List.append_assoc, (readNumber_whole hw (hs.undigit hr) true).2, skipAfterWhole_scaling hs hr]

theorem toOption_eq_some {ε α : Type} {x : Except ε α} {a : α} :
    x.toOption = some a ↔ x = .ok a := by
  cases x <;> simp [Except.toOption]

def ReadAs (text : Bytes) (n : Number) : Prop :=
  IsNumber text ∧ ∃ b bs, text = b :: bs ∧ readNumeral b bs = .ok (n, [])

theorem readNumeral_parts {sign ds s : Bytes} (hsign : sign ∈ [[], [0x2d]]) (hw : Whole ds)
    (hs : Scaling s) : ∃ b bs, sign ++ (ds ++ s) = b :: bs ∧ startsNumber b = true ∧
      ∀ rest, Stops rest →
        readNumeral b (bs ++ rest) = readAfterWhole (!sign.isEmpty) ds (s ++ rest) := by
  obtain ⟨d, tail, rfl, hdigit, hne, -⟩ := exists_digit hw.1
  simp only [List.mem_cons, List.not_mem_nil, or_false] at hsign
  rcases hsign with rfl | rfl
  · refine ⟨d, tail ++ s, rfl, by simp [startsNumber, hdigit], fun rest hr => ?_⟩
    rw [readNumeral, if_neg fun hd => hne (.inr hd), List.append_assoc]
    exact (readNumber_whole hw (hs.undigit hr) false).1
  · refine ⟨0x2d, d :: tail ++ s, rfl, rfl, fun rest hr => ?_⟩
    rw [readNumeral, if_pos rfl, List.append_assoc]
    exact (readNumber_whole hw (hs.undigit hr) true).1

theorem IsNumber.steady {text : Bytes} (h : IsNumber text) :
    ∃ b bs, text = b :: bs ∧ startsNumber b = true ∧ Steady (readNumeral b) bs := by
  obtain ⟨sign, ds, s, hsign, hw, hs, rfl⟩ := h
  obtain ⟨b, bs, hbytes, hb, hread⟩ := readNumeral_parts hsign hw hs
  obtain ⟨o, ho⟩ := readAfterWhole_steady hs (!sign.isEmpty) ds
  exact ⟨b, bs, hbytes, hb, o, fun rest hr => by rw [hread rest hr, ho rest hr]⟩

theorem parts_of_readNumeral {b : UInt8} {r rest : Bytes} {n : Number}
    (h : readNumeral b r = .ok (n, rest)) : ∃ sign ds s, sign ∈ [[], [0x2d]] ∧ Whole ds ∧
      Scaling s ∧ b :: r = sign ++ (ds ++ s) ++ rest ∧ ((∃ v, n = .real v) ∨ s = [] ∧
        (takeWhole 0 ds).2 = 0 ∧ wholeNumber (!sign.isEmpty) (takeWhole 0 ds).1 = some n) := by
  have hparts : ∀ {negative : Bool} {bs : Bytes}, readNumber negative bs = .ok (n, rest) →
      ∃ ds s, Whole ds ∧ Scaling s ∧ bs = ds ++ s ++ rest ∧ ((∃ v, n = .real v) ∨ s = [] ∧
        (takeWhole 0 ds).2 = 0 ∧ wholeNumber negative (takeWhole 0 ds).1 = some n) := by
    intro negative bs h
    obtain ⟨ds, tail, hw, ht, rfl⟩ := (whole_cases bs).resolve_right fun hnone => hnone.1 _ _ h
    rw [(readNumber_whole hw ht negative).1] at h
    obtain ⟨s, hs, rfl, hn⟩ := ok_of_readAfterWhole h
    exact ⟨ds, s, hw, hs, (List.append_assoc ..).symm, hn⟩
  unfold readNumeral at h
  split at h
  · rename_i hb
    obtain ⟨ds, s, hw, hs, rfl, hn⟩ := hparts h
    exact ⟨[0x2d], ds, s, by simp, hw, hs, by simp [hb], hn⟩
  · obtain ⟨ds, s, hw, hs, hbytes, hn⟩ := hparts h
    exact ⟨[], ds, s, by simp, hw, hs, hbytes, hn⟩

theorem readNumeral_iff_readAs {b : UInt8} {r rest : Bytes} {n : Number} (hr : Stops rest) :
    readNumeral b r = .ok (n, rest) ↔ ∃ bs, ReadAs (b :: bs) n ∧ r = bs ++ rest := by
  constructor
  · intro h
    obtain ⟨sign, ds, s, hsign, hw, hs, hbytes, -⟩ := parts_of_readNumeral h
    have hnumber : IsNumber (sign ++ (ds ++ s)) := ⟨sign, ds, s, hsign, hw, hs, rfl⟩
    obtain ⟨b', bs, htext, -, o, ho⟩ := hnumber.steady
    rw [htext] at hnumber
    rw [htext, List.cons_append] at hbytes
    obtain ⟨rfl, rfl⟩ := List.cons.inj hbytes
    have hn := ho rest hr
    rw [toOption_eq_some.2 h] at hn
    obtain ⟨x, rfl, hx⟩ := Option.map_eq_some_iff.1 hn.symm
    obtain rfl := (Prod.mk.inj hx).1
    have hnil := toOption_eq_some.1 (ho [] stops_nil)
    rw [List.append_nil] at hnil
    exact ⟨bs, ⟨hnumber, b, bs, rfl, hnil⟩, rfl⟩
  · intro h
    obtain ⟨bs, ⟨hnumber, b', bs', htext, hread⟩, rfl⟩ := h
    obtain ⟨b'', bs'', htext', -, o, ho⟩ := hnumber.steady
    obtain ⟨rfl, rfl⟩ := List.cons.inj htext
    obtain ⟨rfl, rfl⟩ := List.cons.inj htext'
    have hn := ho [] stops_nil
    rw [List.append_nil, toOption_eq_some.2 hread] at hn
    obtain ⟨x, rfl, hx⟩ := Option.map_eq_some_iff.1 hn.symm
    obtain rfl := (Prod.mk.inj hx).1
    exact toOption_eq_some.1 (ho rest hr)

end EventPost.Json
