import EventPost.Proofs.Numeral.Decimal
import EventPost.Proofs.Yaml.Plain
import EventPost.Submission.Acknowledgment.Yaml

/-!
Values read from the items of a block: texts, numbers, lists of texts, and the members of a mapping
in their order.
-/

namespace EventPost.Yaml

open Numeral (decimal)

/-- Items of these kinds are read as `v`, whatever their marks. -/
def Takes {α : Type} (read : Items → Outcome α) (kinds : List Item) (v : α) : Prop :=
  ∀ its rest : Items, its.map (·.1) = kinds → read (its ++ rest) = .ok (v, rest)

theorem Takes.of_eq {α : Type} {read read' : Items → Outcome α} {kinds : List Item} {v : α}
    (h : Takes read' kinds v) (heq : ∀ its, read its = read' its) : Takes read kinds v :=
  fun its rest hits => (heq _).trans (h its rest hits)

theorem takes_once {α σ : Type} {key : String} {read : Items → Outcome α} {kinds : List Item}
    {v : α} (h : Takes read kinds v) (put : α → σ) :
    Takes (fun its => once key none (read its) put) kinds (put v) := by
  intro its rest hits
  have hread := h its rest hits
  simp only [once, hread]
  rfl

variable {d : Document} {path : Path} {s : Scalar}

def textItem (s : String) : Item := .scalar ⟨none, none, s.toList, styleOf s.toList⟩

theorem takes_text (expected s : String) : Takes (readText d expected path) [textItem s] s := by
  intro its rest h
  obtain ⟨⟨_, m⟩, rfl, rfl⟩ := List.map_eq_singleton_iff.1 h
  exact congrArg (fun s => Except.ok (s, rest)) String.ofList_toList

theorem takes_word {word : UInt64} (hstyle : s.style = .plain)
    (h : unsigned? Numeral.maxWord s.text = some word.toNat) :
    Takes (readWord d path) [.scalar s] word := by
  intro its rest hits
  obtain ⟨⟨_, m⟩, rfl, rfl⟩ := List.map_eq_singleton_iff.1 hits
  have hnext : d.next ([(.scalar s, m)] ++ rest) = .ok ⟨.scalar s, m, rest, rest⟩ := rfl
  rw [readWord, hnext]
  simp only [Scalar.spellsInteger, hstyle, h, decide_true, Bool.true_or, if_true,
    UInt64.ofNat_toNat]

theorem takes_choice {α : Type} {choices : List String} {ofName? : String → Option α} {v : α}
    (htag : s.tag = none) (h : ofName? (String.ofList s.text) = some v) :
    Takes (readChoice d choices ofName? path) [.scalar s] v := by
  intro its rest hits
  obtain ⟨⟨_, m⟩, rfl, rfl⟩ := List.map_eq_singleton_iff.1 hits
  have hnext : d.next ([(.scalar s, m)] ++ rest) = .ok ⟨.scalar s, m, rest, rest⟩ := rfl
  have hlocal : localTag? (Item.scalar s).tag? = none := by
    rw [Item.tag?, htag]
    rfl
  rw [readChoice, hnext]
  simp only [hlocal, h]
  rfl

section Members

variable {σ : Type} {step : σ → String → Path → Items → Outcome σ} {acc acc₁ acc' : σ}
  {value kinds : List Item}

def keyItem (key : String) : Item := .scalar ⟨none, none, key.toList, .plain⟩

/-- Members of these kinds, up to the end of their mapping, turn `acc` into `acc'`. -/
def Collects (d : Document) (path : Path) (step : σ → String → Path → Items → Outcome σ) (acc : σ)
    (kinds : List Item) (acc' : σ) : Prop :=
  ∀ (its rest : Items) (fuel : Nat), its.map (·.1) = kinds → its.length < fuel →
    foldMembers d path step fuel acc (its ++ rest) = .ok (acc', rest)

theorem collects_end : Collects d path step acc [.mappingEnd] acc := by
  intro its rest fuel h hfuel
  obtain ⟨⟨_, m⟩, rfl, rfl⟩ := List.map_eq_singleton_iff.1 h
  cases fuel with
  | zero => exact absurd hfuel (Nat.not_lt_zero _)
  | succ fuel => rfl

theorem collects_member {key : String} (hvalue : Takes (step acc key (path ++ [key])) value acc₁)
    (hmore : Collects d path step acc₁ kinds acc') :
    Collects d path step acc (keyItem key :: (value ++ kinds)) acc' := by
  intro its rest fuel h hfuel
  obtain ⟨⟨_, m⟩, its', rfl, rfl, hits'⟩ := List.map_eq_cons_iff.1 h
  obtain ⟨valueIts, moreIts, rfl, hvalueIts, hmoreIts⟩ := List.map_eq_append_iff.1 hits'
  cases fuel with
  | zero => exact absurd hfuel (Nat.not_lt_zero _)
  | succ fuel =>
    have hread := hvalue valueIts (moreIts ++ rest) hvalueIts
    have hrest := hmore moreIts rest fuel hmoreIts (by simp at hfuel; omega)
    have hkey : readText d "field identifier" path
        ((keyItem key, m) :: (valueIts ++ (moreIts ++ rest))) =
          .ok (key, valueIts ++ (moreIts ++ rest)) :=
      congrArg (fun k => Except.ok (k, _)) String.ofList_toList
    have hpath : pathKey ((keyItem key, m) :: (valueIts ++ (moreIts ++ rest))) = key :=
      String.ofList_toList
    rw [List.cons_append, List.append_assoc, foldMembers]
    · simp only [hkey, hpath, hread, hrest]
    · intro m' rest' heq
      cases heq

theorem takes_mapping (expected : String) (tag : Option Text.Bytes)
    (h : Collects d path step acc kinds acc') :
    Takes (readMapping d expected acc path step) (.mappingStart tag :: kinds) acc' := by
  intro its rest hits
  obtain ⟨⟨_, m⟩, inner, rfl, rfl, hinner⟩ := List.map_eq_cons_iff.1 hits
  have hnext : d.next ((.mappingStart tag, m) :: inner ++ rest) =
      .ok ⟨.mappingStart tag, m, inner ++ rest, inner ++ rest⟩ := rfl
  have hfold := h inner rest ((inner ++ rest).length + 1) hinner (by
    rw [List.length_append]
    omega)
  rw [readMapping, hnext]
  simp only [hfold, if_true]
  rfl

end Members

section Lists

theorem foldTexts_items {fuel : Nat} {its rest : Items} {m : Mark} {ss : List String}
    (h : its.map (·.1) = ss.map textItem) (hfuel : its.length < fuel) (acc : List String) :
    foldTexts d path fuel acc (its ++ (.sequenceEnd, m) :: rest) = .ok (acc.reverse ++ ss, rest) := by
  induction ss generalizing its fuel acc with
  | nil =>
    obtain rfl := List.map_eq_nil_iff.1 h
    cases fuel with
    | zero => exact absurd hfuel (Nat.not_lt_zero _)
    | succ fuel => simp [foldTexts]
  | cons s ss ih =>
    obtain ⟨⟨_, m'⟩, its, rfl, rfl, hits⟩ := List.map_eq_cons_iff.1 h
    cases fuel with
    | zero => exact absurd hfuel (Nat.not_lt_zero _)
    | succ fuel =>
      have htext : readText d "a string" path ((textItem s, m') :: (its ++ (.sequenceEnd, m) :: rest))
          = .ok (s, its ++ (.sequenceEnd, m) :: rest) :=
        takes_text "a string" s [(textItem s, m')] _ rfl
      rw [List.cons_append, foldTexts]
      · simp only [htext]
        rw [ih hits (Nat.lt_of_succ_lt_succ hfuel), List.reverse_cons, List.append_assoc]
        rfl
      · intro m'' rest' heq
        cases heq

theorem takes_texts (ss : List String) (tag : Option Text.Bytes) :
    Takes (readTexts d path) (.sequenceStart tag :: (ss.map textItem ++ [.sequenceEnd])) ss := by
  intro its rest hits
  obtain ⟨⟨_, m⟩, inner, rfl, rfl, hinner⟩ := List.map_eq_cons_iff.1 hits
  obtain ⟨texts, ends, rfl, htexts, hends⟩ := List.map_eq_append_iff.1 hinner
  obtain ⟨⟨_, m'⟩, rfl, rfl⟩ := List.map_eq_singleton_iff.1 hends
  have hnext : d.next ((.sequenceStart tag, m) :: (texts ++ [(.sequenceEnd, m')]) ++ rest) =
      .ok ⟨.sequenceStart tag, m, texts ++ [(.sequenceEnd, m')] ++ rest,
        texts ++ [(.sequenceEnd, m')] ++ rest⟩ := rfl
  have hfuel : texts.length < (texts ++ (.sequenceEnd, m') :: rest).length + 1 := by
    rw [List.length_append]
    omega
  have hfold := @foldTexts_items d path _ texts rest m' ss htexts hfuel []
  rw [readTexts, hnext, List.append_assoc, List.singleton_append]
  simp only [hfold, if_true]
  rfl

end Lists

theorem readDocument_of_takes {α : Type} {read : Document → Items → Outcome α} {text : String}
    {its : Items} {kinds : List Item} {v : α} (hload : load text.toList = ⟨⟨its, [], none⟩, false⟩)
    (hits : its.map (·.1) = kinds) (h : Takes (read ⟨its, [], none⟩) kinds v) :
    readDocument read text = .ok v := by
  have hread := h its [] hits
  rw [List.append_nil] at hread
  rw [readDocument, hload]
  simp only [hread]
  rfl

section Numbers

theorem ne_of_isDigit {c d : Char} (hc : c.isDigit = true) (hd : d.isDigit = false) : c ≠ d := by
  rintro rfl
  rw [hc] at hd
  cases hd

theorem isBlankOrBreak_of_isDigit {c : Char} (h : c.isDigit = true) :
    isBlankOrBreak c = false := by
  simp only [isBlankOrBreak, isGap, isBreak, Bool.or_eq_false_iff, beq_eq_false_iff_ne]
  exact ⟨⟨ne_of_isDigit h rfl, ne_of_isDigit h rfl⟩, ⟨⟨⟨ne_of_isDigit h rfl, ne_of_isDigit h rfl⟩,
    ne_of_isDigit h rfl⟩, ne_of_isDigit h rfl⟩, ne_of_isDigit h rfl⟩

theorem isShown_of_isDigit {c : Char} (h : c.isDigit = true) : isShown c = true := by
  simp only [Char.isDigit, Bool.and_eq_true, decide_eq_true_eq] at h
  have hrange : 0x30 ≤ c.toNat ∧ c.toNat ≤ 0x39 := ⟨h.1, h.2⟩
  simp only [isShown, Bool.or_eq_true, Bool.and_eq_true, beq_iff_eq, decide_eq_true_eq]
  omega

theorem isSpaceOrBreak_of_isDigit {c : Char} (h : c.isDigit = true) :
    isSpaceOrBreak c = false := by
  rw [← isBlankOrBreak_of_isShown (isShown_of_isDigit h)]
  exact isBlankOrBreak_of_isDigit h

section Digits

variable {cs : List Char} (h : ∀ c ∈ cs, c.isDigit = true)
include h

theorem hasPair_digits {p q : Char → Bool} (hp : ∀ d : Char, d.isDigit = true → p d = false) :
    hasPair p q (cs ++ ['\n']) = false :=
  hasPair_of_none (fun c hc => hp c (h c hc)) '\n'

theorem needsEscape_digits : needsEscape cs = false := by
  have hpair := hasPair_append_left (hasPair_digits (q := isBreak) h fun d hd =>
    beq_eq_false_iff_ne.2 (ne_of_isDigit (d := ' ') hd rfl))
  rw [needsEscape, hpair, Bool.or_false]
  exact List.any_eq_false.2 fun c hc => by simp [isShown_of_isDigit (h c hc)]

theorem hasIndicator_digits : hasIndicator cs = false := by
  have hopening : ∀ d ∈ openingIndicators, d.isDigit = false := forall_mem_of_all (by decide)
  have hhead : cs.head?.any openingIndicators.contains = false := by
    rw [Option.any_eq_false]
    intro c hc
    rw [← Bool.not_eq_true]
    intro hopen
    have hdigit := h c (List.mem_of_mem_head? hc)
    rw [hopening c (List.contains_iff_mem.1 hopen)] at hdigit
    cases hdigit
  have htake : ∀ d : Char, d.isDigit = false → (cs.take 3 == [d, d, d]) = false := by
    refine fun d hd => beq_eq_false_iff_ne.2 fun heq => ?_
    have hmem : d ∈ cs.take 3 := heq ▸ List.mem_cons_self
    exact ne_of_isDigit (h d (List.mem_of_mem_take hmem)) hd rfl
  have hsign : hasPair (fun c => c == '?' || c == '-') isBlankOrBreak
      ((cs ++ ['\n']).take 2) = false := by
    refine hasPair_take (hasPair_digits h fun d hd => ?_) 2
    rw [beq_eq_false_iff_ne.2 (ne_of_isDigit hd rfl), beq_eq_false_iff_ne.2 (ne_of_isDigit hd rfl)]
    rfl
  rw [hasIndicator, htake '-' rfl, htake '.' rfl, hhead, hsign,
    hasPair_digits h fun d hd => beq_eq_false_iff_ne.2 (ne_of_isDigit hd rfl),
    hasPair_append_left (hasPair_digits h fun d hd => isBlankOrBreak_of_isDigit hd)]
  rfl

theorem plainAllowed_digits : plainAllowed cs = true := by
  have hline : isMultiline cs = false := List.any_eq_false.2 fun c hc => by
    simp [(isBlankOrBreak_eq_false.1 (isBlankOrBreak_of_isDigit (h c hc))).2]
  have hfirst : cs.head?.any isSpaceOrBreak = false := by
    rw [Option.any_eq_false]
    intro c hc
    simp [isSpaceOrBreak_of_isDigit (h c (List.mem_of_mem_head? hc))]
  have hlast : cs.getLast?.any isSpaceOrBreak = false := by
    rw [Option.any_eq_false]
    intro c hc
    simp [isSpaceOrBreak_of_isDigit (h c (List.mem_of_mem_getLast? hc))]
  rw [plainAllowed, hfirst, hlast, hline, needsEscape_digits h, hasIndicator_digits h]
  rfl

end Digits

theorem plainAllowed_decimal (n : Nat) : plainAllowed (decimal n) = true :=
  plainAllowed_digits fun _ => Numeral.isDigit_of_mem_decimal

theorem unsigned?_decimal {limit n : Nat} (h : n ≤ limit) : unsigned? limit (decimal n) = some n := by
  have hread := Numeral.readUnsigned_decimal limit n
  rw [if_pos h] at hread
  by_cases hn : n = 0
  · subst hn
    have hzero : decimal 0 = ['0'] := rfl
    have hbased : basedDigits? ['0'] = none := rfl
    have hsigned : startsSigned ['0'] = false := rfl
    have hlead : hasLeadingZero ['0'] = false := rfl
    rw [hzero] at hread ⊢
    simp [unsigned?, hbased, hsigned, hlead, hread, Except.toOption]
  · obtain ⟨c, cs, hcs, hc⟩ := Numeral.decimal_eq_cons (Nat.pos_of_ne_zero hn)
    have hdigit : c.isDigit = true := Numeral.isDigit_of_mem_decimal (n := n)
      (hcs ▸ List.mem_cons_self)
    have hplus : c ≠ '+' := by
      rintro rfl
      cases hdigit
    have hminus : c ≠ '-' := by
      rintro rfl
      cases hdigit
    have hbased : basedDigits? (c :: cs) = none := by
      simp [basedDigits?, bases, after?, Ne.symm hc]
    have hsigned : startsSigned (c :: cs) = false := by
      simp [startsSigned, isSign, hplus, hminus]
    have hzero : hasLeadingZero (c :: cs) = false := by
      simp [hasLeadingZero, hsigned, hc]
    rw [hcs] at hread ⊢
    simp [unsigned?, hplus, hbased, hsigned, hzero, hread, Except.toOption]

end Numbers

end EventPost.Yaml
