import EventPost.Proofs.Yaml.Block
import EventPost.Proofs.Yaml.Plain
import EventPost.Proofs.Yaml.Quoted
import EventPost.Yaml.Token

/-!
Scalars read back, in whatever style they are written. The first character tells the scanner the
style; each style then gives back its text, and the scanner stands before the next line.
-/

namespace EventPost.Yaml

variable {indent k : Nat} {cs body : List Char}

/-- How a scalar is written in a style, up to the end of its last line. -/
inductive ScalarLine (indent : Nat) (cs : List Char) : ScalarStyle → List Char → Prop
  | plain : plainAllowed cs = true → cs ≠ [] → ScalarLine indent cs .plain (cs ++ ['\n'])
  | single : singleAllowed cs = true → '\n' ∉ cs → ScalarLine indent cs .singleQuoted
    ('\'' :: singleBody indent false cs ++ ['\'', '\n'])
  | double : ScalarLine indent cs .doubleQuoted ('"' :: cs.flatMap escapeChar ++ ['"', '\n'])
  | literal : literalAllowed cs = true → cs ≠ [] → ScalarLine indent cs .literal
    ('|' :: literalHeader cs ++ '\n' :: literalBody indent true (closed cs))

theorem ne_nil_of_not_looksTyped (h : looksTyped cs = false) : cs ≠ [] := by
  rintro rfl
  exact absurd h (by decide)

theorem literalBody_closed (cs : List Char) : literalBody indent true (closed cs) =
    literalBody indent true cs ++ if cs.getLast?.any isBreak then [] else ['\n'] := by
  rw [closed]
  split
  · rw [List.append_nil]
  · exact literalBody_concat true cs

theorem styleOf_cases (cs : List Char) :
    (styleOf cs = .literal ∧ literalAllowed cs = true ∧ cs ≠ []) ∨
    (styleOf cs = .plain ∧ plainAllowed cs = true ∧ cs ≠ []) ∨
    (styleOf cs = .singleQuoted ∧ singleAllowed cs = true ∧ '\n' ∉ cs) ∨
    styleOf cs = .doubleQuoted := by
  rw [styleOf]
  split
  · rename_i hnew
    have hne : cs ≠ [] := by
      rintro rfl
      cases hnew
    split
    · rename_i hallowed
      exact .inl ⟨rfl, hallowed, hne⟩
    · exact .inr (.inr (.inr rfl))
  · rename_i hnew
    split
    · rename_i hplain
      rw [Bool.and_eq_true, Bool.not_eq_true'] at hplain
      exact .inr (.inl ⟨rfl, hplain.1, ne_nil_of_not_looksTyped hplain.2⟩)
    · split
      · rename_i hsingle
        exact .inr (.inr (.inl ⟨rfl, hsingle, by simpa using hnew⟩))
      · exact .inr (.inr (.inr rfl))

theorem scalarLine_spec (indent : Nat) (cs : List Char) :
    ScalarLine indent cs (styleOf cs) (scalarLine indent cs) := by
  rcases styleOf_cases cs with ⟨h, hallowed, hne⟩ | ⟨h, hallowed, hne⟩ | ⟨h, hallowed, hnew⟩ | h
  · have hline := @ScalarLine.literal indent cs hallowed hne
    rw [literalBody_closed] at hline
    simpa [scalarLine, scalarBody, h] using hline
  · simpa [scalarLine, scalarBody, h] using @ScalarLine.plain indent cs hallowed hne
  · simpa [scalarLine, scalarBody, h] using @ScalarLine.single indent cs hallowed hnew
  · simpa [scalarLine, scalarBody, h] using @ScalarLine.double indent cs

section Allowed

variable {c : Char}

theorem isAllowed_of_isShown (h : isShown c = true) : isAllowed c = true := by
  simp only [isShown, isAllowed, Bool.or_eq_true, Bool.and_eq_true, beq_iff_eq,
    decide_eq_true_eq] at h ⊢
  omega

theorem isAllowed_of_escapeShape {d : Char} {x : Char ⊕ Nat} (h : escapeShape? d = some x) :
    isAllowed d = true := by
  unfold escapeShape? at h
  split at h <;> first | rfl | cases h

theorem isAllowed_upperDigit : ∀ d < 16, isAllowed (upperDigit d) = true := by decide

theorem isAllowed_of_mem_escapeChar {d : Char} (h : d ∈ escapeChar c) : isAllowed d = true := by
  have hwritten := escaped_escapeChar c
  generalize escapeChar c = written at hwritten h
  cases hwritten with
  | bare hshown =>
    rw [List.mem_singleton.1 h]
    exact isAllowed_of_isShown hshown
  | space hspace =>
    rw [List.mem_singleton.1 h, hspace]
    rfl
  | letter hshape =>
    rcases List.mem_cons.1 h with rfl | h
    · rfl
    · rw [List.mem_singleton.1 h]
      exact isAllowed_of_escapeShape hshape
  | number hshape =>
    rcases List.mem_cons.1 h with rfl | h
    · rfl
    · rcases List.mem_cons.1 h with rfl | h
      · exact isAllowed_of_escapeShape hshape
      · obtain ⟨x, hx, rfl⟩ := exists_digit_of_mem_upperHex h
        exact isAllowed_upperDigit x hx

theorem mem_singleBody {broken : Bool} (h : c ∈ singleBody indent broken cs) :
    c = ' ' ∨ c ∈ cs := by
  have hspaces : ∀ {n : Nat}, c ∈ spaces n → c = ' ' := List.eq_of_mem_replicate
  induction cs generalizing broken with
  | nil =>
    rw [singleBody] at h
    split at h
    · exact .inl (hspaces h)
    · cases h
  | cons d cs ih =>
    rw [singleBody] at h
    split at h
    · rcases List.mem_cons.1 h with rfl | h
      · exact .inr List.mem_cons_self
      · exact (ih h).imp_right (List.mem_cons_of_mem d)
    · rcases List.mem_append.1 h with h | h
      · rcases List.mem_append.1 h with h | h
        · split at h
          · exact .inl (hspaces h)
          · cases h
        · right
          split at h
          · rename_i hquote
            have hc : c = '\'' := by simpa using h
            rw [hc, hquote]
            exact List.mem_cons_self
          · rw [List.mem_singleton.1 h]
            exact List.mem_cons_self
      · exact (ih h).imp_right (List.mem_cons_of_mem d)

theorem mem_literalBody {broken : Bool} (h : c ∈ literalBody indent broken cs) :
    c = ' ' ∨ c ∈ cs := by
  induction cs generalizing broken with
  | nil => cases h
  | cons d cs ih =>
    rw [literalBody] at h
    split at h
    · rcases List.mem_cons.1 h with rfl | h
      · exact .inr List.mem_cons_self
      · exact (ih h).imp_right (List.mem_cons_of_mem d)
    · rcases List.mem_append.1 h with h | h
      · split at h
        · exact .inl (List.eq_of_mem_replicate h)
        · cases h
      · rcases List.mem_cons.1 h with rfl | h
        · exact .inr List.mem_cons_self
        · exact (ih h).imp_right (List.mem_cons_of_mem d)

theorem isAllowed_of_mem_literalHeader (h : c ∈ literalHeader cs) : isAllowed c = true := by
  rw [literalHeader_eq, hint] at h
  have hsign : ∀ ch : Chomping, c ∈ ch.sign → isAllowed c = true := by
    intro ch hc
    cases ch with
    | strip => rw [List.mem_singleton.1 hc]; rfl
    | clip => cases hc
    | keep => rw [List.mem_singleton.1 hc]; rfl
  rcases List.mem_append.1 h with h | h
  · split at h
    · rw [List.mem_singleton.1 h]
      rfl
    · cases h
  · exact hsign _ h

/-- What is written of a scalar may stand in a text. -/
theorem isAllowed_of_mem_scalarLine (h : c ∈ scalarLine indent cs) : isAllowed c = true := by
  have hline := scalarLine_spec indent cs
  generalize scalarLine indent cs = written at hline h
  generalize styleOf cs = style at hline
  have hshown : needsEscape cs = false → c ∈ cs → isAllowed c = true := fun hcs hc =>
    isAllowed_of_isShown (shown_of_needsEscape hcs c hc)
  have hspace : c = ' ' → isAllowed c = true := by
    rintro rfl
    rfl
  cases hline with
  | plain hallowed =>
    simp only [plainAllowed, Bool.and_eq_true, Bool.not_eq_true'] at hallowed
    rcases List.mem_append.1 h with h | h
    · exact hshown hallowed.1.2 h
    · rw [List.mem_singleton.1 h]
      rfl
  | single hallowed =>
    simp only [singleAllowed, Bool.and_eq_true, Bool.not_eq_true'] at hallowed
    simp only [List.mem_cons, List.mem_append, List.not_mem_nil, or_false] at h
    rcases h with (rfl | h) | rfl | rfl
    · rfl
    · exact (mem_singleBody h).elim hspace (hshown hallowed.1)
    · rfl
    · rfl
  | double =>
    simp only [List.mem_cons, List.mem_append, List.not_mem_nil, or_false, List.mem_flatMap] at h
    rcases h with (rfl | ⟨d, -, h⟩) | rfl | rfl
    · rfl
    · exact isAllowed_of_mem_escapeChar h
    · rfl
    · rfl
  | literal hallowed =>
    simp only [literalAllowed, Bool.and_eq_true, Bool.not_eq_true'] at hallowed
    have hclosed := shown_closed (shown_of_needsEscape hallowed.1)
    simp only [List.mem_cons, List.mem_append] at h
    rcases h with (rfl | h) | rfl | h
    · rfl
    · exact isAllowed_of_mem_literalHeader h
    · rfl
    · exact (mem_literalBody h).elim hspace fun hc => isAllowed_of_isShown (hclosed c hc)

theorem firstForbidden_eq_none {bytes : Nat} (h : ∀ c ∈ cs, isAllowed c = true) :
    firstForbidden? bytes cs = none := by
  induction cs generalizing bytes with
  | nil => rfl
  | cons c cs ih =>
    rw [firstForbidden?, if_pos (h c List.mem_cons_self)]
    exact ih fun d hd => h d (List.mem_cons_of_mem c hd)

end Allowed

end EventPost.Yaml
