import EventPost.Text.Blank

/-!
What stands at the ends of a text: trimming takes off the blanks there, and nothing else; so does the
cut at the end alone, for characters of any kind.
-/

namespace EventPost.Text

theorem dropWhile_of_head {p : Char → Bool} {cs : List Char}
    (h : ∀ c, cs.head? = some c → p c = false) : cs.dropWhile p = cs := by
  cases cs with
  | nil => rfl
  | cons c cs =>
    rw [List.dropWhile_cons_of_neg]
    rw [h c rfl]
    exact Bool.false_ne_true

theorem dropEndWhile_append (p : Char → Bool) (cs : List Char) :
    ∃ last, cs = dropEndWhile p cs ++ last ∧ ∀ c ∈ last, p c = true := by
  refine ⟨(cs.reverse.takeWhile p).reverse, ?_, ?_⟩
  · rw [dropEndWhile, ← List.reverse_append, List.takeWhile_append_dropWhile, List.reverse_reverse]
  · intro c hc
    exact List.all_eq_true.1 List.all_takeWhile c (List.mem_reverse.1 hc)

theorem dropEndWhile_around {p : Char → Bool} {inner last : List Char}
    (hinner : ∀ c, inner.getLast? = some c → p c = false) (hlast : ∀ c ∈ last, p c = true) :
    dropEndWhile p (inner ++ last) = inner := by
  have hstop : inner.reverse.dropWhile p = inner.reverse :=
    dropWhile_of_head fun c hc => hinner c (List.head?_reverse ▸ hc)
  rw [dropEndWhile, List.reverse_append,
    List.dropWhile_append_of_pos fun c hc => hlast c (List.mem_reverse.1 hc), hstop,
    List.reverse_reverse]

theorem getLast?_dropEndWhile {p : Char → Bool} {cs : List Char} {c : Char}
    (h : (dropEndWhile p cs).getLast? = some c) : p c = false := by
  have hhead := List.head?_dropWhile_not p cs.reverse
  rw [dropEndWhile, List.getLast?_reverse] at h
  rw [h] at hhead
  exact hhead

theorem trimChars_append (cs : List Char) : ∃ first last, cs = first ++ trimChars cs ++ last ∧
    ∀ c ∈ first ++ last, isBlank c = true := by
  obtain ⟨last, hlast, hblank⟩ := dropEndWhile_append isBlank (cs.dropWhile isBlank)
  refine ⟨cs.takeWhile isBlank, last, ?_, ?_⟩
  · rw [trimChars, List.append_assoc, ← hlast, List.takeWhile_append_dropWhile]
  · intro c hc
    rcases List.mem_append.1 hc with hc | hc
    · exact List.all_eq_true.1 List.all_takeWhile c hc
    · exact hblank c hc

/-- Neither the first character nor the last one is a blank. -/
structure Trimmed (cs : List Char) : Prop where
  first : ∀ c, cs.head? = some c → isBlank c = false
  last : ∀ c, cs.getLast? = some c → isBlank c = false

theorem trimmed_trimChars (cs : List Char) : Trimmed (trimChars cs) := by
  obtain ⟨last, hlast, -⟩ := dropEndWhile_append isBlank (cs.dropWhile isBlank)
  constructor
  · intro c hc
    have hhead := List.head?_dropWhile_not isBlank cs
    rw [hlast, List.head?_append, ← trimChars, hc] at hhead
    exact hhead
  · exact fun c hc => getLast?_dropEndWhile hc

theorem Trimmed.trimChars_around {first inner last : List Char} (h : Trimmed inner)
    (hblank : ∀ c ∈ first ++ last, isBlank c = true) :
    Text.trimChars (first ++ inner ++ last) = inner := by
  have hfirst : ∀ c ∈ first, isBlank c = true := fun c hc => hblank c (List.mem_append_left _ hc)
  have hlast : ∀ c ∈ last, isBlank c = true := fun c hc => hblank c (List.mem_append_right _ hc)
  rw [Text.trimChars, List.append_assoc, List.dropWhile_append_of_pos hfirst]
  cases inner with
  | nil =>
    have hnone : (last ++ []).dropWhile isBlank = [] := List.dropWhile_append_of_pos hlast
    rw [List.append_nil] at hnone
    rw [List.nil_append, hnone]
    rfl
  | cons c cs =>
    have hstart : (c :: cs ++ last).dropWhile isBlank = c :: cs ++ last :=
      dropWhile_of_head fun d hd => h.first d hd
    rw [hstart, dropEndWhile_around h.last hlast]

theorem Trimmed.trimChars {cs : List Char} (h : Trimmed cs) : trimChars cs = cs := by
  have haround := @Trimmed.trimChars_around [] cs [] h fun c hc => absurd hc List.not_mem_nil
  rwa [List.nil_append, List.append_nil] at haround

theorem trimChars_around {first inner last : List Char}
    (hblank : ∀ c ∈ first ++ last, isBlank c = true) (hinner : ∀ c ∈ inner, isBlank c = false) :
    trimChars (first ++ inner ++ last) = inner := by
  have htrimmed : Trimmed inner :=
    ⟨fun c hc => hinner c (List.mem_of_mem_head? hc), fun c hc => hinner c (List.mem_of_getLast? hc)⟩
  exact htrimmed.trimChars_around hblank

theorem isBlank_of_isDigit {c : Char} (h : c.isDigit = true) : isBlank c = false := by
  rw [Char.isDigit, Bool.and_eq_true, decide_eq_true_eq, decide_eq_true_eq] at h
  have h0 : 48 ≤ c.toNat := h.1
  have h9 : c.toNat ≤ 57 := h.2
  simp only [isBlank, Bool.or_eq_false_iff, Bool.and_eq_false_iff, decide_eq_false_iff_not,
    beq_eq_false_iff_ne]
  omega

end EventPost.Text
