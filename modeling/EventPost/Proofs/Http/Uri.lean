import EventPost.Http.Uri

/-!
What is left of an address after it was parsed. Its path holds no blank and no control, so it keeps
to its place in the line of a request.
-/

namespace EventPost.Http.Uri

theorem beyond_blank_of_isPathChar {c : Char} (h : isPathChar c = true) : 0x20 < c.toNat := by
  simp only [isPathChar, Bool.or_eq_true, Bool.and_eq_true, beq_iff_eq, decide_eq_true_eq] at h
  have hquoted : c = '"' ∨ c = '\x7b' ∨ c = '\x7d' → 0x20 < c.toNat := by
    rintro (rfl | rfl | rfl) <;> decide
  grind

theorem beyond_blank_of_isQueryChar {c : Char} (h : isQueryChar c = true) : 0x20 < c.toNat := by
  simp only [isQueryChar, Bool.or_eq_true, Bool.and_eq_true, beq_iff_eq, decide_eq_true_eq] at h
  omega

theorem beyond_blank_of_readPath {cs : List Char} {path : String} (h : readPath cs = .ok path) :
    ∀ c ∈ path.toList, 0x20 < c.toNat := by
  unfold readPath at h
  dsimp only at h
  split at h
  · rename_i hall
    rw [Bool.and_eq_true, List.all_eq_true, List.all_eq_true] at hall
    obtain ⟨hpath, hquery⟩ := hall
    rw [← Except.ok.inj h, String.toList_ofList]
    generalize cs.takeWhile (· ≠ '#') = cs at hpath hquery
    intro c hc
    rw [← List.takeWhile_append_dropWhile (p := (· ≠ '?')) (l := cs), List.mem_append] at hc
    rcases hc with hc | hc
    · exact beyond_blank_of_isPathChar (hpath c hc)
    · -- The query begins with its mark, and `drop` leaves the rest.
      cases hq : cs.dropWhile (· ≠ '?') with
      | nil =>
        rw [hq] at hc
        exact absurd hc List.not_mem_nil
      | cons d query =>
        have hd : d = '?' := by
          have hhead := List.head?_dropWhile_not (· ≠ '?') cs
          rw [hq] at hhead
          simpa using hhead
        rw [hq] at hc hquery
        rcases List.mem_cons.1 hc with rfl | hc
        · rw [hd]
          decide
        · exact beyond_blank_of_isQueryChar (hquery c hc)
  · exact nomatch h

theorem beyond_blank_of_map {cs : List Char} {u : Uri} {make : String → Uri}
    (hm : ∀ path, (make path).path = path) (h : (readPath cs).map make = .ok u) :
    ∀ c ∈ u.path.toList, 0x20 < c.toNat := by
  cases hp : readPath cs with
  | error e =>
    rw [hp] at h
    exact nomatch h
  | ok path =>
    rw [hp] at h
    rw [← Except.ok.inj h, hm]
    exact beyond_blank_of_readPath hp

theorem beyond_blank_of_readFull {cs : List Char} {u : Uri} (h : readFull cs = .ok u) :
    ∀ c ∈ u.path.toList, 0x20 < c.toNat := by
  unfold readFull at h
  split at h
  · split at h
    · exact nomatch h
    · dsimp only at h
      split at h
      · exact nomatch h
      · split at h
        · exact nomatch h
        · exact beyond_blank_of_map (fun _ => rfl) h
  · dsimp only at h
    split at h
    · exact nomatch h
    · split at h
      · rw [← Except.ok.inj h]
        intro c hc
        exact absurd hc List.not_mem_nil
      · exact nomatch h

theorem beyond_blank_of_parse {text : String} {u : Uri} (h : parse text = .ok u) :
    ∀ c ∈ u.path.toList, 0x20 < c.toNat := by
  unfold parse at h
  split at h
  · exact nomatch h
  · split at h
    · exact nomatch h
    · rw [← Except.ok.inj h]
      exact List.forall_mem_singleton.2 (by decide)
    · exact beyond_blank_of_map (fun _ => rfl) h
    · exact beyond_blank_of_readFull h

theorem beyond_blank_of_target {text : String} {u : Uri} (h : parse text = .ok u) :
    ∀ c ∈ u.target.toList, 0x20 < c.toNat := by
  unfold target
  split
  · exact List.forall_mem_singleton.2 (by decide)
  · exact beyond_blank_of_parse h

end EventPost.Http.Uri
