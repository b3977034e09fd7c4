import EventPost.CommandLine.Spelling
import EventPost.Proofs.Json.Meaning
import EventPost.Proofs.Text.Blank

/-!
An entry that is written is read. The key is what stands before the first equals sign, so it holds
none; it is read without the blanks around it, so it has none; and a value that is written as JSON is
nothing but that value, a string in its quotes too. A text is read as an entry whenever it has a key;
what stands behind the sign means what it means as JSON, or else itself.
-/

namespace EventPost.CommandLine

open Json (Alone Means)
open Text (bytesOf isBlank)

/-- A key under which an entry can be given. -/
structure IsKey (key : String) : Prop where
  present : key ≠ ""
  unsigned : '=' ∉ key.toList
  trimmed : Text.Trimmed key.toList

theorem IsKey.of_blankless {key : String} (hne : key ≠ "")
    (h : ∀ c ∈ key.toList, c ≠ '=' ∧ isBlank c = false) : IsKey key :=
  ⟨hne, fun hsign => (h _ hsign).1 rfl, fun c hc => (h c (List.mem_of_head? hc)).2,
    fun c hc => (h c (List.mem_of_getLast? hc)).2⟩

/-- A value that JSON keeps, and that nests no deeper than is read. -/
structure IsValue (v : Json) : Prop where
  integral : v.Integral
  ordered : v.Ordered
  shallow : v.height ≤ 127

theorem entryValue_compact {v : Json} (h : IsValue v) : entryValue v.compact = v := by
  rw [entryValue, Json.parse?_compact h.integral h.ordered h.shallow]
  rfl

theorem readEntry_spellEntry {e : String × Json} (hkey : IsKey e.1) (hvalue : IsValue e.2) :
    readEntry (spellEntry e) = .ok e := by
  have hsplit : splitOnce '=' (spellEntry e).toList = some (e.1.toList, e.2.compact.toList) := by
    rw [splitOnce_eq_some_iff, spellEntry, String.toList_append, String.toList_append,
      List.append_assoc]
    exact ⟨rfl, hkey.unsigned⟩
  have hpresent : e.1.toList.isEmpty = false := by
    rw [List.isEmpty_eq_false_iff]
    exact fun h => hkey.present (String.toList_eq_nil_iff.1 h)
  rw [readEntry, hsplit]
  dsimp only
  rw [hkey.trimmed.trimChars, hpresent, String.ofList_toList, String.ofList_toList,
    entryValue_compact hvalue]
  rfl

/-- What stands behind the sign means what it says as JSON, blanks around it and all, or itself if it
is no JSON text. -/
inductive Stands (rest : String) : Json → Prop
  | json {v : Json} : Alone (Means 127 · v) (bytesOf rest) → Stands rest v
  | plain : (∀ v, ¬Alone (Means 127 · v) (bytesOf rest)) → Stands rest (.text rest)

/-- A key with blanks around it, the sign, and what means the value. -/
def IsEntry (text key : String) (v : Json) : Prop :=
  ∃ first last rest, text.toList = first ++ key.toList ++ last ++ '=' :: rest.toList ∧
    (∀ c ∈ first ++ last, isBlank c = true) ∧ IsKey key ∧ Stands rest v

theorem entryValue_eq {rest : String} {v : Json} : entryValue rest = v ↔ Stands rest v := by
  cases hread : Json.parse (bytesOf rest) with
  | ok w =>
    have hvalue : entryValue rest = w := by
      rw [entryValue, Json.parse?, hread]
      rfl
    have hmeans := Json.parse_eq_ok.1 hread
    constructor
    · intro h
      rw [← h, hvalue]
      exact .json hmeans
    · intro h
      cases h with
      | json hv =>
        rw [Json.parse_eq_ok.2 hv] at hread
        rw [hvalue, Except.ok.inj hread]
      | plain hnone => exact absurd hmeans (hnone w)
  | error fault =>
    have hvalue : entryValue rest = .text rest := by
      rw [entryValue, Json.parse?, hread]
      rfl
    have hnone : ∀ w, ¬Alone (Means 127 · w) (bytesOf rest) := by
      intro w hw
      rw [Json.parse_eq_ok.2 hw] at hread
      cases hread
    constructor
    · intro h
      rw [← h, hvalue]
      exact .plain hnone
    · intro h
      cases h with
      | json hv => exact absurd hv (hnone v)
      | plain => exact hvalue

theorem not_isBlank_sign : isBlank '=' = false := by decide

theorem readEntry_split {text : String} {before after : List Char}
    (h : text.toList = before ++ '=' :: after) (hbefore : '=' ∉ before) :
    readEntry text = if (Text.trimChars before).isEmpty then .error (.emptyKey text)
      else .ok (String.ofList (Text.trimChars before), entryValue (String.ofList after)) := by
  rw [readEntry, splitOnce_eq_some_iff.2 ⟨h, hbefore⟩]

theorem sign_notMem_trimChars {cs : List Char} (h : '=' ∉ cs) : '=' ∉ Text.trimChars cs := by
  obtain ⟨first, last, hcs, -⟩ := Text.trimChars_append cs
  intro hsign
  exact h (hcs ▸ List.mem_append_left _ (List.mem_append_right _ hsign))

theorem trimChars_eq_nil {cs : List Char} :
    Text.trimChars cs = [] ↔ ∀ c ∈ cs, isBlank c = true := by
  constructor
  · intro h
    obtain ⟨first, last, hcs, hblank⟩ := Text.trimChars_append cs
    rw [h, List.append_nil] at hcs
    exact hcs ▸ hblank
  · intro h
    have htrimmed : Text.Trimmed [] := ⟨fun _ hc => (nomatch hc), fun _ hc => (nomatch hc)⟩
    have haround := @Text.Trimmed.trimChars_around cs [] [] htrimmed (by rwa [List.append_nil])
    rwa [List.append_nil, List.append_nil] at haround

theorem readEntry_eq_error {text : String} {fault : EntryFault} : readEntry text = .error fault ↔
    ('=' ∉ text.toList ∧ fault = .noSign text) ∨
      (∃ blanks rest, text.toList = blanks ++ '=' :: rest ∧ (∀ c ∈ blanks, isBlank c = true)) ∧
        fault = .emptyKey text := by
  by_cases hsign : '=' ∈ text.toList
  · obtain ⟨before, after, htext, hbefore⟩ := List.eq_append_cons_of_mem hsign
    have hblanks : (∃ blanks rest, text.toList = blanks ++ '=' :: rest ∧
        ∀ c ∈ blanks, isBlank c = true) ↔ ∀ c ∈ before, isBlank c = true := by
      constructor
      · intro h
        obtain ⟨blanks, rest, htext', hblank⟩ := h
        have hfree : '=' ∉ blanks := fun hm => by
          have hsign := hblank _ hm
          rw [not_isBlank_sign] at hsign
          cases hsign
        have hsplit := splitOnce_eq_some_iff.2 ⟨htext', hfree⟩
        rw [splitOnce_eq_some_iff.2 ⟨htext, hbefore⟩] at hsplit
        exact (Prod.mk.inj (Option.some.inj hsplit)).1 ▸ hblank
      · exact fun h => ⟨before, after, htext, h⟩
    rw [readEntry_split htext hbefore, hblanks, ← trimChars_eq_nil]
    by_cases hempty : Text.trimChars before = []
    · rw [if_pos (List.isEmpty_iff.2 hempty), Except.error.injEq, eq_comm]
      simp only [hsign, hempty, not_true_eq_false, false_and, true_and, false_or]
    · rw [if_neg fun h => hempty (List.isEmpty_iff.1 h)]
      simp only [hsign, hempty, not_true_eq_false, false_and, or_self, reduceCtorEq]
  · have hnone : ¬∃ blanks rest, text.toList = blanks ++ '=' :: rest ∧
        ∀ c ∈ blanks, isBlank c = true := by
      intro h
      obtain ⟨blanks, rest, htext, -⟩ := h
      exact hsign (htext ▸ List.mem_append_right _ List.mem_cons_self)
    rw [readEntry, splitOnce_eq_none.2 hsign, Except.error.injEq, eq_comm]
    simp only [hsign, hnone, not_false_eq_true, true_and, false_and, or_false]

theorem readEntry_eq_ok {text key : String} {v : Json} :
    readEntry text = .ok (key, v) ↔ IsEntry text key v := by
  constructor
  · intro h
    by_cases hsign : '=' ∈ text.toList
    · obtain ⟨before, after, htext, hbefore⟩ := List.eq_append_cons_of_mem hsign
      rw [readEntry_split htext hbefore] at h
      split at h
      · cases h
      · rename_i hpresent
        obtain ⟨rfl, hvalue⟩ := Prod.mk.inj (Except.ok.inj h)
        obtain ⟨first, last, hcs, hblank⟩ := Text.trimChars_append before
        have hkey : IsKey (String.ofList (Text.trimChars before)) := by
          refine ⟨fun hempty => hpresent ?_, ?_, ?_⟩
          · rw [← String.toList_eq_nil_iff, String.toList_ofList] at hempty
            rw [hempty]
            rfl
          · rw [String.toList_ofList]
            exact sign_notMem_trimChars hbefore
          · rw [String.toList_ofList]
            exact Text.trimmed_trimChars before
        refine ⟨first, last, String.ofList after, ?_, hblank, hkey, entryValue_eq.1 hvalue⟩
        rw [String.toList_ofList, String.toList_ofList, ← hcs]
        exact htext
    · rw [readEntry, splitOnce_eq_none.2 hsign] at h
      cases h
  · intro h
    obtain ⟨first, last, rest, htext, hblank, hkey, hvalue⟩ := h
    have hbefore : '=' ∉ first ++ key.toList ++ last := by
      have hblanks : '=' ∉ first ++ last := fun hm => by
        have hsign := hblank _ hm
        rw [not_isBlank_sign] at hsign
        cases hsign
      simp only [List.mem_append, not_or] at hblanks ⊢
      exact ⟨⟨hblanks.1, hkey.unsigned⟩, hblanks.2⟩
    have hpresent : key.toList ≠ [] := fun hnil => hkey.present (String.toList_eq_nil_iff.1 hnil)
    rw [readEntry_split htext hbefore, hkey.trimmed.trimChars_around hblank,
      if_neg fun hempty => hpresent (List.isEmpty_iff.1 hempty), String.ofList_toList,
      String.ofList_toList, entryValue_eq.2 hvalue]

/-- A text is no entry only for want of a sign or of a key before it. Otherwise its key is what stands
before the first sign, without the blanks around it, and its value what the rest means. A key and a
value are read back from the text they make, and a string from its quoted form, whatever it is. -/
theorem readEntry_exact (text : String) :
    (∀ fault, readEntry text = .error fault ↔
      ('=' ∉ text.toList ∧ fault = .noSign text) ∨
        (∃ blanks rest, text.toList = blanks ++ '=' :: rest ∧ (∀ c ∈ blanks, isBlank c = true)) ∧
          fault = .emptyKey text) ∧
    (∀ key v, readEntry text = .ok (key, v) ↔ IsEntry text key v) ∧
    (∀ key v, IsKey key → IsValue v → readEntry (key ++ "=" ++ v.compact) = .ok (key, v)) ∧
    ∀ key s, IsKey key → readEntry (key ++ "=" ++ (Json.text s).compact) = .ok (key, .text s) := by
  have hback : ∀ key v, IsKey key → IsValue v →
      readEntry (key ++ "=" ++ v.compact) = .ok (key, v) := by
    intro key v hkey hvalue
    exact @readEntry_spellEntry (key, v) hkey hvalue
  refine ⟨fun fault => readEntry_eq_error, fun key v => readEntry_eq_ok, hback, ?_⟩
  intro key s hkey
  exact hback key (.text s) hkey ⟨Json.integral_text s, Json.ordered_text s, Nat.zero_le _⟩

end EventPost.CommandLine
