import EventPost.Proofs.Yaml.Reading
import EventPost.Proofs.Yaml.Scanning
import EventPost.Proofs.Yaml.Structure

/-!
The pieces of a written block: its keys, the values behind them, and the characters they are made
of. A text of such pieces loads as one document.
-/

namespace EventPost

namespace Yaml

open Numeral (decimal)

theorem writeMembers_key {indent : Nat} {key : String} (h : WrittenKey key.toList) (v : Json)
    (ms : List (String × Json)) :
    writeMembers indent ((key, v) :: ms) =
      spaces indent ++ (key.toList ++ ':' :: (writeBelow indent v ++ writeMembers indent ms)) := by
  rw [writeMembers, writeKey, if_pos h.simple, if_pos h.simple, scalarBody, h.plain]
  simp only [List.append_assoc, List.cons_append, List.nil_append]

theorem writeBelow_text (indent : Nat) (s : String) :
    writeBelow indent (.text s) = ' ' :: scalarLine (indent + 2) s.toList := rfl

theorem writeBelow_word (indent : Nat) (n : UInt64) :
    writeBelow indent (Json.ofWord n) = ' ' :: (decimal n.toNat ++ ['\n']) := by
  have hsigned : Numeral.signedText n.toNat = Numeral.decimalText n.toNat := if_neg (by omega)
  have hwritten : writeNumber (.integer n.toNat (Json.fits_toNat n)) = decimal n.toNat := by
    rw [writeNumber, hsigned, Numeral.decimalText, String.toList_ofList]
  rw [← hwritten]
  rfl

def keys : List String :=
  ["server", "url", "token", "timeout_secs", "log_level", "accepted", "event_ids"]

theorem writtenKey (key : String) (h : key ∈ keys) : WrittenKey key.toList := by
  have htable : ∀ key ∈ keys, key.toList ≠ [] ∧ key.toList.all (decide <| · ∈ keyChars) = true ∧
      key.toList.length ≤ 1024 ∧ styleOf key.toList = .plain ∧ isSimpleKey key.toList = true := by
    decide +kernel
  obtain ⟨hne, hchars, hshort, hplain, hsimple⟩ := htable key h
  exact ⟨⟨hne, forall_mem_of_all hchars⟩, hshort, hplain, hsimple⟩

theorem allowed_key {word : List Char} (h : WrittenKey word) : ∀ c ∈ word, isAllowed c = true := by
  have hkey : ∀ c ∈ keyChars, isAllowed c = true := forall_mem_of_all (by decide)
  exact fun c hc => hkey c (h.keyWord.chars c hc)

theorem allowed_spaces (n : Nat) : ∀ c ∈ spaces n, isAllowed c = true := by
  intro c hc
  rw [List.eq_of_mem_replicate hc]
  rfl

theorem allowed_decimal (n : Nat) : ∀ c ∈ decimal n, isAllowed c = true := fun _ hc =>
  isAllowed_of_isShown (isShown_of_isDigit (Numeral.isDigit_of_mem_decimal hc))

theorem load_of_finishes {cs : List Char} {ks : List TokenKind} {es : List EventKind}
    {items : List Item} (hscan : Scanner.Finishes (.ofText cs) ks)
    (hallowed : ∀ c ∈ cs, isAllowed c = true) (hks : ks.length ≤ 4 * cs.length + 8)
    (hread : Grammar.Reads ⟨ks, .streamStart, []⟩
      (.streamStart :: .documentStart :: (es ++ [.documentEnd, .streamEnd])) ⟨[], .ended, []⟩)
    (hes : es.length ≤ 8 * ks.length + 12) (hitems : es.map itemOf? = items.map some) :
    ∃ its : Items, its.map (·.1) = items ∧ load cs = ⟨⟨its, [], none⟩, false⟩ := by
  obtain ⟨ts, rfl, htokens⟩ := tokens_of_finishes hscan (firstForbidden_eq_none hallowed) hks
  rw [List.length_map] at hes
  obtain ⟨evs, hevs, hevents⟩ := events_of_reads htokens hread (by
    simp only [List.length_cons, List.length_append, List.length_nil]
    omega)
  exact load_of_events hevents hevs hitems

end Yaml

end EventPost
