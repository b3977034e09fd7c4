import Mathlib.Logic.ExistsUnique
import EventPost.Proofs.Text.Blank
import EventPost.Submission.Notifier

/-!
The address to which events are posted, against the base address it is made from. The slashes at the
end of a base do not count and everything else does: two bases lead to one address only if they are
the same up to those slashes.
-/

namespace EventPost.Notifier

/-- The base is `rest` with any number of slashes behind it, and `rest` ends in none. -/
structure Stripped (base rest : String) : Prop where
  slashes : ∃ n, base.toList = rest.toList ++ List.replicate n '/'
  bare : rest.toList.getLast? ≠ some '/'

variable {base rest : String}

theorem stripped_iff :
    Stripped base rest ↔ rest.toList = Text.dropEndWhile (· == '/') base.toList := by
  constructor
  · intro h
    obtain ⟨n, hbase⟩ := h.slashes
    have hbare : ∀ c, rest.toList.getLast? = some c → (c == '/') = false :=
      fun c hc => beq_false_of_ne fun heq => h.bare (heq ▸ hc)
    have hslash : ∀ c ∈ List.replicate n '/', (c == '/') = true :=
      fun c hc => beq_iff_eq.2 (List.eq_of_mem_replicate hc)
    rw [hbase, Text.dropEndWhile_around hbare hslash]
  · intro h
    obtain ⟨last, hlast, hslash⟩ := Text.dropEndWhile_append (· == '/') base.toList
    refine ⟨⟨last.length, ?_⟩, fun hend => ?_⟩
    · rw [h, ← List.eq_replicate_of_mem fun c hc => beq_iff_eq.1 (hslash c hc)]
      exact hlast
    · rw [h] at hend
      exact absurd (Text.getLast?_dropEndWhile hend) (by decide)

theorem existsUnique_stripped (base : String) : ∃! rest, Stripped base rest := by
  refine ⟨_, stripped_iff.2 String.toList_ofList, fun other hother => ?_⟩
  rw [← String.toList_inj, stripped_iff.1 hother, String.toList_ofList]

theorem Stripped.endpointOf (h : Stripped base rest) : endpointOf base = rest ++ eventsPath := by
  rw [Notifier.endpointOf, ← stripped_iff.1 h, String.ofList_toList]

theorem Stripped.append (h : Stripped base rest) {more : String}
    (hmore : ∀ c ∈ more.toList, c = '/') : Stripped (base ++ more) rest := by
  obtain ⟨n, hbase⟩ := h.slashes
  refine ⟨⟨n + more.toList.length, ?_⟩, h.bare⟩
  rw [String.toList_append, hbase, List.append_assoc, ← List.replicate_append_replicate,
    ← List.eq_replicate_of_mem hmore]

/-- The address is the base without the slashes at its end, with the path of the events behind it; so
two bases have one address exactly if those are all they differ in. -/
theorem endpoint_eq_iff (s t : ServerSettings) :
    ((ofSettings s).endpoint = (ofSettings t).endpoint ↔
      ∃ rest, Stripped s.url rest ∧ Stripped t.url rest) ∧
    (∃! rest, Stripped s.url rest) ∧
    (∀ rest, Stripped s.url rest → (ofSettings s).endpoint = rest ++ "/api/v1/events") ∧
    ∀ more, (∀ c ∈ more.toList, c = '/') →
      (ofSettings { s with url := s.url ++ more }).endpoint = (ofSettings s).endpoint := by
  obtain ⟨rest, hs, -⟩ := existsUnique_stripped s.url
  obtain ⟨rest', ht, -⟩ := existsUnique_stripped t.url
  have hsame : (ofSettings s).endpoint = (ofSettings t).endpoint ↔ rest = rest' := by
    rw [ofSettings, ofSettings, hs.endpointOf, ht.endpointOf]
    exact String.append_left_inj eventsPath
  refine ⟨hsame.trans ⟨fun heq => ⟨rest, hs, heq ▸ ht⟩, fun h => ?_⟩, existsUnique_stripped s.url,
    fun _ h => h.endpointOf, fun more hmore => ?_⟩
  · obtain ⟨common, hs', ht'⟩ := h
    exact ((existsUnique_stripped s.url).unique hs hs').trans
      ((existsUnique_stripped t.url).unique ht' ht)
  · exact (hs.append hmore).endpointOf.trans hs.endpointOf.symm

end EventPost.Notifier
