import EventPost.Proofs.Result
import EventPost.Yaml.Field

/-!
What stands in a document, told apart from how it is read: the text or the number at a place, and
the members of a mapping, each of them a key and the place of its value. Whatever a reader makes of
a mapping, it makes of these members, one after the other.
-/

namespace EventPost.Yaml

variable {d : Document} {items rest : Items}

def Document.TextAt (d : Document) (items : Items) (text : String) : Prop :=
  ∃ n s, d.next items = .ok n ∧ n.item = .scalar s ∧ String.ofList s.text = text

/-- A scalar that spells a number of 64 bits: a plain one, or a literal block that is tagged as an
integer. -/
def Document.WordAt (d : Document) (items : Items) (word : UInt64) : Prop :=
  ∃ n s, d.next items = .ok n ∧ n.item = .scalar s ∧
    (s.style = .plain ∨ s.style = .literal ∧ s.tag = some (standardTag "int")) ∧
    unsigned? Numeral.maxWord s.text = some word.toNat

/-- A scalar that names a choice, or a tag that does, with nothing behind it. -/
def Document.ChoiceAt {α : Type} (d : Document) (ofName? : String → Option α) (items : Items)
    (choice : α) : Prop :=
  ∃ n, d.next items = .ok n ∧
    ((∃ tag, localTag? n.item.tag? = some tag ∧ ofName? tag = some choice ∧
        n.item.isNothing = true) ∨
      ∃ s, localTag? n.item.tag? = none ∧ n.item = .scalar s ∧
        ofName? (String.ofList s.text) = some choice)

mutual
/-- A value begins with `items`, and `rest` stands behind it. -/
inductive Passes (d : Document) : Items → Items → Prop
  | skipped {items rest : Items} : skipValue d items = .ok rest → Passes d items rest
  | mapping {tag : Option Text.Bytes} {m : Mark} {inner rest : Items}
    {ms : List (String × Items)} : Members d inner ms rest →
    Passes d ((.mappingStart tag, m) :: inner) rest

/-- The members of a mapping from `items` on, and what stands behind its end. -/
inductive Members (d : Document) : Items → List (String × Items) → Items → Prop
  | done {m : Mark} {rest : Items} : Members d ((.mappingEnd, m) :: rest) [] rest
  | more {i : Item × Mark} {value after last : Items} {key : String}
    {ms : List (String × Items)} : d.TextAt (i :: value) key → Passes d value after →
    Members d after ms last → Members d (i :: value) ((key, value) :: ms) last
end

/-- A mapping and its members. What is empty is a mapping without any. -/
inductive Document.MappingAt (d : Document) (items : Items) : List (String × Items) → Prop
  | members {n : Node} {tag : Option Text.Bytes} {ms : List (String × Items)} {last : Items} :
    d.next items = .ok n → n.item = .mappingStart tag → Members d n.inner ms last →
    d.MappingAt items ms
  | void {n : Node} : d.next items = .ok n → n.item = .void → d.MappingAt items []
  | empty {n : Node} {s : Scalar} : d.next items = .ok n → n.item = .scalar s → s.text = [] →
    s.style = .plain → d.MappingAt items []

theorem next_cases {n : Node} (h : d.next items = .ok n) :
    (items = (n.item, n.mark) :: n.outer ∧ n.inner = n.outer) ∨
      ∃ k m, items = (.alias k, m) :: n.outer ∧
        ((n.item, n.mark) :: n.inner <:+ d.items ∨ n.item = .alias k ∧ n.inner = []) := by
  unfold Document.next at h
  split at h
  · exact nomatch h
  · rename_i k m rest
    split at h
    · rename_i item mark inner hdrop
      rw [← Except.ok.inj h]
      exact .inr ⟨k, m, rfl, .inl (hdrop ▸ List.drop_suffix _ _)⟩
    · rw [← Except.ok.inj h]
      exact .inr ⟨k, m, rfl, .inr ⟨rfl, rfl⟩⟩
  · rw [← Except.ok.inj h]
    exact .inl ⟨rfl, rfl⟩

theorem outer_of_next {n : Node} (h : d.next items = .ok n) : ∃ i, items = i :: n.outer := by
  rcases next_cases h with ⟨hi, -⟩ | ⟨_, _, hi, -⟩
  · exact ⟨_, hi⟩
  · exact ⟨_, hi⟩

theorem inner_of_next {n : Node} (h : d.next items = .ok n) (hitems : items <:+ d.items) :
    n.inner <:+ d.items := by
  rcases next_cases h with ⟨hi, hinner⟩ | ⟨k, m, hi, hanchor | ⟨-, hinner⟩⟩
  · rw [hinner]
    exact (List.suffix_cons _ _).trans (hi ▸ hitems)
  · exact (List.suffix_cons _ _).trans hanchor
  · rw [hinner]
    exact List.nil_suffix

theorem suffix_of_skipItem {fuel depth : Nat} (h : skipItem d fuel depth items = .ok rest) :
    rest <:+ items := by
  induction fuel generalizing depth items with
  | zero => exact Except.ok.inj h ▸ List.suffix_rfl
  | succ fuel ih =>
    cases items with
    | nil => exact nomatch h
    | cons i items =>
      obtain ⟨inner, hinner⟩ : ∃ inner, skipItem d (fuel + 1) depth (i :: items) =
        if inner = 0 then .ok items else skipItem d fuel inner items := ⟨_, rfl⟩
      rw [hinner] at h
      split at h
      · rw [Except.ok.inj h]
        exact List.suffix_cons _ _
      · exact (ih h).trans (List.suffix_cons _ _)

theorem skipValue_of_next {n : Node} (h : d.next items = .ok n)
    (hs : ∀ tag, n.item ≠ .sequenceStart tag) (hm : ∀ tag, n.item ≠ .mappingStart tag) :
    skipValue d items = .ok n.outer := by
  rcases next_cases h with ⟨hi, -⟩ | ⟨k, m, hi, -⟩
  · rw [hi]
    cases hitem : n.item with
    | sequenceStart tag => exact absurd hitem (hs tag)
    | mappingStart tag => exact absurd hitem (hm tag)
    | _ => rfl
  · rw [hi]
    rfl

/-- A value has been read: `rest` is what stands behind it in the document. -/
structure Behind (d : Document) (items rest : Items) : Prop where
  passes : Passes d items rest
  suffix : rest <:+ items

theorem behind_of_skipValue (h : skipValue d items = .ok rest) : Behind d items rest :=
  ⟨.skipped h, suffix_of_skipItem h⟩

theorem behind_of_next {n : Node} (h : d.next items = .ok n)
    (hs : ∀ tag, n.item ≠ .sequenceStart tag) (hm : ∀ tag, n.item ≠ .mappingStart tag) :
    Behind d items n.outer := behind_of_skipValue (skipValue_of_next h hs hm)

theorem behind_of_scalar {n : Node} {s : Scalar} (h : d.next items = .ok n)
    (hs : n.item = .scalar s) : Behind d items n.outer :=
  behind_of_next h (fun _ ht => nomatch hs.symm.trans ht) (fun _ ht => nomatch hs.symm.trans ht)

theorem readText_eq_ok {expected : String} {path : Path} {text : String}
    (h : readText d expected path items = .ok (text, rest)) :
    d.TextAt items text ∧ Behind d items rest ∧ ∃ i, items = i :: rest := by
  unfold readText at h
  split at h
  · exact nomatch h
  · rename_i n hn
    split at h
    · rename_i s hs
      obtain ⟨rfl, rfl⟩ := Prod.mk.inj (Except.ok.inj h)
      exact ⟨⟨n, s, hn, hs, rfl⟩, behind_of_scalar hn hs, outer_of_next hn⟩
    · exact nomatch h

theorem unsigned?_le {limit k : Nat} {cs : List Char} (h : unsigned? limit cs = some k) :
    k ≤ limit := by
  have hread : ∀ {base ds}, (Numeral.readUnsigned base limit ds).toOption = some k → k ≤ limit := by
    intro base ds hd
    cases hr : Numeral.readUnsigned base limit ds with
    | error f => rw [hr] at hd; exact nomatch hd
    | ok n =>
      rw [hr] at hd
      exact Option.some.inj hd ▸ Numeral.readUnsigned_le hr
  unfold unsigned? at h
  dsimp only at h
  generalize (if cs.head? = some '+' then cs.drop 1 else cs) = body at h
  split at h
  · split at h
    · exact nomatch h
    · exact hread h
  · split at h
    · exact nomatch h
    · exact hread h

theorem Scalar.spellsInteger_iff {s : Scalar} : s.spellsInteger = true ↔
    s.style = .plain ∨ s.style = .literal ∧ s.tag = some (standardTag "int") := by
  simp only [Scalar.spellsInteger, Bool.or_eq_true, Bool.and_eq_true, decide_eq_true_eq]

theorem readWord_eq_ok {path : Path} {word : UInt64}
    (h : readWord d path items = .ok (word, rest)) :
    d.WordAt items word ∧ Behind d items rest := by
  unfold readWord at h
  split at h
  · exact nomatch h
  · rename_i n hn
    dsimp only at h
    split at h
    · rename_i s hs
      split at h
      · rename_i hspells
        split at h
        · rename_i k hk
          obtain ⟨rfl, rfl⟩ := Prod.mk.inj (Except.ok.inj h)
          have hword : (UInt64.ofNat k).toNat = k :=
            UInt64.toNat_ofNat_of_lt' (Nat.lt_succ_of_le (unsigned?_le hk))
          exact ⟨⟨n, s, hn, hs, Scalar.spellsInteger_iff.1 hspells, by rw [hword]; exact hk⟩,
            behind_of_scalar hn hs⟩
        · exact nomatch h
      · exact nomatch h
    · exact nomatch h

theorem once_eq_ok {α σ : Type} {key : String} {old : Option α} {read : Outcome α} {put : α → σ}
    {made : σ} (h : once key old read put = .ok (made, rest)) :
    old = none ∧ ∃ v, read = .ok (v, rest) ∧ made = put v := by
  unfold once at h
  split at h
  · exact nomatch h
  · rename_i hold
    split at h
    · exact nomatch h
    · rename_i v _
      obtain ⟨rfl, rfl⟩ := Prod.mk.inj (Except.ok.inj h)
      exact ⟨Option.not_isSome_iff_eq_none.1 hold, v, rfl, rfl⟩

theorem skipped_eq_ok {σ : Type} {acc made : σ} (h : skipped d acc items = .ok (made, rest)) :
    made = acc ∧ Behind d items rest := by
  unfold skipped at h
  cases hskip : skipValue d items with
  | error e => rw [hskip] at h; exact nomatch h
  | ok after =>
    rw [hskip] at h
    obtain ⟨rfl, rfl⟩ := Prod.mk.inj (Except.ok.inj h)
    exact ⟨rfl, behind_of_skipValue hskip⟩

theorem readChoice_eq_ok {α : Type} {choices : List String} {ofName? : String → Option α}
    {path : Path} {choice : α} (h : readChoice d choices ofName? path items = .ok (choice, rest)) :
    d.ChoiceAt ofName? items choice ∧ Behind d items rest := by
  unfold readChoice at h
  split at h
  · exact nomatch h
  · rename_i n hn
    split at h
    · rename_i tag htag
      split at h
      · exact nomatch h
      · rename_i v hv
        split at h
        · rename_i hnothing
          obtain ⟨rfl, rfl⟩ := Prod.mk.inj (Except.ok.inj h)
          refine ⟨⟨n, hn, .inl ⟨tag, htag, hv, hnothing⟩⟩, behind_of_next hn ?_ ?_⟩
          · intro t ht
            rw [ht] at hnothing
            exact nomatch hnothing
          · intro t ht
            rw [ht] at hnothing
            exact nomatch hnothing
        · exact nomatch h
    · rename_i htag
      unfold placed at h
      split at h
      · rename_i s hs
        split at h
        · rename_i v hv
          obtain ⟨rfl, rfl⟩ := Prod.mk.inj (Except.ok.inj h)
          exact ⟨⟨n, hn, .inr ⟨s, htag, hs, hv⟩⟩, behind_of_scalar hn hs⟩
        · exact nomatch h
      · exact nomatch h

section Mapping

variable {σ : Type} {step : σ → String → Path → Items → Outcome σ}
  {Made : List (String × Items) → σ → Prop}

theorem members_of_foldMembers {path : Path}
    (hstep : ∀ {before acc key path value acc' rest}, Made before acc → value <:+ d.items →
      step acc key path value = .ok (acc', rest) →
        Made (before ++ [(key, value)]) acc' ∧ Behind d value rest)
    {fuel : Nat} (hfuel : items.length < fuel) (hitems : items <:+ d.items)
    {before : List (String × Items)} {acc acc' : σ} (hacc : Made before acc)
    (h : foldMembers d path step fuel acc items = .ok (acc', rest)) :
    ∃ ms, Members d items ms rest ∧ Made (before ++ ms) acc' ∧ rest <:+ items := by
  -- A member has at least its key before it, so the fuel outlasts what is left of the document.
  induction fuel generalizing items before acc with
  | zero => exact absurd hfuel (Nat.not_lt_zero _)
  | succ fuel ih =>
    unfold foldMembers at h
    split at h
    · obtain ⟨rfl, rfl⟩ := Prod.mk.inj (Except.ok.inj h)
      exact ⟨[], .done, by rw [List.append_nil]; exact hacc, List.suffix_cons _ _⟩
    · split at h
      · exact nomatch h
      · rename_i key value hkey
        split at h
        · exact nomatch h
        · rename_i made after hmade
          obtain ⟨htext, -, i, rfl⟩ := readText_eq_ok hkey
          have hvalue : value <:+ d.items := (List.suffix_cons i value).trans hitems
          obtain ⟨hnext, hpass, hafter⟩ := hstep hacc hvalue hmade
          have hlength := hafter.length_le
          rw [List.length_cons] at hfuel
          obtain ⟨ms, hms, hall, hrest⟩ := ih (by omega) (hafter.trans hvalue) hnext h
          rw [List.append_assoc] at hall
          exact ⟨(key, value) :: ms, .more htext hpass hms, hall,
            (hrest.trans hafter).trans (List.suffix_cons i value)⟩

theorem placed_eq_ok {α : Type} {m : Mark} {path : Path} {r : Except Trouble α} {v : α} :
    placed m path r = .ok v ↔ r = .ok v := by
  rw [placed, mapError_eq_ok]

theorem behind_of_members {n : Node} {tag : Option Text.Bytes} {ms : List (String × Items)}
    {last : Items} (hitems : items <:+ d.items) (hn : d.next items = .ok n)
    (hm : n.item = .mappingStart tag) (hms : Members d n.inner ms last)
    (hlast : last <:+ n.inner) :
    Behind d items (if n.inner.length = n.outer.length then last else n.outer) := by
  rcases next_cases hn with ⟨hi, hinner⟩ | ⟨k, m, hi, hanchor⟩
  · rw [if_pos (by rw [hinner])]
    rw [hm, ← hinner] at hi
    rw [hi]
    exact ⟨.mapping hms, hlast.trans (List.suffix_cons _ _)⟩
  · have hlength : n.inner.length ≠ n.outer.length := by
      intro hlength
      rcases hanchor with hanchor | ⟨halias, -⟩
      · -- What is behind the anchor is longer than what is behind the alias, or is the same.
        have hsame : (n.item, n.mark) :: n.inner = (.alias k, m) :: n.outer := by
          rw [← hi]
          have hl : ((n.item, n.mark) :: n.inner).length = items.length := by
            rw [hi, List.length_cons, List.length_cons, hlength]
          exact (List.suffix_of_suffix_length_le hanchor hitems (Nat.le_of_eq hl)).eq_of_length hl
        have hitem := congrArg Prod.fst (List.cons.inj hsame).1
        exact nomatch hm.symm.trans hitem
      · exact nomatch hm.symm.trans halias
    rw [if_neg hlength, hi]
    exact behind_of_skipValue rfl

theorem mapping_of_readMapping {expected : String} {start acc : σ} {path : Path}
    (hstep : ∀ {before acc key path value acc' rest}, Made before acc → value <:+ d.items →
      step acc key path value = .ok (acc', rest) →
        Made (before ++ [(key, value)]) acc' ∧ Behind d value rest)
    (hitems : items <:+ d.items) (hstart : Made [] start)
    (h : readMapping d expected start path step items = .ok (acc, rest)) :
    ∃ ms, d.MappingAt items ms ∧ Made ms acc ∧ Behind d items rest := by
  unfold readMapping at h
  split at h
  · exact nomatch h
  · rename_i n hn
    rw [placed_eq_ok] at h
    split at h
    · rename_i tag hm
      split at h
      · exact nomatch h
      · rename_i made last hfold
        obtain ⟨rfl, rfl⟩ := Prod.mk.inj (Except.ok.inj h)
        obtain ⟨ms, hms, hmade, hlast⟩ := members_of_foldMembers hstep (Nat.lt_succ_self _)
          (inner_of_next hn hitems) hstart hfold
        exact ⟨ms, .members hn hm hms, hmade, behind_of_members hitems hn hm hms hlast⟩
    · rename_i hvoid
      obtain ⟨rfl, rfl⟩ := Prod.mk.inj (Except.ok.inj h)
      refine ⟨[], .void hn hvoid, hstart, behind_of_next hn ?_ ?_⟩
      · exact fun _ ht => nomatch hvoid.symm.trans ht
      · exact fun _ ht => nomatch hvoid.symm.trans ht
    · rename_i s hs
      split at h
      · rename_i hempty
        obtain ⟨rfl, rfl⟩ := Prod.mk.inj (Except.ok.inj h)
        exact ⟨[], .empty hn hs (List.isEmpty_iff.1 hempty.1) hempty.2, hstart,
          behind_of_scalar hn hs⟩
      · exact nomatch h
    · exact nomatch h

end Mapping

/-- What members say under a key: nothing if it does not come, and what stands there if it comes,
which it does once. -/
structure Told {α : Type} (At : Items → α → Prop) (key : String) (ms : List (String × Items))
    (v : Option α) : Prop where
  value : Option.Rel At (ms.lookup key) v
  once : (ms.map Prod.fst).count key ≤ 1

section Told

variable {α : Type} {At : Items → α → Prop} {key : String} {ms : List (String × Items)}

theorem told_nil : Told At key [] none := ⟨.none, Nat.zero_le 1⟩

theorem Told.other {v : Option α} (h : Told At key ms v) {k : String} (hk : k ≠ key)
    (items : Items) : Told At key (ms ++ [(k, items)]) v := by
  have hlookup : (ms ++ [(k, items)]).lookup key = ms.lookup key := by
    rw [List.lookup_append, List.lookup_cons, beq_eq_false_iff_ne.2 hk.symm, List.lookup_nil,
      Option.or_none]
  have hcount : ((ms ++ [(k, items)]).map Prod.fst).count key = (ms.map Prod.fst).count key := by
    rw [List.map_append, List.count_append, List.map_singleton, List.count_singleton,
      beq_eq_false_iff_ne.2 hk]
    rfl
  exact ⟨hlookup ▸ h.value, hcount ▸ h.once⟩

theorem Told.new (h : Told At key ms none) {v : α} (hv : At items v) :
    Told At key (ms ++ [(key, items)]) (some v) := by
  have hnone : ms.lookup key = none := by
    have hvalue := h.value
    generalize ms.lookup key = found at hvalue
    cases hvalue
    rfl
  have hlookup : (ms ++ [(key, items)]).lookup key = some items := by
    rw [List.lookup_append, hnone, List.lookup_cons_self, Option.none_or]
  have hcount : (ms.map Prod.fst).count key = 0 := by
    rw [List.count_eq_zero]
    intro hm
    obtain ⟨e, he, hkey⟩ := List.mem_map.1 hm
    rw [List.lookup_eq_none_iff] at hnone
    exact bne_iff_ne.1 (hnone e he) hkey.symm
  refine ⟨hlookup ▸ .some hv, ?_⟩
  rw [List.map_append, List.count_append, hcount, Nat.zero_add]
  exact List.count_le_length (a := key)

end Told

theorem readDocument_eq_ok {α : Type} {read : Document → Items → Outcome α} {text : String} {v : α}
    (h : readDocument read text = .ok v) : ∃ rest,
      read (load text.toList).document (load text.toList).document.items = .ok (v, rest) := by
  unfold readDocument at h
  dsimp only at h
  split at h
  · exact nomatch h
  · rename_i v' rest hread
    split at h
    · exact nomatch h
    · split at h
      · exact nomatch h
      · exact ⟨rest, by rw [hread, Except.ok.inj h]⟩

end EventPost.Yaml
