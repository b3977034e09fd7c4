import EventPost.Table

/-!
A table against the history of what was put into it: its keys are the keys ever put, in the order
of the first time, and each holds the last value put under it.
-/

namespace EventPost

variable {α : Type}

theorem keysOf_append (puts more : List (String × α)) :
    keysOf (puts ++ more) = keysOf puts ++ keysOf more :=
  List.map_append

theorem keysOf_putEntry (key : String) (value : α) (entries : List (String × α)) :
    keysOf (putEntry key value entries) =
      if key ∈ keysOf entries then keysOf entries else keysOf entries ++ [key] := by
  induction entries with
  | nil => rfl
  | cons e rest ih =>
    obtain ⟨k, v⟩ := e
    change keysOf (putEntry key value rest) = _ at ih
    by_cases h : k = key
    · simp [putEntry, keysOf, h]
    · have hne : ¬ key = k := fun hk => h hk.symm
      simp only [putEntry, h, if_false]
      change k :: keysOf (putEntry key value rest) =
        if key ∈ k :: keysOf rest then k :: keysOf rest else k :: keysOf rest ++ [key]
      rw [ih]
      by_cases hm : key ∈ keysOf rest <;> simp [hm, hne]

theorem putEntry_new {key : String} {value : α} {entries : List (String × α)}
    (h : key ∉ keysOf entries) : putEntry key value entries = entries ++ [(key, value)] := by
  induction entries with
  | nil => rfl
  | cons e rest ih =>
    have hne : e.1 ≠ key := fun he => h (he ▸ List.mem_cons_self)
    rw [putEntry, if_neg hne, ih fun hm => h (List.mem_cons_of_mem _ hm)]
    rfl

theorem lookup_cons_eq (k key : String) (value : α) (rest : List (String × α)) :
    List.lookup k ((key, value) :: rest) = if k = key then some value else rest.lookup k := by
  rw [List.lookup_cons]
  by_cases h : k = key
  · subst h
    simp
  · simp [beq_false_of_ne h, h]

theorem mem_of_lookup {k : String} {v : α} {entries : List (String × α)}
    (h : entries.lookup k = some v) : (k, v) ∈ entries := by
  induction entries with
  | nil => exact nomatch h
  | cons e rest ih =>
    obtain ⟨k', v'⟩ := e
    rw [lookup_cons_eq] at h
    split at h
    · rename_i hk
      rw [hk, Option.some.inj h]
      exact List.mem_cons_self
    · exact List.mem_cons_of_mem _ (ih h)

theorem lookup_of_mem {k : String} {v : α} {entries : List (String × α)}
    (h : (keysOf entries).Nodup) (hm : (k, v) ∈ entries) : entries.lookup k = some v := by
  induction entries with
  | nil => exact absurd hm List.not_mem_nil
  | cons e rest ih =>
    obtain ⟨k', v'⟩ := e
    obtain ⟨hnew, hrest⟩ := List.nodup_cons.1 h
    rw [lookup_cons_eq]
    rcases List.mem_cons.1 hm with he | hm
    · obtain ⟨rfl, rfl⟩ := Prod.mk.inj he
      exact if_pos rfl
    · have hkey : k ∈ keysOf rest := List.mem_map_of_mem hm
      have hne : k ≠ k' := fun hk => hnew (hk ▸ hkey)
      rw [if_neg hne]
      exact ih hrest hm

theorem mem_keysOf_iff_lookup {k : String} {entries : List (String × α)} :
    k ∈ keysOf entries ↔ ∃ v, entries.lookup k = some v := by
  constructor
  · intro h
    induction entries with
    | nil => exact absurd h List.not_mem_nil
    | cons e rest ih =>
      obtain ⟨k', v⟩ := e
      rw [lookup_cons_eq]
      by_cases hk : k = k'
      · exact ⟨v, if_pos hk⟩
      · rw [if_neg hk]
        exact ih ((List.mem_cons.1 h).resolve_left hk)
  · intro h
    obtain ⟨v, hv⟩ := h
    exact List.mem_map_of_mem (mem_of_lookup hv)

theorem filter_eq_lookup {entries : List (String × α)} (h : (keysOf entries).Nodup) (k : String) :
    (entries.filter fun e => e.1 = k).map Prod.snd = (entries.lookup k).toList := by
  induction entries with
  | nil => rfl
  | cons e rest ih =>
    obtain ⟨key, v⟩ := e
    obtain ⟨hnew, hrest⟩ := List.nodup_cons.1 h
    rw [lookup_cons_eq, List.filter_cons]
    by_cases hk : key = k
    · subst hk
      have hnone : rest.filter (fun e => e.1 = key) = [] := by
        rw [List.filter_eq_nil_iff]
        intro e he hkey
        have hmem : e.1 ∈ keysOf rest := List.mem_map_of_mem he
        exact hnew (of_decide_eq_true hkey ▸ hmem)
      simp [hnone]
    · rw [if_neg (by simpa using hk), if_neg (Ne.symm hk)]
      exact ih hrest

theorem keysOf_reverse (entries : List (String × α)) :
    keysOf entries.reverse = (keysOf entries).reverse :=
  List.map_reverse

theorem lookup_putEntry (key k : String) (value : α) (entries : List (String × α)) :
    (putEntry key value entries).lookup k =
      if k = key then some value else entries.lookup k := by
  induction entries with
  | nil => exact lookup_cons_eq k key value []
  | cons e rest ih =>
    obtain ⟨k', v⟩ := e
    by_cases h : k' = key
    · subst h
      simp only [putEntry, if_true, lookup_cons_eq]
      split <;> rfl
    · simp only [putEntry, h, if_false, lookup_cons_eq, ih]
      by_cases hk : k = k'
      · subst hk
        simp [h]
      · simp [hk]

namespace Table

theorem entries_insertAll {t : Table α} {more : List (String × α)}
    (h : (keysOf (t.entries ++ more)).Nodup) : (t.insertAll more).entries = t.entries ++ more := by
  induction more generalizing t with
  | nil => exact (List.append_nil t.entries).symm
  | cons e rest ih =>
    have hnew : e.1 ∉ keysOf t.entries := by
      rw [keysOf_append] at h
      exact fun hm => (List.nodup_append.1 h).2.2 e.1 hm e.1 List.mem_cons_self rfl
    have hput : (t.insert e.1 e.2).entries = t.entries ++ [e] := putEntry_new hnew
    have hsplit : t.entries ++ e :: rest = (t.insert e.1 e.2).entries ++ rest := by
      rw [hput, List.append_assoc]
      rfl
    rw [hsplit] at h ⊢
    exact ih h

theorem get?_filterKeys {p : String → Bool} {k : String} (h : p k = true) (t : Table α) :
    (t.filterKeys p).get? k = t.get? k := by
  change (t.entries.filter fun e => p e.1).lookup k = t.entries.lookup k
  induction t.entries with
  | nil => rfl
  | cons e rest ih =>
    obtain ⟨k', v⟩ := e
    by_cases hk : k = k'
    · subst hk
      simp [h]
    · by_cases hp : p k' = true <;> simp [hp, hk, lookup_cons_eq, ih]

theorem ofList_entries (t : Table α) : ofList t.entries = t := by
  have h : (ofList t.entries).entries = t.entries := by
    rw [ofList, entries_insertAll]
    · rfl
    · exact t.distinct
  cases t
  cases hl : ofList _
  rw [hl] at h
  simpa using h

/-- The table that a history of puts leaves behind. -/
structure Records (t : Table α) (puts : List (String × α)) : Prop where
  keys_put : ∀ k, k ∈ t.keys ↔ k ∈ keysOf puts
  first_place : t.keys.Pairwise fun a b => (keysOf puts).idxOf a < (keysOf puts).idxOf b
  last_value : ∀ k, t.get? k = puts.reverse.lookup k

theorem records_empty : (empty : Table α).Records [] :=
  ⟨fun _ => Iff.rfl, List.Pairwise.nil, fun _ => rfl⟩

theorem Records.insert {t : Table α} {puts : List (String × α)} (h : t.Records puts)
    (key : String) (value : α) : (t.insert key value).Records (puts ++ [(key, value)]) := by
  have hkeys : (t.insert key value).keys = if key ∈ t.keys then t.keys else t.keys ++ [key] :=
    keysOf_putEntry key value t.entries
  have hidx : ∀ k ∈ t.keys, (keysOf (puts ++ [(key, value)])).idxOf k = (keysOf puts).idxOf k := by
    intro k hk
    rw [keysOf_append, List.idxOf_append, if_pos ((h.keys_put k).1 hk)]
  have hfirst : t.keys.Pairwise fun a b =>
      (keysOf (puts ++ [(key, value)])).idxOf a < (keysOf (puts ++ [(key, value)])).idxOf b :=
    h.first_place.imp_of_mem fun {a b} ha hb hab => by rw [hidx a ha, hidx b hb]; exact hab
  refine ⟨fun k => ?_, ?_, fun k => ?_⟩
  · rw [keysOf_append, List.mem_append, ← h.keys_put k]
    change k ∈ keysOf (putEntry key value t.entries) ↔ k ∈ t.keys ∨ k ∈ [key]
    rw [mem_keysOf_putEntry, List.mem_singleton]
    exact Or.comm
  · rw [hkeys]
    split
    · exact hfirst
    · -- A key that is new stands behind all that were put before.
      rename_i hnew
      refine List.pairwise_append.2 ⟨hfirst, List.pairwise_singleton _ _, fun a ha b hb => ?_⟩
      rw [List.mem_singleton.1 hb, hidx a ha, keysOf_append, List.idxOf_append,
        if_neg fun hm => hnew ((h.keys_put key).2 hm)]
      exact Nat.lt_of_lt_of_le (List.idxOf_lt_length_of_mem ((h.keys_put a).1 ha))
        (Nat.le_add_left _ _)
  · change (putEntry key value t.entries).lookup k = _
    rw [lookup_putEntry, List.reverse_append, List.reverse_singleton, List.singleton_append,
      lookup_cons_eq, ← h.last_value k]
    rfl

theorem Records.insertAll {t : Table α} {puts : List (String × α)} (h : t.Records puts)
    (entries : List (String × α)) : (t.insertAll entries).Records (puts ++ entries) := by
  induction entries generalizing t puts with
  | nil => rw [List.append_nil]; exact h
  | cons e rest ih =>
    have hs := ih (h.insert e.1 e.2)
    rw [List.append_assoc, List.singleton_append] at hs
    exact hs

theorem Records.value {t : Table α} {puts : List (String × α)} (h : t.Records puts)
    {k : String} {v : α} (hm : (k, v) ∈ t.entries) : puts.reverse.lookup k = some v := by
  rw [← h.last_value k]
  exact lookup_of_mem t.distinct hm

end Table

end EventPost
