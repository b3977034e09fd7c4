/-!
Tables with one value per key, in the order in which the keys were first put in. A later value for a
key takes the earlier one's place.
-/

namespace EventPost

variable {α : Type}

def putEntry (key : String) (value : α) : List (String × α) → List (String × α)
  | [] => [(key, value)]
  | (k, v) :: rest => if k = key then (key, value) :: rest else (k, v) :: putEntry key value rest

def keysOf (entries : List (String × α)) : List String := entries.map Prod.fst

theorem mem_keysOf_putEntry {key k : String} {value : α} {entries : List (String × α)} :
    k ∈ keysOf (putEntry key value entries) ↔ k = key ∨ k ∈ keysOf entries := by
  induction entries with
  | nil => simp [putEntry, keysOf]
  | cons e rest ih =>
    obtain ⟨k', v⟩ := e
    by_cases h : k' = key
    · simp only [putEntry, h, if_true, keysOf, List.map_cons, List.mem_cons]
      constructor
      · intro m; exact Or.inr m
      · rintro (m | m)
        · exact Or.inl m
        · exact m
    · simp only [putEntry, h, if_false, keysOf, List.map_cons, List.mem_cons]
      rw [show k ∈ (putEntry key value rest).map Prod.fst ↔ k = key ∨ k ∈ rest.map Prod.fst from ih]
      constructor
      · rintro (m | m | m)
        · exact Or.inr (Or.inl m)
        · exact Or.inl m
        · exact Or.inr (Or.inr m)
      · rintro (m | m | m)
        · exact Or.inr (Or.inl m)
        · exact Or.inl m
        · exact Or.inr (Or.inr m)

theorem nodup_keysOf_putEntry {key : String} {value : α} {entries : List (String × α)}
    (h : (keysOf entries).Nodup) : (keysOf (putEntry key value entries)).Nodup := by
  induction entries with
  | nil => simp [putEntry, keysOf]
  | cons e rest ih =>
    obtain ⟨k', v⟩ := e
    simp only [keysOf, List.map_cons, List.nodup_cons] at h
    by_cases hk : k' = key
    · subst hk
      simpa [putEntry, keysOf] using h
    · simp only [putEntry, hk, if_false, keysOf, List.map_cons, List.nodup_cons]
      refine ⟨fun m => ?_, ih h.2⟩
      rcases mem_keysOf_putEntry.1 m with m | m
      · exact hk m
      · exact h.1 m

/-- Distinct keys, in order of first insertion. -/
structure Table (α : Type) where
  entries : List (String × α)
  distinct : (keysOf entries).Nodup

namespace Table

def empty : Table α := ⟨[], by simp [keysOf]⟩

def insert (t : Table α) (key : String) (value : α) : Table α :=
  ⟨putEntry key value t.entries, nodup_keysOf_putEntry t.distinct⟩

def insertAll (t : Table α) (entries : List (String × α)) : Table α :=
  entries.foldl (fun t e => t.insert e.1 e.2) t

def ofList (entries : List (String × α)) : Table α := empty.insertAll entries

def keys (t : Table α) : List String := keysOf t.entries

def filterKeys (p : String → Bool) (t : Table α) : Table α :=
  ⟨t.entries.filter fun e => p e.1,
    ((List.filter_sublist).map Prod.fst).nodup t.distinct⟩

def get? (t : Table α) (key : String) : Option α := t.entries.lookup key

theorem keys_filterKeys (p : String → Bool) (t : Table α) :
    (t.filterKeys p).keys = t.keys.filter p := by
  simp only [keys, keysOf, filterKeys, List.filter_map]
  rfl

end Table

end EventPost
