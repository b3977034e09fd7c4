import Mathlib.Data.List.Nodup
import EventPost.Json.Basic
import EventPost.Proofs.Table

/-!
The shape of a value: how deep its lists and objects nest, whether all numbers in it are integers,
and whether every object in it has its keys in order. A value that is put together from members
that come in any order has its keys in order.
-/

namespace EventPost.Json

/-- The value `w` is `v`, or is held by it at some depth. -/
inductive Within (w : Json) : Json → Prop
  | self : Within w w
  | item {v : Json} {vs : List Json} : v ∈ vs → Within w v → Within w (.list vs)
  | member {k : String} {v : Json} {ms : List (String × Json)} :
    (k, v) ∈ ms → Within w v → Within w (.object ms)

/-- Every number in the value is an integer. -/
def Integral (v : Json) : Prop := ∀ x, ¬Within (.number (.real x)) v

/-- Every object in the value has its keys in order, each of them once. -/
def Ordered (v : Json) : Prop := ∀ ms, Within (.object ms) v → (keysOf ms).Pairwise (· < ·)

mutual
def height : Json → Nat
  | .list vs => heightOfItems vs + 1
  | .object ms => heightOfMembers ms + 1
  | _ => 0

def heightOfItems : List Json → Nat
  | [] => 0
  | v :: vs => max (height v) (heightOfItems vs)

def heightOfMembers : List (String × Json) → Nat
  | [] => 0
  | (_, v) :: ms => max (height v) (heightOfMembers ms)
end

theorem integral_list {vs : List Json} : (Json.list vs).Integral ↔ ∀ v ∈ vs, v.Integral := by
  constructor
  · intro h v hv x hx
    exact h x (.item hv hx)
  · intro h x hx
    cases hx with
    | item hv hx => exact h _ hv x hx

theorem integral_object {ms : List (String × Json)} :
    (Json.object ms).Integral ↔ ∀ k v, (k, v) ∈ ms → v.Integral := by
  constructor
  · intro h k v hv x hx
    exact h x (.member hv hx)
  · intro h x hx
    cases hx with
    | member hv hx => exact h _ _ hv x hx

theorem ordered_list {vs : List Json} : (Json.list vs).Ordered ↔ ∀ v ∈ vs, v.Ordered := by
  constructor
  · intro h v hv ms hms
    exact h ms (.item hv hms)
  · intro h ms hms
    cases hms with
    | item hv hms => exact h _ hv ms hms

theorem ordered_object {ms : List (String × Json)} : (Json.object ms).Ordered ↔
    (keysOf ms).Pairwise (· < ·) ∧ ∀ k v, (k, v) ∈ ms → v.Ordered := by
  constructor
  · intro h
    exact ⟨h ms .self, fun k v hv inner hinner => h inner (.member hv hinner)⟩
  · rintro ⟨hkeys, h⟩ inner hinner
    cases hinner with
    | self => exact hkeys
    | member hv hinner => exact h _ _ hv inner hinner

theorem integral_text (s : String) : (Json.text s).Integral := by
  rintro x ⟨⟩

theorem integral_integer {i : Int} (h : Fits i) :
    (Json.number (.integer i h)).Integral := by
  rintro x ⟨⟩

theorem integral_boolean (b : Bool) : (Json.boolean b).Integral := by
  rintro x ⟨⟩

theorem integral_null : Json.null.Integral := by
  rintro x ⟨⟩

theorem ordered_text (s : String) : (Json.text s).Ordered := by
  rintro ms ⟨⟩

theorem ordered_boolean (b : Bool) : (Json.boolean b).Ordered := by
  rintro ms ⟨⟩

theorem ordered_null : Json.null.Ordered := by
  rintro ms ⟨⟩

theorem ordered_number (n : Number) : (Json.number n).Ordered := by
  rintro ms ⟨⟩

theorem height_item_le {v : Json} {vs : List Json} (h : v ∈ vs) : v.height ≤ heightOfItems vs := by
  induction vs with
  | nil => exact absurd h List.not_mem_nil
  | cons w vs ih =>
    rw [heightOfItems]
    rcases List.mem_cons.1 h with rfl | h
    · exact Nat.le_max_left _ _
    · exact Nat.le_trans (ih h) (Nat.le_max_right _ _)

theorem height_member_le {k : String} {v : Json} {ms : List (String × Json)} (h : (k, v) ∈ ms) :
    v.height ≤ heightOfMembers ms := by
  induction ms with
  | nil => exact absurd h List.not_mem_nil
  | cons m ms ih =>
    rw [heightOfMembers]
    rcases List.mem_cons.1 h with rfl | h
    · exact Nat.le_max_left _ _
    · exact Nat.le_trans (ih h) (Nat.le_max_right _ _)

theorem heightOfItems_le {vs : List Json} {n : Nat} (h : ∀ v ∈ vs, v.height ≤ n) :
    heightOfItems vs ≤ n := by
  induction vs with
  | nil => exact Nat.zero_le n
  | cons v vs ih =>
    rw [heightOfItems]
    exact Nat.max_le.2 ⟨h v List.mem_cons_self, ih fun w hw => h w (List.mem_cons_of_mem v hw)⟩

theorem heightOfMembers_le {ms : List (String × Json)} {n : Nat} (h : ∀ e ∈ ms, e.2.height ≤ n) :
    heightOfMembers ms ≤ n := by
  induction ms with
  | nil => exact Nat.zero_le n
  | cons e ms ih =>
    rw [heightOfMembers]
    exact Nat.max_le.2 ⟨h e List.mem_cons_self, ih fun f hf => h f (List.mem_cons_of_mem e hf)⟩

theorem mem_putMember {key : String} {value : Json} {ms : List (String × Json)}
    {e : String × Json} (h : e ∈ putMember key value ms) : e = (key, value) ∨ e ∈ ms := by
  induction ms with
  | nil => exact .inl (List.mem_singleton.1 h)
  | cons m ms ih =>
    obtain ⟨k, v⟩ := m
    unfold putMember at h
    split at h
    · rcases List.mem_cons.1 h with h | h
      · exact .inl h
      · exact .inr (List.mem_cons_of_mem _ h)
    · split at h
      · exact List.mem_cons.1 h
      · rcases List.mem_cons.1 h with rfl | h
        · exact .inr List.mem_cons_self
        · rcases ih h with h | h
          · exact .inl h
          · exact .inr (List.mem_cons_of_mem _ h)

theorem mem_keysOf_putMember {key k : String} {value : Json} {ms : List (String × Json)}
    (h : k ∈ keysOf (putMember key value ms)) : k = key ∨ k ∈ keysOf ms := by
  obtain ⟨e, he, rfl⟩ := List.mem_map.1 h
  rcases mem_putMember he with rfl | he
  · exact .inl rfl
  · exact .inr (List.mem_map_of_mem he)

theorem pairwise_putMember {key : String} {value : Json} {ms : List (String × Json)}
    (h : (keysOf ms).Pairwise (· < ·)) : (keysOf (putMember key value ms)).Pairwise (· < ·) := by
  induction ms with
  | nil => exact List.pairwise_singleton _ _
  | cons m ms ih =>
    obtain ⟨k, v⟩ := m
    obtain ⟨hk, hms⟩ := List.pairwise_cons.1 h
    unfold putMember
    split
    · rename_i heq
      exact heq ▸ h
    · rename_i hne
      split
      · rename_i hlt
        refine List.pairwise_cons.2 ⟨?_, h⟩
        intro other hother
        rcases List.mem_cons.1 hother with rfl | hother
        · exact hlt
        · exact String.lt_trans hlt (hk other hother)
      · rename_i hnlt
        refine List.pairwise_cons.2 ⟨?_, ih hms⟩
        intro other hother
        rcases mem_keysOf_putMember hother with rfl | hother
        · exact Std.lt_of_le_of_ne (Std.not_lt.1 hnlt) (Ne.symm hne)
        · exact hk other hother

theorem ordered_ofMembers {members : List (String × Json)}
    (h : ∀ k v, (k, v) ∈ members → v.Ordered) : (ofMembers members).Ordered := by
  have hput : ∀ (members ms : List (String × Json)), (Json.object ms).Ordered →
      (∀ k v, (k, v) ∈ members → v.Ordered) →
      (Json.object (members.foldl (fun ms e => putMember e.1 e.2 ms) ms)).Ordered := by
    intro members
    induction members with
    | nil => exact fun ms hms _ => hms
    | cons e members ih =>
      intro ms hms he
      rw [ordered_object] at hms
      refine ih _ (ordered_object.2 ⟨pairwise_putMember hms.1, ?_⟩)
        fun k v hv => he k v (List.mem_cons_of_mem _ hv)
      intro k v hv
      rcases mem_putMember hv with hv | hv
      · obtain ⟨rfl, rfl⟩ := Prod.mk.inj hv
        exact he e.1 e.2 List.mem_cons_self
      · exact hms.2 k v hv
  refine hput members [] (ordered_object.2 ⟨List.Pairwise.nil, ?_⟩) h
  intro k v hv
  exact absurd hv List.not_mem_nil

theorem lookup_putMember (key k : String) (value : Json) (ms : List (String × Json)) :
    (putMember key value ms).lookup k = if k = key then some value else ms.lookup k := by
  induction ms with
  | nil => exact lookup_cons_eq k key value []
  | cons m ms ih =>
    obtain ⟨k', v⟩ := m
    by_cases heq : key = k'
    · subst heq
      by_cases hk : k = key <;> simp [putMember, lookup_cons_eq, hk]
    · by_cases hlt : key < k'
      · simp [putMember, heq, hlt, lookup_cons_eq]
      · by_cases hk : k = key
        · subst hk
          simp [putMember, heq, hlt, lookup_cons_eq, ih]
        · simp [putMember, heq, hlt, lookup_cons_eq, ih, hk]

theorem lookup_putMembers (members ms : List (String × Json)) (k : String) :
    (members.foldl (fun ms e => putMember e.1 e.2 ms) ms).lookup k =
      (members.reverse.lookup k).or (ms.lookup k) := by
  induction members generalizing ms with
  | nil => rfl
  | cons e members ih =>
    obtain ⟨key, value⟩ := e
    rw [List.foldl_cons, ih, lookup_putMember, List.reverse_cons, List.lookup_append,
      lookup_cons_eq]
    by_cases h : k = key
    · cases members.reverse.lookup k <;> simp [h]
    · simp [h]

theorem pairwise_putMembers (members : List (String × Json)) {ms : List (String × Json)}
    (h : (keysOf ms).Pairwise (· < ·)) :
    (keysOf (members.foldl (fun ms e => putMember e.1 e.2 ms) ms)).Pairwise (· < ·) := by
  induction members generalizing ms with
  | nil => exact h
  | cons e members ih => exact ih (pairwise_putMember h)

theorem ofMembers_spec (members : List (String × Json)) : ∃ ms, ofMembers members = .object ms ∧
    (keysOf ms).Pairwise (· < ·) ∧ ∀ k, ms.lookup k = members.reverse.lookup k := by
  refine ⟨_, rfl, pairwise_putMembers members List.Pairwise.nil, ?_⟩
  intro k
  simp [lookup_putMembers]

theorem eq_of_lookup {ms ms' : List (String × Json)} (h : (keysOf ms).Pairwise (· < ·))
    (h' : (keysOf ms').Pairwise (· < ·)) (hlookup : ∀ k, ms.lookup k = ms'.lookup k) : ms = ms' := by
  have hdistinct : ∀ {ms : List (String × Json)}, (keysOf ms).Pairwise (· < ·) → (keysOf ms).Nodup :=
    fun h => List.Pairwise.imp (S := (· ≠ ·)) (fun hlt heq => String.lt_irrefl _ (heq ▸ hlt)) h
  have hmem : ∀ {ms ms' : List (String × Json)}, (keysOf ms).Pairwise (· < ·) →
      (∀ k, ms.lookup k = ms'.lookup k) → ∀ e ∈ ms, e ∈ ms' :=
    fun h hlookup e he => mem_of_lookup (hlookup e.1 ▸ lookup_of_mem (hdistinct h) he)
  have hperm : ms.Perm ms' := by
    rw [List.perm_ext_iff_of_nodup (hdistinct h).of_map (hdistinct h').of_map]
    exact fun e => ⟨hmem h hlookup e, hmem h' (fun k => (hlookup k).symm) e⟩
  have hasymm : ∀ a b : String × Json, a ∈ ms → b ∈ ms' → a.1 < b.1 → b.1 < a.1 → a = b :=
    fun a b _ _ hab hba => absurd hba (String.lt_asymm hab)
  exact hperm.eq_of_pairwise hasymm (List.pairwise_map.1 h) (List.pairwise_map.1 h')

/-- The members in the order of their names, each name with the value that came last. -/
structure Arranged (members sorted : List (String × Json)) : Prop where
  ascending : (keysOf sorted).Pairwise (· < ·)
  last : ∀ k, sorted.lookup k = members.reverse.lookup k

theorem arranged_iff {members sorted : List (String × Json)} :
    Arranged members sorted ↔ ofMembers members = .object sorted := by
  obtain ⟨ms, hms, hascending, hlast⟩ := ofMembers_spec members
  rw [hms, Json.object.injEq]
  constructor
  · intro h
    exact eq_of_lookup hascending h.ascending fun k => (hlast k).trans (h.last k).symm
  · rintro rfl
    exact ⟨hascending, hlast⟩

theorem mem_of_ofMembers {members ms : List (String × Json)} (h : ofMembers members = .object ms)
    {e : String × Json} (he : e ∈ ms) : e ∈ members := by
  have hput : ∀ (members ms : List (String × Json)) (e : String × Json),
      e ∈ members.foldl (fun ms e => putMember e.1 e.2 ms) ms → e ∈ members ∨ e ∈ ms := by
    intro members
    induction members with
    | nil => exact fun ms e he => .inr he
    | cons m members ih =>
      intro ms e he
      rcases ih _ e he with he | he
      · exact .inl (List.mem_cons_of_mem _ he)
      · rcases mem_putMember he with rfl | he
        · exact .inl List.mem_cons_self
        · exact .inr he
  obtain rfl := Json.object.inj h
  exact (hput members [] e he).resolve_right List.not_mem_nil

theorem putMember_last {key : String} {value : Json} {ms : List (String × Json)}
    (h : ∀ k ∈ keysOf ms, k < key) : putMember key value ms = ms ++ [(key, value)] := by
  induction ms with
  | nil => rfl
  | cons m ms ih =>
    obtain ⟨k, v⟩ := m
    have hk : k < key := h k List.mem_cons_self
    have hne : key ≠ k := fun heq => String.lt_irrefl k (heq ▸ hk)
    rw [putMember, if_neg hne, if_neg (String.lt_asymm hk),
      ih fun other hother => h other (List.mem_cons_of_mem _ hother)]
    rfl

theorem ofMembers_of_pairwise {ms : List (String × Json)} (h : (keysOf ms).Pairwise (· < ·)) :
    ofMembers ms = .object ms := by
  have hput : ∀ (rest before : List (String × Json)),
      (keysOf (before ++ rest)).Pairwise (· < ·) →
      rest.foldl (fun ms e => putMember e.1 e.2 ms) before = before ++ rest := by
    intro rest
    induction rest with
    | nil => exact fun before _ => (List.append_nil before).symm
    | cons e rest ih =>
      intro before hp
      have hlast : ∀ k ∈ keysOf before, k < e.1 := by
        intro k hk
        rw [keysOf, List.map_append] at hp
        exact (List.pairwise_append.1 hp).2.2 k hk e.1 List.mem_cons_self
      rw [List.foldl_cons, putMember_last hlast, ih]
      · rw [List.append_assoc, List.singleton_append]
      · rw [List.append_assoc, List.singleton_append]
        exact hp
  rw [ofMembers, hput ms [] h, List.nil_append]

end EventPost.Json
