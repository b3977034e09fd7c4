import EventPost.Proofs.Event.RoundTrip
import EventPost.Proofs.Json.Nested

/-!
Which order shows in the text of an event. Members that are put together to an object are arranged
by their keys, so the order in which they come is lost; entries that become fields of their own stand
in the text as they were put.
-/

namespace EventPost

open Text (bytesOf)

/-- The entries give the same keys, and each the same last value. -/
def Agree (xs ys : List (String × Json)) : Prop :=
  ∀ k, xs.reverse.lookup k = ys.reverse.lookup k

theorem Agree.eq_nil {xs ys : List (String × Json)} (h : Agree xs ys) : xs = [] ↔ ys = [] := by
  have hnone : ∀ {xs ys : List (String × Json)}, Agree xs ys → xs = [] → ys = [] := by
    rintro xs ys h rfl
    by_contra hys
    obtain ⟨e, he⟩ := List.exists_mem_of_ne_nil _ (List.reverse_eq_nil_iff.not.2 hys)
    obtain ⟨v, hv⟩ := mem_keysOf_iff_lookup.1 (List.mem_map_of_mem he)
    rw [← h e.1] at hv
    cases hv
  exact ⟨hnone h, hnone fun k => (h k).symm⟩

theorem eq_of_keysOf {all xs ys : List (String × Json)} (hdistinct : (keysOf all).Nodup)
    (hxs : ∀ e ∈ xs, e ∈ all) (hys : ∀ e ∈ ys, e ∈ all) (h : keysOf xs = keysOf ys) : xs = ys := by
  induction xs generalizing ys with
  | nil => exact (List.map_eq_nil_iff.1 h.symm).symm
  | cons x xs ih =>
    obtain ⟨y, ys, rfl, hkey, hkeys⟩ := List.map_eq_cons_iff.1 h.symm
    obtain ⟨hx, hxs⟩ := List.forall_mem_cons.1 hxs
    obtain ⟨hy, hys⟩ := List.forall_mem_cons.1 hys
    rw [List.inj_on_of_nodup_map hdistinct hx hy hkey.symm, ih hxs hys hkeys.symm]

namespace Json

theorem ofMembers_eq_iff {xs ys : List (String × Json)} :
    ofMembers xs = ofMembers ys ↔ Agree xs ys := by
  obtain ⟨ms, hms, hordered, hlookup⟩ := ofMembers_spec xs
  obtain ⟨ms', hms', hordered', hlookup'⟩ := ofMembers_spec ys
  rw [hms, hms', Json.object.injEq]
  constructor
  · rintro rfl k
    rw [← hlookup, ← hlookup']
  · intro h
    refine eq_of_lookup hordered hordered' fun k => ?_
    rw [hlookup, hlookup', h k]

/-- The values that can be made: an object comes of members in any order, of which the last of a key
counts. -/
inductive Made : Json → Prop
  | null : Made .null
  | boolean (b : Bool) : Made (.boolean b)
  | number (n : Number) : Made (.number n)
  | text (s : String) : Made (.text s)
  | list {vs : List Json} : (∀ v ∈ vs, Made v) → Made (.list vs)
  | object {members : List (String × Json)} : (∀ k v, (k, v) ∈ members → Made v) →
    Made (ofMembers members)

theorem Made.ordered {v : Json} (h : v.Made) : v.Ordered := by
  induction h with
  | null => exact ordered_null
  | boolean b => exact ordered_boolean b
  | number n => exact ordered_number n
  | text s => exact ordered_text s
  | list _ ih => exact ordered_list.2 ih
  | object _ ih => exact ordered_ofMembers ih

mutual
theorem Ordered.made {v : Json} (h : v.Ordered) : v.Made :=
  match v with
  | .null => .null
  | .boolean b => .boolean b
  | .number n => .number n
  | .text s => .text s
  | .list vs => .list (made_items vs (ordered_list.1 h))
  | .object ms => ofMembers_of_pairwise (ordered_object.1 h).1 ▸
    .object fun k v hv => made_members ms (fun e he => (ordered_object.1 h).2 e.1 e.2 he) (k, v) hv

theorem made_items (vs : List Json) (h : ∀ v ∈ vs, v.Ordered) : ∀ v ∈ vs, v.Made :=
  match vs with
  | [] => fun _ hv => absurd hv List.not_mem_nil
  | v :: vs => List.forall_mem_cons.2
    ⟨(h v List.mem_cons_self).made, made_items vs fun w hw => h w (List.mem_cons_of_mem v hw)⟩

theorem made_members (ms : List (String × Json)) (h : ∀ e ∈ ms, e.2.Ordered) :
    ∀ e ∈ ms, e.2.Made :=
  match ms with
  | [] => fun _ he => absurd he List.not_mem_nil
  | (k, v) :: ms => List.forall_mem_cons.2
    ⟨(h (k, v) List.mem_cons_self).made, made_members ms fun e he => h e (List.mem_cons_of_mem _ he)⟩
end

theorem made_iff {v : Json} : v.Made ↔ v.Ordered := ⟨Made.ordered, Ordered.made⟩

end Json

theorem Notification.withMetadata_eq {xs ys : List (String × Json)} (h : Agree xs ys)
    (n : Notification) : n.withMetadata xs = n.withMetadata ys := by
  rw [withMetadata, withMetadata, Json.ofMembers_eq_iff.2 h]

namespace Event

/-- In each value in the text of the event, every object has its names in the order of their bytes,
each of them once. -/
def Ascending (e : Event) : Prop :=
  ∃ ms, Json.IsObject Json.IsNumber (bytesOf e.encode) ms ∧ ∀ m ∈ ms, Json.Ascending m.2

theorem ascending_of_ordered {e : Event} (h : ∀ k v, (k, v) ∈ e.fields.entries → v.Ordered) :
    e.Ascending := by
  refine ⟨_, isObject_encode e, fun m hm => ?_⟩
  obtain ⟨⟨k, v⟩, hkv, rfl⟩ := List.mem_map.1 hm
  refine Json.Ordered.ascending ?_
  rcases List.mem_append.1 hkv with hcore | hfield
  · simp only [core, List.mem_cons, Prod.mk.injEq, List.not_mem_nil, or_false] at hcore
    rcases hcore with ⟨-, rfl⟩ | ⟨-, rfl⟩ | ⟨-, rfl⟩ | ⟨-, rfl⟩ | ⟨-, rfl⟩ | ⟨-, rfl⟩ <;>
    exact Json.ordered_text _
  · exact h k v hfield

variable {n : Notification} {xs ys : List (String × Json)}

theorem members_withFields (hdistinct : (keysOf xs).Nodup)
    (hnew : ∀ k ∈ keysOf xs, k ∉ coreFields ∧ k ∉ n.fields.keys) (stamp : Stamp) :
    (ofNotification (n.withFields xs) stamp).members = (ofNotification n stamp).members ++ xs := by
  have hnodup : (keysOf (n.fields.entries ++ xs)).Nodup := by
    rw [keysOf_append]
    refine List.nodup_append.2 ⟨n.fields.distinct, hdistinct, ?_⟩
    rintro k hk k' hk' rfl
    exact (hnew k hk').2 hk
  have hkept : xs.filter (fun e => !isReserved e.1) = xs := by
    refine List.filter_eq_self.2 fun e he => ?_
    have hcore := (hnew e.1 (List.mem_map_of_mem he)).1
    rw [← isReserved_iff] at hcore
    simpa using hcore
  have hentries : (n.fields.insertAll xs).entries.filter (fun e => !isReserved e.1) =
      n.fields.entries.filter (fun e => !isReserved e.1) ++ xs := by
    rw [Table.entries_insertAll hnodup, List.filter_append, hkept]
  change (ofNotification n stamp).core ++ (n.fields.insertAll xs).entries.filter _ = _
  rw [hentries, ← List.append_assoc]
  rfl

theorem encode_withFields_iff (hperm : xs.Perm ys) (hdistinct : (keysOf xs).Nodup)
    (hnew : ∀ k ∈ keysOf xs, k ∉ coreFields ∧ k ∉ n.fields.keys) (stamp : Stamp) :
    (ofNotification (n.withFields xs) stamp).encode = (ofNotification (n.withFields ys) stamp).encode ↔
      xs = ys := by
  have hkeys : (keysOf xs).Perm (keysOf ys) := hperm.map Prod.fst
  constructor
  · intro h
    have hobject := isObject_encode (ofNotification (n.withFields xs) stamp)
    rw [h] at hobject
    have hmembers := hobject.unique (isObject_encode (ofNotification (n.withFields ys) stamp))
    rw [members_withFields hdistinct hnew, members_withFields (hkeys.nodup_iff.1 hdistinct)
      (fun k hk => hnew k (hkeys.mem_iff.2 hk)), Json.writtenMembers, Json.writtenMembers,
      List.map_append, List.map_append] at hmembers
    have hnames := congrArg (List.map Prod.fst) (List.append_cancel_left hmembers)
    rw [List.map_map, List.map_map] at hnames
    exact eq_of_keysOf hdistinct (fun _ he => he) (fun _ he => hperm.mem_iff.2 he) hnames
  · rintro rfl
    rfl

end Event

end EventPost
