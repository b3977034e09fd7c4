import EventPost.Proofs.Event.Members
import EventPost.Proofs.Json.Shape
import EventPost.Proofs.Text.Order

/-!
What a JSON text holds. A list or an object has one list of values, so the texts nested in a text,
at whatever depth, are settled by its bytes; those in the text of a value are the texts of what the
value holds. Hence an order of the keys of a value is an order that its text shows.
-/

namespace EventPost.Json

open Text (Bytes bytesOf encode)

/-- The text is `inner`, or holds it at some depth. -/
inductive Nested (inner : Bytes) : Bytes → Prop
  | self : Nested inner inner
  | deeper {o : Open} {text value : Bytes} {values : List Bytes} :
    o.Holds IsNumber text values → value ∈ values → Nested inner value → Nested inner text

/-- In each object that the text holds, the names rise in the order of their bytes. -/
def Ascending (text : Bytes) : Prop :=
  ∀ inner ms, Nested inner text → IsObject IsNumber inner ms →
    (ms.map fun m => bytesOf m.1).Pairwise (· < ·)

variable {o : Open} {inner : Bytes}

theorem holds_list (vs : List Json) :
    Open.list.Holds IsNumber (encode (Json.list vs).write) (vs.map fun v => encode v.write) := by
  obtain ⟨inner, hrow, hwrite⟩ := row_written vs
  refine ⟨inner, _, hrow, List.forall₂_same.2 fun _ _ => rfl, fun value hvalue => ?_, hwrite⟩
  obtain ⟨v, -, rfl⟩ := List.mem_map.1 hvalue
  exact value_written v

theorem holds_object (ms : List (String × Json)) :
    Open.object.Holds IsNumber (encode (Json.object ms).write)
      (ms.map fun m => encode m.2.write) := by
  have h := (isObject_members ms).holds
  rwa [writtenMembers, List.map_map] at h

theorem open_written {v : Json} {r : Bytes} (h : encode v.write = o.opener :: r) :
    (o = .list ∧ ∃ vs, v = .list vs) ∨ o = .object ∧ ∃ ms, v = .object ms := by
  obtain ⟨hword, hstart, hquote⟩ := o.opener_head
  cases v with
  | null =>
    rw [← (List.cons.inj h).1] at hword
    cases hword
  | boolean b =>
    cases b <;>
    · rw [← (List.cons.inj h).1] at hword
      cases hword
  | number n =>
    obtain ⟨b, bs, hbytes, hb, -⟩ := (isNumber_written n).steady
    rw [← (List.cons.inj (h.symm.trans hbytes)).1, hstart] at hb
    cases hb
  | text s =>
    rw [write, encode_writeText] at h
    exact absurd (List.cons.inj h).1.symm hquote
  | list vs =>
    obtain ⟨inner, -, hwrite⟩ := row_written vs
    have hopen : o.opener = Open.list.opener := (List.cons.inj (h.symm.trans hwrite)).1
    exact .inl ⟨Open.opener_injective hopen, vs, rfl⟩
  | object ms =>
    obtain ⟨inner, texts, -, -, -, hwrite⟩ := isObject_members ms
    have hopen : o.opener = Open.object.opener := (List.cons.inj (h.symm.trans hwrite)).1
    exact .inr ⟨Open.opener_injective hopen, ms, rfl⟩

theorem nested_written {v : Json} :
    Nested inner (encode v.write) ↔ ∃ w, Within w v ∧ inner = encode w.write := by
  constructor
  · intro h
    generalize htext : encode v.write = text at h
    induction h generalizing v with
    | self => exact ⟨v, .self, htext.symm⟩
    | @deeper o text value values hholds hvalue hnested ih =>
      subst htext
      have hopen : ∃ r, encode v.write = o.opener :: r := by
        obtain ⟨inner, texts, -, -, -, hbytes⟩ := hholds
        exact ⟨_, hbytes⟩
      obtain ⟨r, hr⟩ := hopen
      obtain ⟨rfl, vs, rfl⟩ | ⟨rfl, ms, rfl⟩ := open_written hr
      · rw [hholds.unique (holds_list vs)] at hvalue
        obtain ⟨u, hu, rfl⟩ := List.mem_map.1 hvalue
        obtain ⟨w, hw, hinner⟩ := ih rfl
        exact ⟨w, .item hu hw, hinner⟩
      · rw [hholds.unique (holds_object ms)] at hvalue
        obtain ⟨m, hm, rfl⟩ := List.mem_map.1 hvalue
        obtain ⟨w, hw, hinner⟩ := ih rfl
        exact ⟨w, .member hm hw, hinner⟩
  · rintro ⟨w, hw, rfl⟩
    induction hw with
    | self => exact .self
    | @item v vs hv _ ih => exact .deeper (holds_list vs) (List.mem_map_of_mem hv) ih
    | @member k v ms hv _ ih =>
      exact .deeper (holds_object ms) (List.mem_map.2 ⟨(k, v), hv, rfl⟩) ih

theorem Ordered.ascending {v : Json} (h : v.Ordered) : Ascending (encode v.write) := by
  intro inner ms hnested hobject
  obtain ⟨w, hw, rfl⟩ := nested_written.1 hnested
  obtain ⟨row, texts, -, -, -, hbytes⟩ := hobject.holds
  obtain ⟨habsurd, -⟩ | ⟨-, held, rfl⟩ := open_written hbytes
  · cases habsurd
  · rw [hobject.unique (isObject_members held), writtenMembers, List.map_map]
    have hkeys := Text.pairwise_bytesOf (h held hw)
    rwa [keysOf, List.map_map] at hkeys

end EventPost.Json
