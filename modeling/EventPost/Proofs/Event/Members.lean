import EventPost.Event.Basic
import EventPost.Proofs.Json.NumberValue
import EventPost.Proofs.Json.Unambiguity
import EventPost.Proofs.Json.Written
import EventPost.Proofs.Table

/-!
The text of an event as an object. Whatever is written is well formed, so the text falls into the
members of the event, in order; under a name that is not the client's it has the one value that the
event has there.
-/

namespace EventPost

open Text (Bytes bytesOf)

namespace Json

theorem value_boolean (b : Bool) : Value IsNumber (Text.encode (Json.boolean b).write) := by
  cases b with
  | true => exact .word (v := .boolean true) (by simp [words, write, writeBoolean, bytesOf])
  | false => exact .word (v := .boolean false) (by simp [words, write, writeBoolean, bytesOf])

theorem isNumber_written (n : Number) : IsNumber (Text.encode n.write) := by
  cases n with
  | integer i h => exact (isNumeral_written i h).isNumber
  | real x => exact (write_real x).1

mutual
theorem value_written (v : Json) : Value IsNumber (Text.encode v.write) :=
  match v with
  | .null => .word (v := .null) (by simp [words, write, bytesOf])
  | .boolean b => value_boolean b
  | .number n => .number (isNumber_written n)
  | .text s => (isText_written s).value
  | .list vs => value_list_written (value_items vs)
  | .object ms => (isObject_written (value_members ms)).value

theorem value_items (vs : List Json) : ∀ v ∈ vs, Value IsNumber (Text.encode v.write) :=
  match vs with
  | [] => fun _ h => absurd h List.not_mem_nil
  | v :: vs => List.forall_mem_cons.2 ⟨value_written v, value_items vs⟩

theorem value_members (ms : List (String × Json)) :
    ∀ m ∈ ms, Value IsNumber (Text.encode m.2.write) :=
  match ms with
  | [] => fun _ h => absurd h List.not_mem_nil
  | (_, v) :: ms => List.forall_mem_cons.2 ⟨value_written v, value_members ms⟩
end

theorem isObject_members (ms : List (String × Json)) :
    IsObject IsNumber (Text.encode (Json.object ms).write) (writtenMembers ms) :=
  isObject_written (value_members ms)

end Json

namespace Event

open Json

theorem isObject_encode (e : Event) :
    IsObject IsNumber (bytesOf e.encode) (writtenMembers e.members) := by
  rw [encode, compact, bytesOf, String.toList_ofList]
  exact isObject_members e.members

theorem valuesOf_members {e : Event} {k : String} (hk : k ∉ coreFields) :
    valuesOf k (writtenMembers e.members) =
      (e.fields.get? k).toList.map fun v => Text.encode v.write := by
  have hcore : e.core.filter (fun m => m.1 = k) = [] := by
    rw [List.filter_eq_nil_iff]
    intro m hm hkey
    have hmem : m.1 ∈ keysOf e.core := List.mem_map_of_mem hm
    exact hk (of_decide_eq_true hkey ▸ hmem)
  have hfilter : e.members.filter (fun m => m.1 = k) =
      e.fields.entries.filter fun m => m.1 = k := by
    rw [members, List.filter_append, hcore, List.nil_append]
  rw [Table.get?, ← filter_eq_lookup e.fields.distinct, ← hfilter, valuesOf, writtenMembers,
    List.filter_map, List.map_map, List.map_map]
  rfl

/-- The text of the event has this value under the name, and no other. -/
def Says (e : Event) (k : String) (value : Bytes) : Prop :=
  ∃ ms, IsObject IsNumber (bytesOf e.encode) ms ∧ valuesOf k ms = [value]

/-- The text of the event has a number under the name, and it is exactly this one. -/
def Carries (e : Event) (k : String) (q : ℚ) : Prop :=
  ∃ value, e.Says k value ∧ IsNumber value ∧ numberValue value = q

variable {e : Event} {k : String} {v : Json}

theorem says_iff (hk : k ∉ coreFields) (hv : e.fields.get? k = some v) {value : Bytes} :
    e.Says k value ↔ value = Text.encode v.write := by
  have hvalues := @valuesOf_members e k hk
  rw [hv, Option.toList_some, List.map_singleton] at hvalues
  constructor
  · intro h
    obtain ⟨ms, hobject, hms⟩ := h
    rw [hobject.unique (isObject_encode e), hvalues] at hms
    exact (List.cons.inj hms).1.symm
  · rintro rfl
    exact ⟨_, isObject_encode e, hvalues⟩

theorem carries_iff (hk : k ∉ coreFields) (hv : e.fields.get? k = some v) {q : ℚ} :
    e.Carries k q ↔
      IsNumber (Text.encode v.write) ∧ numberValue (Text.encode v.write) = q := by
  simp only [Carries, says_iff hk hv, exists_eq_left]

end Event

end EventPost
