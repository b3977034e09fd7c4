import EventPost.Event.Reader
import EventPost.Proofs.Event.CoreFields
import EventPost.Proofs.Json.RoundTrip

/-!
An event is read back from the text that is sent. Its members come in turn: each core field is new
when it is read, and every other member goes to the extension fields, behind those before it.
-/

namespace EventPost

def Setting.values : Setting → List Json
  | .metadata entries | .fields entries => entries.map Prod.snd
  | .field _ v => [v]
  | _ => []

theorem Setting.ordered_puts {s : Setting} (h : ∀ v ∈ s.values, v.Ordered) {k : String} {v : Json}
    (hv : (k, v) ∈ s.puts) : v.Ordered := by
  have hentries : ∀ {entries : List (String × Json)}, (∀ v ∈ entries.map Prod.snd, v.Ordered) →
      ∀ k v, (k, v) ∈ entries → v.Ordered :=
    fun h k v hv => h v (List.mem_map_of_mem hv)
  cases s with
  | eventType | priority => exact absurd hv List.not_mem_nil
  | body s | url s | actor s | groupKey s | expiresAt s =>
    obtain ⟨rfl, rfl⟩ := Prod.mk.inj (List.mem_singleton.1 hv)
    exact Json.ordered_text s
  | tags ts =>
    obtain ⟨rfl, rfl⟩ := Prod.mk.inj (List.mem_singleton.1 hv)
    refine Json.ordered_list.2 fun v hv => ?_
    obtain ⟨t, -, rfl⟩ := List.mem_map.1 hv
    exact Json.ordered_text t
  | actionRequired required =>
    obtain ⟨rfl, rfl⟩ := Prod.mk.inj (List.mem_singleton.1 hv)
    exact Json.ordered_boolean required
  | metadata entries =>
    obtain ⟨rfl, rfl⟩ := Prod.mk.inj (List.mem_singleton.1 hv)
    exact Json.ordered_ofMembers (hentries h)
  | field key value =>
    obtain ⟨rfl, rfl⟩ := Prod.mk.inj (List.mem_singleton.1 hv)
    exact h v (List.mem_singleton.2 rfl)
  | fields entries => exact hentries h k v hv

theorem Notification.ordered_build {title : String} {settings : List Setting}
    (h : ∀ s ∈ settings, ∀ v ∈ s.values, v.Ordered) {k : String} {v : Json}
    (hv : (k, v) ∈ (build title settings).fields.entries) : v.Ordered := by
  have hput := (built_build title settings).fields_put.value hv
  obtain ⟨s, hs, hm⟩ := List.mem_flatMap.1 (List.mem_reverse.1 (mem_of_lookup hput))
  exact Setting.ordered_puts (h s hs) hm

namespace Event

open Json (Ends Takes)
open Text (Bytes bytesOf)

theorem readMember_core {p : Partial} {key : String} (hkey : isReserved key = true)
    (hnew : p.core.lookup key = none) (s : String) (rest : Bytes) :
    readMember p key (0x3a :: (Text.encode (Json.text s).write ++ rest)) =
      .ok (⟨(key, s) :: p.core, p.others⟩, rest) := by
  have hcolon : ∀ bs, Json.readColon (0x3a :: bs) = .ok bs := fun _ => rfl
  have htext : Json.textField (Text.encode (Json.text s).write ++ rest) = .ok (s, rest) := by
    rw [Json.write, Json.encode_writeText, List.cons_append, List.append_assoc, Json.textField,
      Json.skipBlanks_cons (by decide)]
    exact Json.readText_written s rest
  rw [readMember, if_pos hkey, hnew, hcolon]
  simp only [Option.isSome_none, Bool.false_eq_true, if_false, htext]

def coreTexts (e : Event) : List (String × String) := [
  ("timestamp", e.timestamp), ("title", e.title), ("priority", e.priority), ("source", e.source),
  ("event_type", e.eventType), ("id", e.id)]

theorem takes_core (e : Event) : Takes readMember ⟨[], []⟩ e.core ⟨e.coreTexts, []⟩ := by
  have hstep : ∀ {p : Partial} {key s : String}, isReserved key = true →
      p.core.lookup key = none → ∀ rest, Ends rest →
        readMember p key (0x3a :: (Text.encode (Json.text s).write ++ rest)) =
          .ok (⟨(key, s) :: p.core, p.others⟩, rest) :=
    fun hkey hnew rest _ => readMember_core hkey hnew _ rest
  exact .more (hstep rfl rfl) <| .more (hstep rfl rfl) <| .more (hstep rfl rfl) <|
    .more (hstep rfl rfl) <| .more (hstep rfl rfl) <| .more (hstep rfl rfl) .done

theorem takes_others {ms : List (String × Json)} (hkeys : ∀ k ∈ keysOf ms, isReserved k = false)
    (hread : ∀ k v, (k, v) ∈ ms → ∀ rest, Ends rest →
      Json.readValue memberDepth (Text.encode v.write ++ rest) = .ok (v, rest)) (p : Partial) :
    Takes readMember p ms ⟨p.core, ms.reverse ++ p.others⟩ := by
  induction ms generalizing p with
  | nil => exact .done
  | cons m ms ih =>
    obtain ⟨k, v⟩ := m
    have hrest := ih (fun j hj => hkeys j (List.mem_cons_of_mem k hj))
      (fun j w hw => hread j w (List.mem_cons_of_mem _ hw)) ⟨p.core, (k, v) :: p.others⟩
    rw [List.reverse_cons, List.append_assoc]
    refine .more ?_ hrest
    intro rest hends
    have hcolon : ∀ bs, Json.readColon (0x3a :: bs) = .ok bs := fun _ => rfl
    rw [readMember, hkeys k List.mem_cons_self, Json.memberStep, hcolon]
    simp only [Bool.false_eq_true, if_false, hread k v List.mem_cons_self rest hends]

theorem finish_read (e : Event) :
    Partial.finish ⟨e.coreTexts, e.fields.entries.reverse⟩ = .ok e := by
  have hfields : Table.ofList e.fields.entries.reverse.reverse = e.fields := by
    rw [List.reverse_reverse, Table.ofList_entries]
  unfold Partial.finish
  rw [hfields]
  rfl

/-- What the text of an event keeps of a value: all of it, if no number in it is a fraction, every
object in it has its keys in order, and it does not nest too deep. -/
structure Kept (v : Json) : Prop where
  integral : v.Integral
  ordered : v.Ordered
  shallow : v.height ≤ 126

theorem parse_encode {e : Event} (hkeys : ∀ k ∈ e.fields.keys, isReserved k = false)
    (hvalues : ∀ k v, (k, v) ∈ e.fields.entries → Kept v) : parse (bytesOf e.encode) = .ok e := by
  have hothers := takes_others hkeys
    (fun k v hv rest hr => Json.readValue_written (hvalues k v hv).integral (hvalues k v hv).ordered
      (hvalues k v hv).shallow hr) ⟨e.coreTexts, []⟩
  rw [List.append_nil] at hothers
  have htakes : Takes readMember ⟨[], []⟩ e.members ⟨e.coreTexts, e.fields.entries.reverse⟩ :=
    (takes_core e).append hothers
  have hbytes : bytesOf e.encode = Text.encode (Json.object e.members).write := by
    rw [encode, Json.compact, bytesOf, String.toList_ofList]
    rfl
  obtain ⟨r, hr⟩ : ∃ r, Text.encode (Json.object e.members).write ++ [] = 0x7b :: r := ⟨_, rfl⟩
  have hmembers := Json.foldMembers_object htakes hr
  rw [List.append_nil] at hr
  rw [parse, Json.readWhole, read, hbytes, hr, Json.skipBlanks_cons (by decide)]
  simp only [if_true, hmembers, finish_read]
  rfl

/-- The wire format loses nothing: the six core strings come back, and the extension fields in the
order in which they were set. That the values are ordered is no choice of the caller: see
`Notification.ordered_build`. -/
theorem wire_format_lossless (n : Notification) (stamp : Stamp)
    (h : ∀ k v, (k, v) ∈ n.fields.entries → Kept v) :
    parse (bytesOf (ofNotification n stamp).encode) = .ok (ofNotification n stamp) := by
  have hkeys : (ofNotification n stamp).fields.keys = n.fields.keys.filter (!isReserved ·) :=
    Table.keys_filterKeys _ _
  apply parse_encode
  · intro k hk
    rw [hkeys] at hk
    exact Bool.not_eq_true' _ ▸ (List.mem_filter.1 hk).2
  · intro k v hv
    exact h k v (List.mem_filter.1 hv).1

theorem wire_format_lossless_nested :
    let largest : Json := .number (.integer 18446744073709551615 (by decide))
    let n := Notification.build "say \"hi\"\n"
      [.metadata [("z", largest), ("a\x01", .list [.text "\\é"])], .field "title" largest]
    let e := ofNotification n ⟨"rs-1", "2025-01-01T00:00:00.000Z"⟩
    (∀ k v, (k, v) ∈ n.fields.entries → Kept v) ∧ parse (bytesOf e.encode) = .ok e := by
  intro largest n e
  have hsorted : Json.ofMembers [("z", largest), ("a\x01", .list [.text "\\é"])] =
      .object [("a\x01", .list [.text "\\é"]), ("z", largest)] := by
    have hne : "a\x01" ≠ "z" := by decide
    have hlt : "a\x01" < "z" := by decide
    simp only [Json.ofMembers, Json.putMember, List.foldl, hne, hlt, if_false, if_true]
  have hentries : n.fields.entries =
      [("metadata", .object [("a\x01", .list [.text "\\é"]), ("z", largest)]),
        ("title", largest)] := by
    rw [← hsorted]
    rfl
  have hlargest : Kept largest := ⟨Json.integral_integer _, Json.ordered_number _, by decide⟩
  have hlist : Kept (.list [.text "\\é"]) := by
    refine ⟨Json.integral_list.2 ?_, Json.ordered_list.2 ?_, by decide⟩
    · exact List.forall_mem_singleton.2 (Json.integral_text _)
    · exact List.forall_mem_singleton.2 (Json.ordered_text _)
  have hmembers : ∀ k v, (k, v) ∈ [("a\x01", .list [.text "\\é"]), ("z", largest)] → Kept v := by
    rintro k v (_ | ⟨_, _ | ⟨_, ⟨⟩⟩⟩)
    · exact hlist
    · exact hlargest
  have hkept : ∀ k v, (k, v) ∈ n.fields.entries → Kept v := by
    rw [hentries]
    rintro k v (_ | ⟨_, _ | ⟨_, ⟨⟩⟩⟩)
    · refine ⟨Json.integral_object.2 fun k v hv => (hmembers k v hv).integral,
        Json.ordered_object.2 ⟨by decide, fun k v hv => (hmembers k v hv).ordered⟩, by decide⟩
    · exact hlargest
  exact ⟨hkept, wire_format_lossless n _ hkept⟩

end Event

end EventPost
