import Mathlib.Data.List.Basic
import EventPost.CommandLine.Run
import EventPost.Proofs.Event.CoreFields
import EventPost.Proofs.Json.Shape

/-!
The event that a command line asks for. What the flags put is a list of entries, those with a
meaning of their own first and in a fixed order, then the fields as they were given; the extension
fields of the event are the keys of that list, each where it first came and with the value that came
last, but for the names that belong to the client. Metadata stands inside one value and loses no
name. Unless the run is dry, the event is sent.
-/

namespace EventPost.CommandLine

namespace Arguments

def typedFields (a : Arguments) : List (String × Json) :=
  let text (key : String) (value : Option String) := value.toList.map fun s => (key, Json.text s)
  text "body" a.body ++ text "url" a.url ++ text "actor" a.actor
    ++ (if a.tags = [] then [] else [("tags", .list (a.tags.map .text))])
    ++ (if a.actionRequired then [("action_required", .boolean true)] else [])
    ++ text "group_key" a.groupKey ++ text "expires_at" a.expiresAt
    ++ (if a.metadata = [] then [] else [("metadata", Json.ofMembers a.metadata)])

variable (a : Arguments)

theorem puts_settings : a.settings.flatMap Setting.puts = a.typedFields ++ a.fields := by
  have hnil : ∀ l : List String, l.flatMap (fun _ => ([] : List (String × Json))) = [] :=
    fun l => List.flatMap_eq_nil_iff.2 fun _ _ => rfl
  have hone : ∀ (f : String → String × Json) (l : List String),
      l.flatMap (fun s => [f s]) = l.map f := fun _ _ => List.map_eq_flatMap.symm
  simp [settings, typedFields, Setting.puts, Json.textList, Option.toList_map, List.flatMap_map,
    apply_ite (List.flatMap _), hnil, hone]

theorem eventTypes_settings : a.settings.filterMap Setting.eventType? = a.eventType.toList := by
  simp [settings, Setting.eventType?, Option.toList_map, List.filterMap_map, List.filterMap_cons,
    apply_ite (List.filterMap _), Function.comp_def]

theorem priorities_settings : a.settings.filterMap Setting.priority? = a.priority.toList := by
  simp [settings, Setting.priority?, Option.toList_map, List.filterMap_map, List.filterMap_cons,
    apply_ite (List.filterMap _), Function.comp_def]

theorem notification_spec (title : String) :
    (a.notification title).title = title ∧ (a.notification title).eventType = a.eventType ∧
      (a.notification title).priority = a.priority ∧
      (a.notification title).fields.Records (a.typedFields ++ a.fields) := by
  have hbuilt := Notification.built_build title a.settings
  have hlast : ∀ o : Option String, o.toList.getLast? = o := by
    intro o
    cases o <;> rfl
  have htype := hbuilt.last_type
  have hpriority := hbuilt.last_priority
  have hfields := hbuilt.fields_put
  rw [eventTypes_settings, hlast] at htype
  rw [priorities_settings, hlast] at hpriority
  rw [puts_settings] at hfields
  exact ⟨hbuilt.title_kept, htype, hpriority, hfields⟩

/-- The core fields of the event come from the title, the two words behind it and the stamp alone;
its extension fields are the entries of the flags, a later one in the place of an earlier one of the
same name. -/
theorem event_of_flags (title : String) (stamp : Stamp) :
    let e := Event.ofNotification (a.notification title) stamp
    let entries := a.typedFields ++ a.fields
    e.core = [
      ("id", .text stamp.id),
      ("event_type", .text (a.eventType.getD "custom")),
      ("source", .text "rust-adapter"),
      ("priority", .text (a.priority.getD "ambient")),
      ("title", .text title),
      ("timestamp", .text stamp.timestamp)] ∧
    (∀ k, k ∈ e.fields.keys ↔ k ∈ keysOf entries ∧ k ∉ keysOf e.core) ∧
    (e.fields.keys.Pairwise fun x y => (keysOf entries).idxOf x < (keysOf entries).idxOf y) ∧
    (∀ k, k ∉ keysOf e.core → e.fields.get? k = entries.reverse.lookup k) ∧
    ∃ ms, Json.ofMembers a.metadata = .object ms ∧ (keysOf ms).Pairwise (· < ·) ∧
      (∀ k, k ∈ keysOf ms ↔ k ∈ keysOf a.metadata) ∧
      ∀ k, ms.lookup k = a.metadata.reverse.lookup k := by
  intro e entries
  obtain ⟨htitle, htype, hpriority, hrecords⟩ := a.notification_spec title
  have hkeys : e.fields.keys = (a.notification title).fields.keys.filter (!Event.isReserved ·) :=
    Table.keys_filterKeys _ _
  have hcore : keysOf e.core = Event.coreFields := rfl
  refine ⟨?_, ?_, ?_, ?_, ?_⟩
  · simp only [e, Event.core, Event.ofNotification, htitle, htype, hpriority]
    rfl
  · intro k
    rw [hkeys, List.mem_filter, hrecords.keys_put, hcore, ← Event.isReserved_iff]
    simp [entries]
  · rw [hkeys]
    exact hrecords.first_place.filter _
  · intro k hk
    rw [hcore, ← Event.isReserved_iff] at hk
    rw [← hrecords.last_value]
    exact Table.get?_filterKeys (by simp [hk]) _
  · obtain ⟨ms, hms, hordered, hlookup⟩ := Json.ofMembers_spec a.metadata
    refine ⟨ms, hms, hordered, ?_, hlookup⟩
    intro k
    rw [mem_keysOf_iff_lookup, hlookup, ← mem_keysOf_iff_lookup, keysOf_reverse, List.mem_reverse]

end Arguments

theorem requests_run {a : Arguments} (hd : a.dryRun = false) (title : String)
    (terminal coloured : Bool) (s : ServerSettings) (stamp : Stamp) (service : Http.Service) :
    (a.run title terminal coloured s stamp service).requests =
      ((Notifier.ofSettings (a.serverSettings s)).send service
        (.ofNotification (a.notification title) stamp)).requests := by
  unfold Arguments.run submit
  simp only [hd, Bool.false_eq_true, if_false]
  split
  · rfl
  · rfl

end EventPost.CommandLine
