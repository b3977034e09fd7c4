import Mathlib.Data.List.Count
import EventPost.Proofs.Event.Members

/-!
The wire form of an event against the calls that built its notification. Whatever the calls put,
the six core fields come first and are the client's; behind them stand the other keys ever put, in
the order of the first call and with the value of the last. A core name among the keys put is left
out, and the log says so once.
-/

namespace EventPost

/-- The extension fields that a call puts, in order. -/
def Setting.puts : Setting → List (String × Json)
  | .eventType _ | .priority _ => []
  | .body s => [("body", .text s)]
  | .url s => [("url", .text s)]
  | .actor s => [("actor", .text s)]
  | .tags ts => [("tags", Json.textList ts)]
  | .actionRequired required => [("action_required", .boolean required)]
  | .groupKey s => [("group_key", .text s)]
  | .expiresAt s => [("expires_at", .text s)]
  | .metadata entries => [("metadata", Json.ofMembers entries)]
  | .field k v => [(k, v)]
  | .fields entries => entries

def Setting.eventType? : Setting → Option String
  | .eventType s => some s
  | _ => none

def Setting.priority? : Setting → Option String
  | .priority s => some s
  | _ => none

namespace Notification

/-- A notification that some calls have left behind. -/
structure Built (title : String) (settings : List Setting) (n : Notification) : Prop where
  title_kept : n.title = title
  last_type : n.eventType = (settings.filterMap Setting.eventType?).getLast?
  last_priority : n.priority = (settings.filterMap Setting.priority?).getLast?
  fields_put : n.fields.Records (settings.flatMap Setting.puts)

theorem built_new (title : String) : Built title [] (new title) :=
  ⟨rfl, rfl, rfl, Table.records_empty⟩

theorem fields_apply (n : Notification) (s : Setting) :
    (s.apply n).fields = n.fields.insertAll s.puts := by
  cases s <;> rfl

theorem eventType_apply (n : Notification) (s : Setting) :
    (s.apply n).eventType = s.eventType?.or n.eventType := by
  cases s <;> rfl

theorem priority_apply (n : Notification) (s : Setting) :
    (s.apply n).priority = s.priority?.or n.priority := by
  cases s <;> rfl

theorem getLast?_filterMap_concat {β : Type} (f : Setting → Option β) (settings : List Setting)
    (s : Setting) :
    ((settings ++ [s]).filterMap f).getLast? = (f s).or (settings.filterMap f).getLast? := by
  rw [List.filterMap_append, List.getLast?_append]
  cases h : f s <;> simp [h]

theorem Built.apply {title : String} {settings : List Setting} {n : Notification}
    (h : Built title settings n) (s : Setting) : Built title (settings ++ [s]) (s.apply n) := by
  have hfields : (s.apply n).fields.Records ((settings ++ [s]).flatMap Setting.puts) := by
    rw [fields_apply, List.flatMap_append, List.flatMap_singleton]
    exact h.fields_put.insertAll s.puts
  refine ⟨?_, ?_, ?_, hfields⟩
  · rw [← h.title_kept]
    cases s <;> rfl
  · rw [eventType_apply, getLast?_filterMap_concat, h.last_type]
  · rw [priority_apply, getLast?_filterMap_concat, h.last_priority]

theorem built_foldl {title : String} {before : List Setting} {n : Notification}
    (h : Built title before n) (settings : List Setting) :
    Built title (before ++ settings) (settings.foldl Setting.apply n) := by
  induction settings generalizing before n with
  | nil => rw [List.append_nil]; exact h
  | cons s rest ih =>
    have hs := ih (h.apply s)
    rw [List.append_assoc, List.singleton_append] at hs
    exact hs

theorem built_build (title : String) (settings : List Setting) :
    Built title settings (build title settings) :=
  built_foldl (built_new title) settings

end Notification

namespace Event

theorem isReserved_iff {key : String} : isReserved key = true ↔ key ∈ coreFields :=
  List.contains_iff_mem

theorem noteReserved_injective {a b : String} (h : noteReserved a = noteReserved b) : a = b := by
  have ht := congrArg Record.text h
  simp only [noteReserved] at ht
  exact (String.append_right_inj _).1 ((String.append_left_inj _).1 ht)

theorem noteReserved_notMem_notes (eventType priority key : String) :
    noteReserved key ∉ noteType eventType ++ notePriority priority := by
  intro hm
  rcases List.mem_append.1 hm with h | h
  · unfold noteType at h
    split at h
    · exact List.not_mem_nil h
    · have hs := congrArg Record.severity (List.mem_singleton.1 h)
      exact absurd hs (by simp [noteReserved])
  · unfold notePriority at h
    split at h
    · exact List.not_mem_nil h
    · have ht := congrArg (fun r => (Record.text r).toList.head?) (List.mem_singleton.1 h)
      simp [noteReserved, String.toList_append] at ht

theorem count_noteReserved (n : Notification) (key : String) :
    (journalOf n).count (noteReserved key) =
      if key ∈ n.fields.keys.filter isReserved then 1 else 0 := by
  have hnodup : (n.fields.keys.filter isReserved).Nodup := n.fields.distinct.filter _
  rw [journalOf, List.count_append, List.count_eq_zero.2 (noteReserved_notMem_notes _ _ key),
    Nat.zero_add, List.count_map_of_injective _ _ fun _ _ => noteReserved_injective, hnodup.count]

theorem core_ofNotification {title : String} {settings : List Setting} {n : Notification}
    (h : n.Built title settings) (stamp : Stamp) :
    (ofNotification n stamp).core = [
      ("id", .text stamp.id),
      ("event_type", .text ((settings.filterMap Setting.eventType?).getLast?.getD "custom")),
      ("source", .text "rust-adapter"),
      ("priority", .text ((settings.filterMap Setting.priority?).getLast?.getD "ambient")),
      ("title", .text title),
      ("timestamp", .text stamp.timestamp)] := by
  simp only [core, ofNotification, h.last_type, h.last_priority, h.title_kept]
  rfl

theorem nodup_keysOf_members (e : Event) (h : ∀ k ∈ e.fields.keys, k ∉ coreFields) :
    (keysOf e.members).Nodup := by
  have hcore : keysOf e.core = coreFields := rfl
  rw [members, keysOf_append, hcore]
  refine List.nodup_append.2 ⟨by decide, e.fields.distinct, ?_⟩
  rintro a ha b hb rfl
  exact h a hb ha

theorem isText_of_mem {ms : List (String × Json)} {k s : String} (h : (k, Json.text s) ∈ ms) :
    ∃ text, (k, text) ∈ Json.writtenMembers ms ∧ Json.IsText text s :=
  ⟨_, List.mem_map_of_mem h, Json.isText_written s⟩

/-- Core fields win over extension fields of their names, whatever the calls and their order. -/
theorem core_fields_win (title : String) (settings : List Setting) (stamp : Stamp) :
    let n := Notification.build title settings
    let puts := settings.flatMap Setting.puts
    let before (a b : String) : Prop := (keysOf puts).idxOf a < (keysOf puts).idxOf b
    ∃ (core kept : List (String × Json)) (dropped : List String) (notes : Journal),
      (ofNotification n stamp).encode = (Json.object (core ++ kept)).compact ∧
      Json.IsObject Json.IsNumber (Text.bytesOf (ofNotification n stamp).encode)
        (Json.writtenMembers (core ++ kept)) ∧
      (∀ k s, (k, Json.text s) ∈ core ++ kept →
        ∃ text, (k, text) ∈ Json.writtenMembers (core ++ kept) ∧ Json.IsText text s) ∧
      core = [
        ("id", .text stamp.id),
        ("event_type", .text ((settings.filterMap Setting.eventType?).getLast?.getD "custom")),
        ("source", .text "rust-adapter"),
        ("priority", .text ((settings.filterMap Setting.priority?).getLast?.getD "ambient")),
        ("title", .text title),
        ("timestamp", .text stamp.timestamp)] ∧
      (keysOf (core ++ kept)).Nodup ∧
      (∀ k, k ∈ keysOf kept ↔ k ∈ keysOf puts ∧ k ∉ keysOf core) ∧
      (keysOf kept).Pairwise before ∧
      (∀ k v, (k, v) ∈ kept → puts.reverse.lookup k = some v) ∧
      (∀ k, k ∈ dropped ↔ k ∈ keysOf puts ∧ k ∈ keysOf core) ∧
      dropped.Pairwise before ∧
      journalOf n = notes ++ dropped.map noteReserved ∧
      (∀ k, noteReserved k ∉ notes) ∧
      ∀ k, (journalOf n).count (noteReserved k) = if k ∈ dropped then 1 else 0 := by
  intro n puts before
  have hn : n.Built title settings := Notification.built_build title settings
  have hrec : n.fields.Records puts := hn.fields_put
  have hcore : keysOf (ofNotification n stamp).core = coreFields := rfl
  have hkept : keysOf (ofNotification n stamp).fields.entries = n.fields.keys.filter (!isReserved ·) :=
    Table.keys_filterKeys _ _
  have hkeep : ∀ k, k ∈ keysOf (ofNotification n stamp).fields.entries ↔
      k ∈ keysOf puts ∧ k ∉ coreFields := by
    intro k
    rw [hkept, List.mem_filter, ← Table.Records.keys_put hrec, ← isReserved_iff]
    simp
  have hdrop : ∀ k, k ∈ n.fields.keys.filter isReserved ↔ k ∈ keysOf puts ∧ k ∈ coreFields := by
    intro k
    rw [List.mem_filter, ← hrec.keys_put, isReserved_iff]
  have hnotes := noteReserved_notMem_notes (n.eventType.getD defaultType)
    (n.priority.getD Priority.default.name)
  refine ⟨(ofNotification n stamp).core, (ofNotification n stamp).fields.entries,
    n.fields.keys.filter isReserved, _, rfl, isObject_encode _, fun _ _ => isText_of_mem,
    core_ofNotification hn stamp,
    nodup_keysOf_members _ fun k hk => ((hkeep k).1 hk).2, ?_, ?_, ?_, ?_,
    hrec.first_place.filter _, rfl, hnotes, count_noteReserved n⟩
  · rw [hcore]
    exact hkeep
  · rw [hkept]
    exact hrec.first_place.filter _
  · intro k v hm
    exact hrec.value (List.mem_filter.1 hm).1
  · rw [hcore]
    exact hdrop

end Event

end EventPost
