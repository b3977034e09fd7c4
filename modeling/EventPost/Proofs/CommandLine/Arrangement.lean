import EventPost.Proofs.CommandLine.Strands
import EventPost.Proofs.Event.Arrangement

/-!
Metadata is one object, and in whatever order its entries are given, or given again, the text of the
event is the same. Fields stand side by side in the event, so their order is the order of the text.
-/

namespace EventPost.CommandLine

open Text (bytesOf)

theorem ordered_entry {text : String} {e : String × Json} (h : readEntry text = .ok e) :
    e.2.Ordered := by
  obtain ⟨key, v⟩ := e
  obtain ⟨first, last, rest, -, -, -, hstands⟩ := readEntry_eq_ok.1 h
  cases hstands with
  | json hmeans =>
    obtain ⟨ws, text, ws', -, -, hmeans, -⟩ := hmeans
    exact hmeans.ordered
  | plain => exact Json.ordered_text rest

namespace Arguments

variable {a : Arguments} {xs ys : List (String × Json)}

theorem ordered_entriesOf {f : Flag} (hf : f.GivesEntry) {argv : List String}
    (h : parse argv = .ok a) {e : String × Json} (he : e ∈ a.entriesOf f) : e.2.Ordered := by
  obtain ⟨others, hstrands⟩ := exists_strands hf h
  obtain ⟨text, htext⟩ := hstrands.readEntry he
  exact ordered_entry htext

theorem ordered_settings {argv : List String} (h : parse argv = .ok a) :
    ∀ s ∈ a.settings, ∀ v ∈ s.values, v.Ordered := by
  have hmetadata : ∀ v ∈ a.metadata.map Prod.snd, v.Ordered := by
    intro v hv
    obtain ⟨e, he, rfl⟩ := List.mem_map.1 hv
    exact ordered_entriesOf (.inl rfl) h he
  have hfields : ∀ v ∈ a.fields.map Prod.snd, v.Ordered := by
    intro v hv
    obtain ⟨e, he, rfl⟩ := List.mem_map.1 hv
    exact ordered_entriesOf (.inr rfl) h he
  intro s hs v hv
  cases s with
  | eventType | priority | body | url | actor | tags | actionRequired | groupKey | expiresAt =>
    exact absurd hv List.not_mem_nil
  | field k w => simp [settings] at hs
  | metadata entries =>
    obtain ⟨-, rfl⟩ : a.metadata ≠ [] ∧ entries = a.metadata := by simpa [settings] using hs
    exact hmetadata v hv
  | fields entries =>
    obtain rfl : entries = a.fields := by simpa [settings] using hs
    exact hfields v hv

theorem notification_withMetadata (h : Agree xs ys) (a : Arguments) (title : String) :
    (a.withEntries .metadata xs).notification title =
      (a.withEntries .metadata ys).notification title := by
  have hmetadata : ∀ n : Notification,
      (if xs.isEmpty then [] else [Setting.metadata xs]).foldl Setting.apply n =
        (if ys.isEmpty then [] else [Setting.metadata ys]).foldl Setting.apply n := by
    intro n
    simp only [List.isEmpty_iff, h.eq_nil]
    split
    · rfl
    · exact Notification.withMetadata_eq h n
  simp only [notification, Notification.build, settings, List.foldl_append]
  exact congrArg (List.foldl Setting.apply · [.fields a.fields]) (hmetadata _)

theorem exists_typed (a : Arguments) (title : String) : ∃ n : Notification,
    (∀ k, k ∈ n.fields.keys ↔ k ∈ keysOf a.typedFields) ∧
      ∀ xs, (a.withEntries .field xs).notification title = n.withFields xs := by
  refine ⟨(a.withEntries .field []).notification title, fun k => ?_, fun xs => ?_⟩
  · obtain ⟨-, -, -, hrecords⟩ := (a.withEntries .field []).notification_spec title
    rw [hrecords.keys_put, keysOf_append]
    exact (List.append_nil _).symm ▸ Iff.rfl
  · simp only [notification, Notification.build, settings, List.foldl_append]
    rfl

end Arguments

variable {a b : Arguments} {argv argv' others : List String} {xs ys : List (String × Json)}

theorem Strands.alike {f : Flag} (hf : f.GivesEntry) (h : Strands f argv others xs)
    (h' : Strands f argv' others ys) (ha : Arguments.parse argv = .ok a)
    (hb : Arguments.parse argv' = .ok b) :
    ∃ c : Arguments, a = c.withEntries f xs ∧ b = c.withEntries f ys := by
  obtain ⟨c, hc, hac⟩ := h.parse hf ha
  obtain ⟨c', hc', hbc⟩ := h'.parse hf hb
  obtain rfl := Except.ok.inj (hc.symm.trans hc')
  exact ⟨c, hac, hbc⟩

theorem encode_of_agree (h : Strands .metadata argv others xs) (h' : Strands .metadata argv' others ys)
    (hagree : Agree xs ys) (ha : Arguments.parse argv = .ok a) (hb : Arguments.parse argv' = .ok b)
    (title : String) (stamp : Stamp) :
    (Event.ofNotification (a.notification title) stamp).encode =
      (Event.ofNotification (b.notification title) stamp).encode := by
  obtain ⟨c, rfl, rfl⟩ := h.alike (.inl rfl) h' ha hb
  rw [Arguments.notification_withMetadata hagree]

theorem encode_eq_iff (h : Strands .field argv others xs) (h' : Strands .field argv' others ys)
    (hperm : xs.Perm ys) (hdistinct : (keysOf xs).Nodup)
    (hnew : ∀ k ∈ keysOf xs, k ∉ Event.coreFields ∧ k ∉ keysOf a.typedFields)
    (ha : Arguments.parse argv = .ok a) (hb : Arguments.parse argv' = .ok b) (title : String)
    (stamp : Stamp) :
    (Event.ofNotification (a.notification title) stamp).encode =
      (Event.ofNotification (b.notification title) stamp).encode ↔ xs = ys := by
  obtain ⟨c, rfl, rfl⟩ := h.alike (.inr rfl) h' ha hb
  obtain ⟨n, hkeys, hfields⟩ := c.exists_typed title
  rw [hfields, hfields]
  refine Event.encode_withFields_iff hperm hdistinct (fun k hk => ?_) stamp
  rw [hkeys]
  exact hnew k hk

/-- Metadata that gives the same keys the same last values makes the same text, by call and by flag;
in the text every object within a field has its names in the order of their bytes, each once. Fields
of new names make texts that are the same only if their order is. -/
theorem metadata_unordered_fields_ordered :
    (∀ (n : Notification) (xs ys : List (String × Json)), Agree xs ys →
      ∀ (after : List Setting) (stamp : Stamp),
        (Event.ofNotification (after.foldl Setting.apply (n.withMetadata xs)) stamp).encode =
          (Event.ofNotification (after.foldl Setting.apply (n.withMetadata ys)) stamp).encode) ∧
    (∀ (argv argv' others : List String) (xs ys : List (String × Json)) (a b : Arguments),
      Strands .metadata argv others xs → Strands .metadata argv' others ys → Agree xs ys →
      Arguments.parse argv = .ok a → Arguments.parse argv' = .ok b →
      ∀ (title : String) (stamp : Stamp),
        (Event.ofNotification (a.notification title) stamp).encode =
          (Event.ofNotification (b.notification title) stamp).encode) ∧
    (∀ (title : String) (settings : List Setting), (∀ s ∈ settings, ∀ v ∈ s.values, v.Made) →
      ∀ stamp : Stamp, (Event.ofNotification (.build title settings) stamp).Ascending) ∧
    (∀ (argv : List String) (a : Arguments), Arguments.parse argv = .ok a →
      ∀ (title : String) (stamp : Stamp),
        (Event.ofNotification (a.notification title) stamp).Ascending) ∧
    (∀ (argv argv' others : List String) (xs ys : List (String × Json)) (a b : Arguments),
      Strands .field argv others xs → Strands .field argv' others ys → xs.Perm ys →
      (keysOf xs).Nodup →
      (∀ k ∈ keysOf xs, k ∉ Event.coreFields ∧ k ∉ keysOf a.typedFields) →
      Arguments.parse argv = .ok a → Arguments.parse argv' = .ok b →
      ∀ (title : String) (stamp : Stamp),
        ((Event.ofNotification (a.notification title) stamp).encode =
          (Event.ofNotification (b.notification title) stamp).encode ↔ xs = ys)) ∧
    ∀ (argv : List String) (a : Arguments), Arguments.parse argv = .ok a →
      (∃ others, Strands .metadata argv others a.metadata) ∧
        ∃ others, Strands .field argv others a.fields := by
  have hbuilt : ∀ (title : String) (settings : List Setting),
      (∀ s ∈ settings, ∀ v ∈ s.values, v.Ordered) →
      ∀ stamp : Stamp, (Event.ofNotification (.build title settings) stamp).Ascending :=
    fun title settings h stamp => Event.ascending_of_ordered fun k v hv =>
      Notification.ordered_build h (List.mem_filter.1 hv).1
  refine ⟨fun n xs ys h after stamp => ?_, fun _ _ _ _ _ _ _ => encode_of_agree, ?_, ?_,
    fun _ _ _ _ _ _ _ => encode_eq_iff, ?_⟩
  · rw [Notification.withMetadata_eq h]
  · intro title settings h
    exact hbuilt title settings fun s hs v hv => Json.made_iff.1 (h s hs v hv)
  · intro argv a h title
    exact hbuilt title a.settings (Arguments.ordered_settings h)
  · intro argv a h
    exact ⟨exists_strands (.inl rfl) h, exists_strands (.inr rfl) h⟩

theorem metadata_unordered_fields_ordered_given :
    let text (a : Arguments) : String :=
      (Event.ofNotification (a.notification "t") ⟨"rs-1", "2025-01-01T00:00:00.000Z"⟩).encode
    (∃ a b, Arguments.parse ["--meta=b=1", "t", "--meta", "a=2", "--meta=b=3"] = .ok a ∧
      Arguments.parse ["t", "--meta=b=3", "--meta=a=2"] = .ok b ∧ text a = text b) ∧
    ∃ a b, Arguments.parse ["--field=y=1", "t", "--field=x=2"] = .ok a ∧
      Arguments.parse ["--field=x=2", "t", "--field=y=1"] = .ok b ∧ text a ≠ text b := by
  obtain ⟨-, hmetadata, -, -, hfields, -⟩ := metadata_unordered_fields_ordered
  have hword : ∀ f value, "t" ≠ (Mention.mk f value).spell := by
    intro f value h
    have hhead := congrArg (fun s => s.toList.head?) h
    cases value <;> simp [Mention.spell] at hhead
  have hb : Spells .metadata "b=1" ["--meta=b=1"] := .joined
  have ha : Spells .metadata "a=2" ["--meta", "a=2"] := .apart (by decide)
  have hb' : Spells .metadata "b=3" ["--meta=b=3"] := .joined
  have ha' : Spells .metadata "a=2" ["--meta=a=2"] := .joined
  have hy : Spells .field "y=1" ["--field=y=1"] := .joined
  have hx : Spells .field "x=2" ["--field=x=2"] := .joined
  refine ⟨⟨_, _, rfl, rfl, ?_⟩, ⟨_, _, rfl, rfl, fun h => ?_⟩⟩
  · have hfirst : Strands .metadata ["--meta=b=1", "t", "--meta", "a=2", "--meta=b=3"] ["t"]
        [("b", entryValue "1"), ("a", entryValue "2"), ("b", entryValue "3")] :=
      .given hb rfl <| .other (by decide) (hword .metadata) <| .given ha rfl <| .given hb' rfl .done
    have hsecond : Strands .metadata ["t", "--meta=b=3", "--meta=a=2"] ["t"]
        [("b", entryValue "3"), ("a", entryValue "2")] :=
      .other (by decide) (hword .metadata) <| .given hb' rfl <| .given ha' rfl .done
    refine hmetadata _ _ _ _ _ _ _ hfirst hsecond (fun k => ?_) rfl rfl "t" _
    simp only [List.reverse_cons, List.reverse_nil, List.nil_append, List.cons_append, lookup_cons_eq]
    by_cases hkey : k = "b" <;> by_cases hkey' : k = "a" <;> simp [hkey, hkey']
  · have hfirst : Strands .field ["--field=y=1", "t", "--field=x=2"] ["t"]
        [("y", entryValue "1"), ("x", entryValue "2")] :=
      .given hy rfl <| .other (by decide) (hword .field) <| .given hx rfl .done
    have hsecond : Strands .field ["--field=x=2", "t", "--field=y=1"] ["t"]
        [("x", entryValue "2"), ("y", entryValue "1")] :=
      .given hx rfl <| .other (by decide) (hword .field) <| .given hy rfl .done
    have hsame := (hfields _ _ _ _ _ _ _ hfirst hsecond (.swap ..) (by decide) (by decide) rfl rfl
      "t" _).1 h
    exact absurd (congrArg keysOf hsame) (by decide)

end EventPost.CommandLine
