import EventPost.Proofs.Json.Field

/-!
What is written has the form that is read, close together or with every item on a line of its own.
-/

namespace EventPost.Json

open Text (Bytes bytesOf encode encode_append)

theorem encode_mark (cs : List Char) : encode ('[' :: cs) = 0x5b :: encode cs ∧
    encode (']' :: cs) = 0x5d :: encode cs ∧ encode ('{' :: cs) = 0x7b :: encode cs ∧
    encode ('}' :: cs) = 0x7d :: encode cs ∧ encode (',' :: cs) = 0x2c :: encode cs ∧
    encode (':' :: cs) = 0x3a :: encode cs ∧ encode (' ' :: cs) = 0x20 :: encode cs :=
  ⟨rfl, rfl, rfl, rfl, rfl, rfl, rfl⟩

theorem isText_written (s : String) : IsText (encode (writeText s)) s := by
  obtain ⟨raw, hraw, hbytes⟩ := readText_eq_ok.1 (readText_written s [])
  exact ⟨raw, hraw, by rw [encode_writeText, hbytes]⟩

theorem isNumeral_written (i : Int) (h : Fits i) :
    IsNumeral (encode (Number.write (.integer i h))) (.integer i h) := by
  obtain ⟨b, bs, hbytes, -, hread⟩ := @readNumeral_written i h [] fun _ h => nomatch h
  obtain ⟨bs', hnumeral, hrest⟩ := (readNumeral_eq_ok stops_nil).1 hread
  rw [List.append_nil, List.append_nil] at hrest
  subst hrest
  rw [hbytes]
  exact hnumeral

theorem isWord_written (n : UInt64) : IsWord (encode (ofWord n).write) n :=
  isWord_iff.2 ((isNumeral_integer (fits_toNat n)).1 (isNumeral_written n.toNat (fits_toNat n)))

theorem named_written (key : String) {ws : Bytes} (hws : Blanks ws) (value : Bytes) :
    Named (encode (writeText key) ++ 0x3a :: (ws ++ value)) (key, value) := by
  obtain ⟨raw, hraw, htext⟩ := isText_written key
  refine ⟨raw, hraw, [], ws, Blanks.nil, hws, ?_⟩
  rw [htext]
  simp

theorem blanks_lineAt (depth : Nat) : Blanks (encode (lineAt depth)) := by
  intro b hb
  have hspaces : ∀ n, ∀ b ∈ encode (List.replicate n ' '), b = 0x20 := by
    intro n b hb
    obtain ⟨c, hc, hb⟩ := List.mem_flatMap.1 hb
    obtain rfl := List.eq_of_mem_replicate hc
    exact List.mem_singleton.1 hb
  rcases List.mem_cons.1 hb with rfl | hb
  · decide
  · rw [hspaces _ b hb]
    decide

theorem entries_items (vs : List Json) :
    Entries false (encode (writeItems vs)) (vs.map fun v => encode v.write) := by
  induction vs with
  | nil => exact .done Blanks.nil
  | cons v vs ih =>
    have hmore := @Entries.more _ _ (encode v.write) _ _ (.other Blanks.nil Blanks.nil) ih
    rwa [List.map_cons, encode_writeItems]

def memberText (m : String × Json) : Bytes :=
  encode (writeText m.1) ++ 0x3a :: encode m.2.write

theorem entries_members (ms : List (String × Json)) :
    Entries false (encode (writeMembers ms)) (ms.map memberText) := by
  induction ms with
  | nil => exact .done Blanks.nil
  | cons m ms ih =>
    have hmore := @Entries.more _ _ (memberText m) _ _ (.other Blanks.nil Blanks.nil) ih
    rw [List.map_cons, encode_writeMembers]
    simpa [memberText, encode_writeText] using hmore

/-- The members of an object as they are written, in order. -/
def writtenMembers (ms : List (String × Json)) : List (String × Bytes) :=
  ms.map fun m => (m.1, encode m.2.write)

theorem isObject_written {number : Bytes → Prop} {ms : List (String × Json)}
    (h : ∀ m ∈ ms, Value number (encode m.2.write)) :
    IsObject number (encode (Json.object ms).write) (writtenMembers ms) := by
  have hnamed : List.Forall₂ Named (ms.map memberText) (writtenMembers ms) := by
    unfold writtenMembers
    rw [List.forall₂_map_left_iff, List.forall₂_map_right_iff, List.forall₂_same]
    exact fun m _ => named_written m.1 Blanks.nil (encode m.2.write)
  have hvalues : ∀ m ∈ writtenMembers ms, Value number m.2 := by
    intro m hm
    obtain ⟨m', hm', rfl⟩ := List.mem_map.1 hm
    exact h m' hm'
  cases ms with
  | nil => exact ⟨[], [], .done Blanks.nil, .nil, hvalues, rfl⟩
  | cons m ms =>
    obtain ⟨bs, hbytes, hwrite⟩ := encode_object m ms
    refine ⟨_, _, .more (.first Blanks.nil) (entries_members ms), hnamed, hvalues, ?_⟩
    rw [encode_writeMembers, List.cons.injEq] at hbytes
    rw [hwrite, ← hbytes.2]
    simp [memberText, encode_writeText]

theorem row_written (vs : List Json) : ∃ inner, Row inner (vs.map fun v => encode v.write) ∧
    encode (Json.list vs).write = 0x5b :: (inner ++ [0x5d]) := by
  cases vs with
  | nil => exact ⟨[], .done Blanks.nil, rfl⟩
  | cons v vs =>
    obtain ⟨bs, hbytes, hwrite⟩ := encode_list v vs
    rw [encode_writeItems, List.cons.injEq] at hbytes
    exact ⟨_, .more (.first Blanks.nil) (entries_items vs), by rw [hwrite, ← hbytes.2]; rfl⟩

theorem value_list_written {number : Bytes → Prop} {vs : List Json}
    (h : ∀ v ∈ vs, Value number (encode v.write)) :
    Value number (encode (Json.list vs).write) := by
  obtain ⟨inner, hrow, hwrite⟩ := row_written vs
  rw [hwrite]
  refine .list hrow fun text ht => ?_
  obtain ⟨v, hv, rfl⟩ := List.mem_map.1 ht
  exact h v hv

theorem entries_prettyItems (depth : Nat) (ss : List String) {close : Bytes}
    (hclose : Blanks close) :
    Entries false (encode (writePrettyItems depth (ss.map .text)) ++ close)
      (ss.map fun s => encode (writeText s)) := by
  induction ss with
  | nil => exact .done hclose
  | cons s ss ih =>
    have hmore := @Entries.more _ _ (encode (writeText s)) _ _
      (.other Blanks.nil (blanks_lineAt (depth + 1))) ih
    simpa only [List.map_cons, writePrettyItems, writePretty, encode_append, encode_mark,
      List.nil_append, List.cons_append, List.append_assoc] using hmore

theorem forall₂_written (ss : List String) :
    List.Forall₂ IsText (ss.map fun s => encode (writeText s)) ss := by
  induction ss with
  | nil => exact .nil
  | cons s ss ih => exact .cons (isText_written s) ih

theorem isTextList_written (ss : List String) : IsTextList (encode (textList ss).write) ss := by
  cases ss with
  | nil => exact ⟨[], [], .done Blanks.nil, .nil, rfl⟩
  | cons s ss =>
    have hitems := entries_items (ss.map .text)
    rw [List.map_map] at hitems
    refine ⟨_, _, .more (.first Blanks.nil) hitems, forall₂_written (s :: ss), ?_⟩
    simp only [textList, List.map_cons, write, encode_append, encode_mark, List.nil_append]
    rfl

theorem isTextList_pretty (depth : Nat) (ss : List String) :
    IsTextList (encode ((textList ss).writePretty depth)) ss := by
  cases ss with
  | nil => exact ⟨[], [], .done Blanks.nil, .nil, rfl⟩
  | cons s ss =>
    refine ⟨_, _, .more (.first (blanks_lineAt (depth + 1)))
      (entries_prettyItems depth ss (blanks_lineAt depth)), forall₂_written (s :: ss), ?_⟩
    simp only [textList, List.map_cons, writePretty, encode_append, encode_mark, List.cons_append,
      List.append_assoc]
    rfl

end EventPost.Json
