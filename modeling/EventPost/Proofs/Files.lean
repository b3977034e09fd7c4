import Mathlib.Data.String.Basic
import EventPost.Files.Basic

/-!
Where paths lead. A path leads through its names, and a name that is joined to it is one name more.
Once a directory has been made and a text put at the end of a file in it, the directory and those
above it are there, the file holds the text behind what it held, and all else is as it was.
-/

namespace EventPost.Files

/-- The path leads to the directory or to one above it. -/
structure Leads (path dir : String) : Prop where
  names : steps path <+: steps dir
  rooted : path.startsWith "/" = dir.startsWith "/"

/-- The path leads to the file, however it is spelled. -/
structure Spells (path file : String) : Prop where
  names : steps path = steps file
  rooted : path.startsWith "/" = file.startsWith "/"
  closed : path.endsWith '/' = false

/-- A name that leads one step further. -/
structure IsName (name : String) : Prop where
  whole : '/' ∉ name.toList
  present : name ≠ ""
  onward : name ≠ "."

theorem steps_slash (first last : String) :
    steps (first ++ "/" ++ last) = steps first ++ steps last := by
  have hsplit : (first ++ "/" ++ last).toList = first.toList ++ '/' :: last.toList := by simp
  simp only [steps, String.splitToList_of_valid]
  rw [hsplit, List.splitOnP_append_cons _ _ (by rfl), List.map_append, List.filter_append]

theorem steps_empty : steps "" = [] := by
  simp [steps, String.splitToList_of_valid]

theorem IsName.steps {name : String} (h : IsName name) : steps name = [name] := by
  have hwhole : ∀ c ∈ name.toList, (c == '/') = false := by
    intro c hc
    exact beq_eq_false_iff_ne.2 fun hslash => h.whole (hslash ▸ hc)
  rw [Files.steps, String.splitToList_of_valid, List.splitOnP_eq_singleton hwhole]
  simp [h.present, h.onward]

theorem steps_join {name : String} (h : IsName name) (base : String) :
    steps (join base name) = steps base ++ [name] := by
  unfold join
  split
  · rename_i hclosed
    rcases hclosed with hempty | hslash
    · obtain rfl := String.isEmpty_iff.1 hempty
      rw [String.empty_append, h.steps, steps_empty, List.nil_append]
    · obtain ⟨above, rfl⟩ := String.endsWith_char_iff_exists_append.1 hslash
      have hbase := steps_slash above ""
      rw [String.append_empty, steps_empty, List.append_nil] at hbase
      rw [show String.singleton '/' = "/" from rfl, steps_slash, h.steps, hbase]
  · rw [steps_slash, h.steps]

theorem Spells.not_leads {path dir name : String} (hname : IsName name)
    (h : Spells path (join dir name)) : ¬Leads path dir := by
  intro hleads
  have hlength := hleads.names.length_le
  rw [h.names, steps_join hname, List.length_append, List.length_singleton] at hlength
  omega

variable {files : Files} {path dir : String}

theorem withDirectory_of_found (h : Leads path dir → ∀ why, files path ≠ .nothing why) :
    files.withDirectory dir path = files path := by
  unfold withDirectory
  split
  · rename_i hleads
    split
    · exact absurd ‹_› (h ⟨hleads.1, hleads.2⟩ _)
    · rfl
  · rfl

theorem Spells.withDirectory {name : String} (hname : IsName name)
    (h : Spells path (join dir name)) : files.withDirectory dir path = files path :=
  withDirectory_of_found fun hleads => absurd hleads (h.not_leads hname)

end EventPost.Files
