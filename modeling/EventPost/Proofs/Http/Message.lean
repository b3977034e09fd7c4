import EventPost.Proofs.Http.Head

/-!
A request as bytes. The client writes the line of the request, the headers that it was given among
headers of its own, an empty line and the body. Whoever takes such bytes apart line by line gets the
same lines and the same body, and under each name that was given the one header that was given.
-/

namespace EventPost.Http

open Text (Bytes bytesOf)

/-- A header that fits on a line of its own, whatever blanks are around its value. -/
structure OnLine (h : String × String) : Prop where
  name_ne : bytesOf h.1 ≠ []
  name : ∀ b ∈ bytesOf h.1, Head.isNameByte b = true
  value : ∀ b ∈ bytesOf h.2, Head.isValueByte b = true

/-- The headers that a client adds of itself, none under a name that it was given. -/
structure Adds (r : Request) (own : List (String × String)) : Prop where
  onLine : ∀ h ∈ own, OnLine h
  apart : ∀ h ∈ own, ∀ g ∈ r.headers, h.1.toLower ≠ g.1

def Request.line (r : Request) : String := r.method.name ++ " " ++ r.uri.target ++ " HTTP/1.1"

def Writes (r : Request) (bs : Bytes) : Prop :=
  ∃ own fields : List (String × String), Adds r own ∧ fields.Perm (own ++ r.headers) ∧
    bs = bytesOf (r.line ++ "\r\n") ++ (fields.flatMap (fun h => Reply.headerLine h.1 h.2) ++
      (bytesOf "\r\n" ++ bytesOf r.body))

/-- A line begins with a byte that is no blank, so it is no continuation of the one before, and has
no byte at which another could begin. -/
structure IsLine (line : Bytes) : Prop where
  start : ∃ b rest, line = b :: rest ∧ Head.isGap b = false
  within : ∀ b ∈ line, b ≠ 0x0d ∧ b ≠ 0x0a

inductive EndsLine : Bytes → Prop
  | both : EndsLine [0x0d, 0x0a]
  | feed : EndsLine [0x0a]

/-- The lines of a message up to an empty one, and the body behind that. -/
inductive Reads : Bytes → List Bytes → Bytes → Prop
  | body {mark body : Bytes} (hm : EndsLine mark) : Reads (mark ++ body) [] body
  | line {line mark rest body : Bytes} {lines : List Bytes} (hl : IsLine line) (hm : EndsLine mark)
    (hr : Reads rest lines body) : Reads (line ++ (mark ++ rest)) (line :: lines) body

def fieldName (line : Bytes) : String :=
  (Text.decodeLossy (line.takeWhile (· != 0x3a))).toLower

theorem EndsLine.cons {mark : Bytes} (h : EndsLine mark) :
    ∃ b rest, mark = b :: rest ∧ (b = 0x0d ∨ b = 0x0a) := by
  cases h with
  | both => exact ⟨0x0d, [0x0a], rfl, .inl rfl⟩
  | feed => exact ⟨0x0a, [], rfl, .inr rfl⟩

theorem EndsLine.unique {mark mark' rest rest' : Bytes} (h : EndsLine mark) (h' : EndsLine mark')
    (heq : mark ++ rest = mark' ++ rest') : rest = rest' := by
  cases h with
  | both =>
    cases h' with
    | both => exact List.append_cancel_left heq
    | feed => exact absurd (List.head_eq_of_cons_eq heq) (by decide)
  | feed =>
    cases h' with
    | both => exact absurd (List.head_eq_of_cons_eq heq) (by decide)
    | feed => exact List.append_cancel_left heq

theorem IsLine.unique {line line' mark mark' rest rest' : Bytes} (hl : IsLine line)
    (hl' : IsLine line') (hm : EndsLine mark) (hm' : EndsLine mark')
    (heq : line ++ (mark ++ rest) = line' ++ (mark' ++ rest')) : line = line' ∧ rest = rest' := by
  have hcut : ∀ {line mark : Bytes}, IsLine line → EndsLine mark → ∀ rest,
      (line ++ (mark ++ rest)).takeWhile (fun b => b != 0x0d && b != 0x0a) = line := by
    intro line mark hl hm rest
    obtain ⟨b, more, rfl, hb⟩ := hm.cons
    rw [List.takeWhile_append_of_pos, List.cons_append, List.takeWhile_cons_of_neg,
      List.append_nil]
    · rcases hb with rfl | rfl <;> decide
    · intro b hb
      rw [Bool.and_eq_true, bne_iff_ne, bne_iff_ne]
      exact hl.within b hb
  have hline : line = line' := by rw [← hcut hl hm rest, heq, hcut hl' hm' rest']
  refine ⟨hline, ?_⟩
  rw [hline, List.append_cancel_left_eq] at heq
  exact hm.unique hm' heq

theorem IsLine.ne_mark {line mark rest rest' : Bytes} (hl : IsLine line) (hm : EndsLine mark) :
    mark ++ rest ≠ line ++ rest' := by
  intro heq
  obtain ⟨b, more, rfl, -⟩ := hl.start
  obtain ⟨c, more', rfl, hc⟩ := hm.cons
  have hb := hl.within b List.mem_cons_self
  obtain rfl : c = b := List.head_eq_of_cons_eq heq
  rcases hc with hc | hc
  · exact hb.1 hc
  · exact hb.2 hc

theorem Reads.unique {bs body body' : Bytes} {lines lines' : List Bytes} (h : Reads bs lines body)
    (h' : Reads bs lines' body') : lines = lines' ∧ body = body' := by
  induction h generalizing lines' body' with
  | @body mark body hm =>
    generalize hbs : mark ++ body = bs at h'
    cases h' with
    | body hm' => exact ⟨rfl, hm.unique hm' hbs⟩
    | line hl' => exact absurd hbs (hl'.ne_mark hm)
  | @line line mark rest body lines hl hm _ ih =>
    generalize hbs : line ++ (mark ++ rest) = bs at h'
    cases h' with
    | body hm' => exact absurd hbs.symm (hl.ne_mark hm')
    | line hl' hm' hr' =>
      obtain ⟨rfl, rfl⟩ := hl.unique hl' hm hm' hbs
      obtain ⟨rfl, rfl⟩ := ih hr'
      exact ⟨rfl, rfl⟩

theorem reads_lines {lines : List Bytes} (h : ∀ l ∈ lines, IsLine l) (body : Bytes) :
    Reads (lines.flatMap (· ++ [0x0d, 0x0a]) ++ ([0x0d, 0x0a] ++ body)) lines body := by
  induction lines with
  | nil => exact .body .both
  | cons line lines ih =>
    rw [List.flatMap_cons, List.append_assoc, List.append_assoc]
    exact .line (h line List.mem_cons_self) .both
      (ih fun l hl => h l (List.mem_cons_of_mem line hl))

def fieldLine (h : String × String) : Bytes := bytesOf (h.1 ++ ": " ++ h.2)

theorem headerLine_eq_fieldLine (h : String × String) :
    Reply.headerLine h.1 h.2 = fieldLine h ++ [0x0d, 0x0a] := by
  rw [Reply.headerLine, Text.bytesOf_append]
  rfl

theorem fieldLine_eq (h : String × String) :
    fieldLine h = bytesOf h.1 ++ 0x3a :: 0x20 :: bytesOf h.2 := by
  rw [fieldLine, Text.bytesOf_append, Text.bytesOf_append, List.append_assoc]
  rfl

theorem isNameByte_spec {b : UInt8} (h : Head.isNameByte b = true) :
    Head.isGap b = false ∧ b ≠ 0x3a ∧ b ≠ 0x0d ∧ b ≠ 0x0a := by
  refine ⟨?_, ?_, ?_, ?_⟩
  · rw [Bool.eq_false_iff]
    intro hgap
    rw [Head.isGap, Bool.or_eq_true, beq_iff_eq, beq_iff_eq] at hgap
    rcases hgap with rfl | rfl
    · exact absurd h (by decide)
    · exact absurd h (by decide)
  all_goals
    rintro rfl
    exact absurd h (by decide)

theorem isValueByte_spec {b : UInt8} (h : Head.isValueByte b = true) : b ≠ 0x0d ∧ b ≠ 0x0a := by
  constructor <;>
    rintro rfl <;>
    exact absurd h (by decide)

variable {h : String × String}

theorem OnLine.isLine (hh : OnLine h) : IsLine (fieldLine h) := by
  rw [fieldLine_eq]
  refine ⟨?_, ?_⟩
  · obtain ⟨b, name, hb⟩ := List.exists_cons_of_ne_nil hh.name_ne
    have hname := hh.name b (hb ▸ List.mem_cons_self)
    exact ⟨b, _, by rw [hb, List.cons_append], (isNameByte_spec hname).1⟩
  · intro b hb
    rcases List.mem_append.1 hb with hb | hb
    · exact (isNameByte_spec (hh.name b hb)).2.2
    · rcases List.mem_cons.1 hb with rfl | hb
      · decide
      · rcases List.mem_cons.1 hb with rfl | hb
        · decide
        · exact isValueByte_spec (hh.value b hb)

theorem OnLine.fieldName (hh : OnLine h) : fieldName (fieldLine h) = h.1.toLower := by
  rw [Http.fieldName, fieldLine_eq, List.takeWhile_append_of_pos,
    List.takeWhile_cons_of_neg (by decide), List.append_nil, Text.decodeLossy_bytesOf]
  intro b hb
  rw [bne_iff_ne]
  exact (isNameByte_spec (hh.name b hb)).2.1

/-- A request whose parts keep to their lines, with no name of a header twice. -/
structure Tidy (r : Request) : Prop where
  line : IsLine (bytesOf r.line)
  onLine : ∀ h ∈ r.headers, OnLine h
  once : ∀ h ∈ r.headers, r.headers.filter (·.1.toLower = h.1) = [h]

variable {r : Request} {bs : Bytes}

theorem filter_fieldName (ht : Tidy r) {own fields : List (String × String)} (ho : Adds r own)
    (hf : fields.Perm (own ++ r.headers)) (hh : h ∈ r.headers) :
    (fields.map fieldLine).filter (fieldName · = h.1) = [fieldLine h] := by
  have honLine : ∀ g ∈ fields, OnLine g := by
    intro g hg
    rcases List.mem_append.1 (hf.mem_iff.1 hg) with hg | hg
    · exact ho.onLine g hg
    · exact ht.onLine g hg
  have hnames : fields.filter ((fieldName · = h.1) ∘ fieldLine) =
      fields.filter (·.1.toLower = h.1) := by
    refine List.filter_congr fun g hg => ?_
    rw [Function.comp_apply, (honLine g hg).fieldName]
  have hown : own.filter (·.1.toLower = h.1) = [] := by
    rw [List.filter_eq_nil_iff]
    intro g hg
    rw [decide_eq_true_eq]
    exact ho.apart g hg h hh
  have hperm := hf.filter (·.1.toLower = h.1)
  rw [List.filter_append, hown, ht.once h hh, List.nil_append, List.perm_singleton] at hperm
  rw [List.filter_map, hnames, hperm, List.map_singleton]

theorem reads_written (ht : Tidy r) (hw : Writes r bs) : ∃ lines,
    (∀ heads body, Reads bs heads body ↔ heads = bytesOf r.line :: lines ∧ body = bytesOf r.body) ∧
      ∀ h ∈ r.headers, lines.filter (fieldName · = h.1) = [fieldLine h] := by
  obtain ⟨own, fields, ho, hf, rfl⟩ := hw
  have hlines : ∀ l ∈ bytesOf r.line :: fields.map fieldLine, IsLine l := by
    intro l hl
    rcases List.mem_cons.1 hl with rfl | hl
    · exact ht.line
    · obtain ⟨g, hg, rfl⟩ := List.mem_map.1 hl
      rcases List.mem_append.1 (hf.mem_iff.1 hg) with hg | hg
      · exact (ho.onLine g hg).isLine
      · exact (ht.onLine g hg).isLine
  have hread := reads_lines hlines (bytesOf r.body)
  rw [List.flatMap_cons, List.flatMap_map, List.append_assoc] at hread
  have hbytes : bytesOf (r.line ++ "\r\n") ++
      (fields.flatMap (fun h => Reply.headerLine h.1 h.2) ++ (bytesOf "\r\n" ++ bytesOf r.body)) =
      bytesOf r.line ++ [0x0d, 0x0a] ++ (fields.flatMap (fieldLine · ++ [0x0d, 0x0a]) ++
        ([0x0d, 0x0a] ++ bytesOf r.body)) := by
    simp only [headerLine_eq_fieldLine, Text.bytesOf_append]
    rfl
  refine ⟨fields.map fieldLine, ?_, fun h hh => filter_fieldName ht ho hf hh⟩
  intro heads body
  rw [hbytes]
  constructor
  · intro h
    exact h.unique hread
  · rintro ⟨rfl, rfl⟩
    exact hread

end EventPost.Http
