import Mathlib.Data.List.Forall2
import Mathlib.Data.List.TakeWhile
import EventPost.Json.Field
import EventPost.Proofs.Json.Lexeme

/-!
The form of a JSON text. Texts are put together of their parts: entries between brackets, with
commas between them and blanks around them, each entry as it is written. What a string stands for is
said byte by byte. A value is only said to be well formed, with numbers of a given kind in it; a
text of which every part is well formed falls into its parts in one way.
-/

namespace EventPost.Json

open Text (Bytes bytesOf)

def Blanks (ws : Bytes) : Prop := ∀ b ∈ ws, isJsonBlank b = true

/-- What stands before an entry: blanks, with a comma between them unless it is the first. -/
inductive Lead : Bool → Bytes → Prop
  | first {ws : Bytes} : Blanks ws → Lead true ws
  | other {ws ws' : Bytes} : Blanks ws → Blanks ws' → Lead false (ws ++ 0x2c :: ws')

/-- What is left up to the closing bracket, and the entries in it. -/
inductive Entries : Bool → Bytes → List Bytes → Prop
  | done {first : Bool} {ws : Bytes} : Blanks ws → Entries first ws []
  | more {first : Bool} {lead text rest : Bytes} {texts : List Bytes} : Lead first lead →
    Entries false rest texts → Entries first (lead ++ (text ++ rest)) (text :: texts)

/-- What stands between two brackets. -/
abbrev Row (inner : Bytes) (texts : List Bytes) : Prop := Entries true inner texts

inductive Quartet : Bytes → Nat → Prop
  | digits {a b c d : UInt8} {va vb vc vd : Nat} : hexValue? a = some va → hexValue? b = some vb →
    hexValue? c = some vc → hexValue? d = some vd →
    Quartet [a, b, c, d] (((va * 16 + vb) * 16 + vc) * 16 + vd)

/-- What stands behind a backslash, and the bytes it stands for. A character beyond the first plane
is written as a pair of units. -/
inductive EscapeSequence : Bytes → Bytes → Prop
  | short {b x : UInt8} : simpleEscape? b = some x → EscapeSequence [b] [x]
  | unit {ds : Bytes} {n : Nat} : Quartet ds n → ¬(0xd800 ≤ n ∧ n ≤ 0xdfff) →
    EscapeSequence (0x75 :: ds) (utf8 n)
  | pair {ds ds' : Bytes} {high low : Nat} : Quartet ds high → Quartet ds' low →
    0xd800 ≤ high ∧ high ≤ 0xdbff → 0xdc00 ≤ low ∧ low ≤ 0xdfff →
    EscapeSequence (0x75 :: (ds ++ 0x5c :: 0x75 :: ds'))
      (utf8 ((high - 0xd800) * 0x400 + (low - 0xdc00) + 0x10000))

/-- What stands between two quotes, and the bytes it stands for. -/
inductive Chars : Bytes → Bytes → Prop
  | done : Chars [] []
  | plain {b : UInt8} {raw out : Bytes} : Plain b → Chars raw out → Chars (b :: raw) (b :: out)
  | escape {e o raw out : Bytes} : EscapeSequence e o → Chars raw out →
    Chars (0x5c :: (e ++ raw)) (o ++ out)

/-- What may stand between two quotes, whether it stands for a text or not. -/
inductive Quotable : Bytes → Prop
  | done : Quotable []
  | plain {b : UInt8} {raw : Bytes} : Plain b → Quotable raw → Quotable (b :: raw)
  | short {b x : UInt8} {raw : Bytes} : simpleEscape? b = some x → Quotable raw →
    Quotable (0x5c :: b :: raw)
  | unit {ds raw : Bytes} {n : Nat} : Quartet ds n → Quotable raw →
    Quotable (0x5c :: 0x75 :: (ds ++ raw))

def IsText (text : Bytes) (s : String) : Prop :=
  ∃ raw, Chars raw (bytesOf s) ∧ text = 0x22 :: (raw ++ [0x22])

def Digits (ds : Bytes) : Prop := ds ≠ [] ∧ ∀ b ∈ ds, isDigit b = true

/-- The digits of a whole number. None begins with a zero but zero. -/
def Whole (ds : Bytes) : Prop := Digits ds ∧ (ds.head? = some 0x30 → ds = [0x30])

def Exponent (bs : Bytes) : Prop :=
  ∃ mark sign ds, isExponentMark mark = true ∧ sign ∈ [[], [0x2b], [0x2d]] ∧ Digits ds ∧
    bs = mark :: (sign ++ ds)

/-- What follows the digits of a whole number: a fraction, an exponent, both or neither. -/
inductive Scaling : Bytes → Prop
  | none : Scaling []
  | exponent {bs : Bytes} : Exponent bs → Scaling bs
  | fraction {ds bs : Bytes} : Digits ds → bs = [] ∨ Exponent bs → Scaling (0x2e :: (ds ++ bs))

def IsNumber (text : Bytes) : Prop :=
  ∃ sign whole scaling, sign ∈ [[], [0x2d]] ∧ Whole whole ∧ Scaling scaling ∧
    text = sign ++ (whole ++ scaling)

def digitsValue (ds : Bytes) : Nat := ds.foldl (fun n b => 10 * n + digitOf b) 0

def IsWord (text : Bytes) (n : UInt64) : Prop := Whole text ∧ digitsValue text = n.toNat

/-- A whole number of 64 bits with its sign. Zero has none. -/
inductive IsInteger : Bytes → Int → Prop
  | positive {ds : Bytes} : Whole ds → Fits (digitsValue ds) → IsInteger ds (digitsValue ds)
  | negative {ds : Bytes} : Whole ds → digitsValue ds ≠ 0 → Fits (-digitsValue ds) →
    IsInteger (0x2d :: ds) (-digitsValue ds)

/-- A member of an object: its key, as it is quoted, and its value, as it is written. -/
def IsMember (text raw value : Bytes) : Prop :=
  ∃ ws ws', Blanks ws ∧ Blanks ws' ∧ text = 0x22 :: (raw ++ 0x22 :: (ws ++ 0x3a :: (ws' ++ value)))

/-- A member of an object: its name, and its value as it is written. -/
def Named (text : Bytes) (m : String × Bytes) : Prop :=
  ∃ raw, Chars raw (bytesOf m.1) ∧ IsMember text raw m.2

def words : List (Bytes × Json) :=
  [(bytesOf "null", .null), (bytesOf "true", .boolean true), (bytesOf "false", .boolean false)]

def Open.opener : Open → UInt8
  | .list => 0x5b
  | .object => 0x7b

def Open.Entry : Open → Bytes → Bytes → Prop
  | .list, entry, value => entry = value
  | .object, entry, value => ∃ raw, Quotable raw ∧ IsMember entry raw value

/-- A value without blanks around it, whose numbers are all of the given kind. -/
inductive Value (number : Bytes → Prop) : Bytes → Prop
  | word {text : Bytes} {v : Json} : (text, v) ∈ words → Value number text
  | number {text : Bytes} : number text → Value number text
  | text {raw : Bytes} : Quotable raw → Value number (0x22 :: (raw ++ [0x22]))
  | nest {o : Open} {inner : Bytes} {texts values : List Bytes} : Row inner texts →
    List.Forall₂ o.Entry texts values → (∀ value ∈ values, Value number value) →
    Value number (o.opener :: (inner ++ [o.closer]))

def IsTextList (text : Bytes) (ss : List String) : Prop :=
  ∃ inner texts, Row inner texts ∧ List.Forall₂ IsText texts ss ∧ text = 0x5b :: (inner ++ [0x5d])

/-- The text is an object with these members, in order: their names, and their values as they are
written. -/
def IsObject (number : Bytes → Prop) (text : Bytes) (ms : List (String × Bytes)) : Prop :=
  ∃ inner texts, Row inner texts ∧ List.Forall₂ Named texts ms ∧
    (∀ m ∈ ms, Value number m.2) ∧ text = 0x7b :: (inner ++ [0x7d])

/-- The text has blanks around it and nothing else. -/
def Alone (P : Bytes → Prop) (bs : Bytes) : Prop :=
  ∃ ws text ws', Blanks ws ∧ Blanks ws' ∧ P text ∧ bs = ws ++ (text ++ ws')

theorem exists_of_forall₂ {α β : Type} {R : α → β → Prop} {as : List α} {bs : List β}
    (h : List.Forall₂ R as bs) {a : α} (ha : a ∈ as) : ∃ b ∈ bs, R a b := by
  induction h with
  | nil => exact absurd ha List.not_mem_nil
  | cons hr _ ih =>
    rcases List.mem_cons.1 ha with rfl | ha
    · exact ⟨_, List.mem_cons_self, hr⟩
    · obtain ⟨b, hb, hr⟩ := ih ha
      exact ⟨b, List.mem_cons_of_mem _ hb, hr⟩

theorem exists_left_of_forall₂ {α β : Type} {R : α → β → Prop} {as : List α} {bs : List β}
    (h : List.Forall₂ R as bs) {b : β} (hb : b ∈ bs) : ∃ a ∈ as, R a b :=
  exists_of_forall₂ h.flip hb

def Stops (rest : Bytes) : Prop :=
  ∀ b ∈ rest.head?, isDigit b = false ∧ b ≠ 0x2e ∧ isExponentMark b = false

theorem stops_nil : Stops [] := fun _ h => nomatch h

theorem stops_cons {b : UInt8} (h : isDigit b = false ∧ b ≠ 0x2e ∧ isExponentMark b = false)
    (rest : Bytes) : Stops (b :: rest) := by
  intro b' hb
  obtain rfl : b = b' := Option.some.inj hb
  exact h

theorem not_number_of_blank {b : UInt8} (h : isJsonBlank b = true) :
    isDigit b = false ∧ b ≠ 0x2e ∧ isExponentMark b = false := by
  simp only [isJsonBlank, Bool.or_eq_true, beq_iff_eq] at h
  rcases h with ((rfl | rfl) | rfl) | rfl <;> decide

theorem Blanks.nil : Blanks [] := fun _ h => nomatch h

theorem Blanks.append {ws ws' : Bytes} (h : Blanks ws) (h' : Blanks ws') : Blanks (ws ++ ws') := by
  intro b hb
  rcases List.mem_append.1 hb with hb | hb
  · exact h b hb
  · exact h' b hb

theorem Lead.append {first : Bool} {lead ws : Bytes} (h : Lead first lead) (hws : Blanks ws) :
    Lead first (lead ++ ws) := by
  cases h with
  | first h => exact .first (h.append hws)
  | other h h' =>
    rw [List.append_assoc]
    exact .other h (h'.append hws)

theorem Blanks.stops {ws rest : Bytes} (h : Blanks ws) (hr : Stops rest) : Stops (ws ++ rest) := by
  cases ws with
  | nil => exact hr
  | cons b ws => exact stops_cons (not_number_of_blank (h b List.mem_cons_self)) _

theorem stops_comma (rest : Bytes) : Stops (0x2c :: rest) := stops_cons (by decide) rest

theorem Open.stops_closer (o : Open) (rest : Bytes) : Stops (o.closer :: rest) := by
  cases o <;> exact stops_cons (by decide) rest

theorem Entries.stops {o : Open} {body : Bytes} {texts : List Bytes} (h : Entries false body texts)
    (rest : Bytes) : Stops (body ++ o.closer :: rest) := by
  cases h with
  | done hws => exact hws.stops (o.stops_closer rest)
  | more hlead =>
    cases hlead with
    | other hws =>
      rw [List.append_assoc, List.append_assoc]
      exact hws.stops (stops_comma _)

theorem skipBlanks_append {ws : Bytes} (h : Blanks ws) (rest : Bytes) :
    skipBlanks (ws ++ rest) = skipBlanks rest :=
  List.dropWhile_append_of_pos h

theorem skipBlanks_eq_nil {bs : Bytes} (h : skipBlanks bs = []) : Blanks bs :=
  List.dropWhile_eq_nil_iff.1 h

theorem skipBlanks_eq_cons {bs r : Bytes} {b : UInt8} (h : skipBlanks bs = b :: r) :
    ∃ ws, Blanks ws ∧ bs = ws ++ b :: r ∧ isJsonBlank b = false := by
  refine ⟨bs.takeWhile isJsonBlank, fun _ hb => List.mem_takeWhile_imp hb, ?_, ?_⟩
  · rw [← h]
    exact (List.takeWhile_append_dropWhile).symm
  · have hhead := List.head?_dropWhile_not isJsonBlank bs
    rw [show bs.dropWhile isJsonBlank = b :: r from h] at hhead
    exact hhead

end EventPost.Json
