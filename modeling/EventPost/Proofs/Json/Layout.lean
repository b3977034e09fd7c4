import EventPost.Json.Writer
import EventPost.Proofs.Numeral.Decimal

/-!
The two texts of a value. `squeeze` takes the spaces and line breaks outside strings out of a JSON
text; what is left of the pretty text of a value is its compact text. Numbers hold neither quotes nor
blanks, and in a string every quote is behind a backslash, so a string ends where its text does.
-/

namespace EventPost.Json

/-- Where in a JSON text the next character stands. -/
inductive Place
  | outside
  | inside
  | escaped
  deriving DecidableEq, Repr

def Place.next : Place → Char → Place
  | .outside, c => if c = '"' then .inside else .outside
  | .inside, c => if c = '"' then .outside else if c = '\\' then .escaped else .inside
  | .escaped, _ => .inside

def isLayout (c : Char) : Bool := c == ' ' || c == '\n' || c == '\r'

def squeezeFrom : Place → List Char → List Char
  | _, [] => []
  | p, c :: cs =>
    if p = .outside ∧ isLayout c = true then squeezeFrom p cs
    else c :: squeezeFrom (p.next c) cs

def squeeze (s : String) : String := String.ofList (squeezeFrom .outside s.toList)

def isNumeral (c : Char) : Bool := c.isDigit || c == '-' || c == '+' || c == '.' || c == 'e'

theorem isNumeral_of_mem_decimal {n : Nat} {c : Char} (h : c ∈ Numeral.decimal n) :
    isNumeral c = true := by
  rw [isNumeral, Numeral.isDigit_of_mem_decimal h]
  rfl

theorem all_isNumeral_digits (l : Numeral.FloatLayout) (k : Nat) (p : Int) :
    (l.digits k p).all isNumeral = true := by
  have hdecimal : ∀ n, (Numeral.decimal n).all isNumeral = true :=
    fun n => List.all_eq_true.2 fun _ => isNumeral_of_mem_decimal
  have hzeros : ∀ n, (List.replicate n '0').all isNumeral = true := by
    intro n
    rw [List.all_replicate]
    split <;> rfl
  have htake : ∀ n, ((Numeral.decimal k).take n).all isNumeral = true :=
    fun n => List.all_eq_true.2 fun _ hc => isNumeral_of_mem_decimal (List.mem_of_mem_take hc)
  have hdrop : ∀ n, ((Numeral.decimal k).drop n).all isNumeral = true :=
    fun n => List.all_eq_true.2 fun _ hc => isNumeral_of_mem_decimal (List.mem_of_mem_drop hc)
  have hpoint : isNumeral '.' = true ∧ isNumeral '0' = true ∧ isNumeral 'e' = true := by decide
  unfold Numeral.FloatLayout.digits
  dsimp only
  split
  · -- Written out: digits, zeros and a point.
    split
    · simp only [List.all_append, hdecimal, hzeros, List.all_cons, List.all_nil, hpoint,
        Bool.and_self]
    · split
      · simp only [List.all_append, htake, hdrop, List.all_cons, List.all_nil, hpoint,
          Bool.and_self]
      · simp only [List.all_append, hdecimal, hzeros, List.all_cons, List.all_nil, hpoint,
          Bool.and_self]
  · have hfraction : (if (Numeral.decimal k).length = 1 then []
        else '.' :: (Numeral.decimal k).drop 1).all isNumeral = true := by
      split
      · rfl
      · rw [List.all_cons, hdrop, hpoint.1]
        rfl
    have hsign : ∀ lead : Int, (if lead < 0 then ['-'] else if l.plus then ['+'] else []).all
        isNumeral = true := by
      intro lead
      split
      · rfl
      · split <;> rfl
    simp only [List.all_append, htake, hfraction, hsign, hdecimal, List.all_cons, List.all_nil,
      hpoint, Bool.and_self]

theorem isNumeral_of_mem_write {n : Number} {c : Char} (h : c ∈ n.write) : isNumeral c = true := by
  cases n with
  | integer i hi =>
    rw [Number.write] at h
    split at h
    · rcases List.mem_cons.1 h with rfl | h
      · rfl
      · exact isNumeral_of_mem_decimal h
    · exact isNumeral_of_mem_decimal h
  | real x =>
    rw [Number.write, Numeral.FloatLayout.write] at h
    rcases List.mem_append.1 h with h | h
    · split at h
      · rw [List.mem_singleton.1 h]
        rfl
      · exact absurd h List.not_mem_nil
    · split at h
      · have hzero : ['0', '.', '0'].all isNumeral = true := by decide
        exact List.all_eq_true.1 hzero c h
      · exact List.all_eq_true.1 (all_isNumeral_digits _ _ _) c h

/-- A character that stays outside strings, and is kept there. -/
def Standing (c : Char) : Prop := c ≠ '"' ∧ isLayout c = false

theorem standing_of_isNumeral {c : Char} (h : isNumeral c = true) : Standing c := by
  refine ⟨?_, ?_⟩
  · rintro rfl
    exact absurd h (by decide)
  · rw [Bool.eq_false_iff]
    intro hl
    simp only [isLayout, Bool.or_eq_true, beq_iff_eq] at hl
    rcases hl with (rfl | rfl) | rfl <;> exact absurd h (by decide)

theorem squeezeFrom_cons {c : Char} (h : Standing c) (cs : List Char) :
    squeezeFrom .outside (c :: cs) = c :: squeezeFrom .outside cs := by
  have hlayout : ¬(Place.outside = .outside ∧ isLayout c = true) := by
    rw [h.2]
    exact fun hc => Bool.false_ne_true hc.2
  rw [squeezeFrom, if_neg hlayout, Place.next, if_neg h.1]

theorem squeezeFrom_append {cs : List Char} (h : ∀ c ∈ cs, Standing c) (rest : List Char) :
    squeezeFrom .outside (cs ++ rest) = cs ++ squeezeFrom .outside rest := by
  induction cs with
  | nil => rfl
  | cons c cs ih =>
    rw [List.cons_append, squeezeFrom_cons (h c List.mem_cons_self),
      ih fun d hd => h d (List.mem_cons_of_mem c hd), List.cons_append]

theorem squeezeFrom_layout {cs : List Char} (h : ∀ c ∈ cs, isLayout c = true) (rest : List Char) :
    squeezeFrom .outside (cs ++ rest) = squeezeFrom .outside rest := by
  induction cs with
  | nil => rfl
  | cons c cs ih =>
    rw [List.cons_append, squeezeFrom, if_pos ⟨rfl, h c List.mem_cons_self⟩,
      ih fun d hd => h d (List.mem_cons_of_mem c hd)]

theorem squeezeFrom_lineAt (depth : Nat) (rest : List Char) :
    squeezeFrom .outside (lineAt depth ++ rest) = squeezeFrom .outside rest := by
  apply squeezeFrom_layout
  intro c hc
  rcases List.mem_cons.1 hc with rfl | hc
  · rfl
  · rw [List.eq_of_mem_replicate hc]
    rfl

def isSolid (c : Char) : Bool := 0x20 ≤ c.toNat

/-- A character that may stand in a string as it is. -/
structure Bare (c : Char) : Prop where
  notQuote : c ≠ '"'
  notSlash : c ≠ '\\'
  solid : isSolid c = true

inductive Escape (c : Char) : List Char → Prop
  | short {d : Char} : isSolid d = true → Escape c ['\\', d]
  | code {d e : Char} : Bare d → Bare e → Escape c ['\\', 'u', '0', '0', d, e]
  | itself : Bare c → Escape c [c]

theorem bare_hexDigit (n : Nat) : Bare (Text.hexDigit n) := by
  have hcode : ∀ k < 16, (Nat.toDigits 16 k).headD '0' ≠ '"' ∧
      (Nat.toDigits 16 k).headD '0' ≠ '\\' ∧
      isSolid ((Nat.toDigits 16 k).headD '0') = true := by decide
  obtain ⟨hquote, hslash, hsolid⟩ := hcode (n % 16) (Nat.mod_lt n (by decide))
  exact ⟨hquote, hslash, hsolid⟩

theorem escape_escapeChar (c : Char) : Escape c (escapeChar c) := by
  unfold escapeChar
  iterate 7
    split
    · exact .short (by decide)
  split
  · exact .code (bare_hexDigit _) (bare_hexDigit _)
  · rename_i hquote hslash _ _ _ _ _ hcontrol
    exact .itself ⟨hquote, hslash, decide_eq_true (Nat.not_lt.1 hcontrol)⟩

theorem squeezeFrom_bare {c : Char} (h : Bare c) (rest : List Char) :
    squeezeFrom .inside (c :: rest) = c :: squeezeFrom .inside rest := by
  rw [squeezeFrom, if_neg (fun hc => nomatch hc.1), Place.next, if_neg h.notQuote,
    if_neg h.notSlash]

theorem squeezeFrom_escapeChar (c : Char) (rest : List Char) :
    squeezeFrom .inside (escapeChar c ++ rest) = escapeChar c ++ squeezeFrom .inside rest := by
  -- A backslash takes the next character with it, a quote too.
  have hslash : ∀ d rest, squeezeFrom .inside ('\\' :: d :: rest) =
      '\\' :: d :: squeezeFrom .inside rest := fun _ _ => rfl
  have hzero : ∀ rest, squeezeFrom .inside ('0' :: rest) = '0' :: squeezeFrom .inside rest :=
    fun _ => rfl
  generalize escapeChar c = cs, escape_escapeChar c = h
  cases h with
  | short _ => exact hslash _ rest
  | code hd he =>
    simp only [List.cons_append, List.nil_append]
    rw [hslash, hzero, hzero, squeezeFrom_bare hd, squeezeFrom_bare he]
  | itself hc => exact squeezeFrom_bare hc rest

theorem squeezeFrom_writeText (s : String) (rest : List Char) :
    squeezeFrom .outside (writeText s ++ rest) = writeText s ++ squeezeFrom .outside rest := by
  have hinner : ∀ cs : List Char, squeezeFrom .inside (cs.flatMap escapeChar ++ '"' :: rest) =
      cs.flatMap escapeChar ++ '"' :: squeezeFrom .outside rest := by
    intro cs
    induction cs with
    | nil => rfl
    | cons c cs ih =>
      rw [List.flatMap_cons, List.append_assoc, squeezeFrom_escapeChar, ih, List.append_assoc]
  -- The closing quote is the first that stands alone: those of the text are behind a backslash.
  have hopen : ∀ cs, squeezeFrom .outside ('"' :: cs) = '"' :: squeezeFrom .inside cs :=
    fun _ => rfl
  rw [writeText, List.append_assoc, List.cons_append, List.singleton_append, hopen, hinner,
    List.append_assoc, List.cons_append, List.singleton_append]

theorem squeezeFrom_member (k : String) (rest : List Char) :
    squeezeFrom .outside (writeText k ++ ':' :: ' ' :: rest) =
      writeText k ++ ':' :: squeezeFrom .outside rest := by
  have hcolon : Standing ':' := ⟨by decide, rfl⟩
  have hspace : squeezeFrom .outside (' ' :: rest) = squeezeFrom .outside rest := rfl
  rw [squeezeFrom_writeText, squeezeFrom_cons hcolon, hspace]

mutual
theorem squeezeFrom_writePretty (depth : Nat) (v : Json) (rest : List Char) :
    squeezeFrom .outside (writePretty depth v ++ rest) = write v ++ squeezeFrom .outside rest :=
  match v with
  | .null => rfl
  | .boolean b => by cases b <;> rfl
  | .number n => by
    rw [writePretty, write]
    exact squeezeFrom_append (fun c hc => standing_of_isNumeral (isNumeral_of_mem_write hc)) rest
  | .text s => by
    rw [writePretty, write]
    exact squeezeFrom_writeText s rest
  | .list [] => rfl
  | .list (v :: vs) => by
    have hopen : Standing '[' := ⟨by decide, rfl⟩
    have hclose : Standing ']' := ⟨by decide, rfl⟩
    -- Bracket, line, first item, the other items, line, bracket: the lines go, the rest stays.
    rw [writePretty, write]
    simp only [List.cons_append, List.append_assoc, List.nil_append]
    rw [squeezeFrom_cons hopen, squeezeFrom_lineAt, squeezeFrom_writePretty,
      squeezeFrom_writePrettyItems, squeezeFrom_lineAt, squeezeFrom_cons hclose]
  | .object [] => rfl
  | .object ((k, v) :: ms) => by
    have hopen : Standing '{' := ⟨by decide, rfl⟩
    have hclose : Standing '}' := ⟨by decide, rfl⟩
    rw [writePretty, write]
    simp only [List.cons_append, List.append_assoc, List.nil_append]
    rw [squeezeFrom_cons hopen, squeezeFrom_lineAt, squeezeFrom_member, squeezeFrom_writePretty,
      squeezeFrom_writePrettyMembers, squeezeFrom_lineAt, squeezeFrom_cons hclose]

theorem squeezeFrom_writePrettyItems (depth : Nat) (vs : List Json) (rest : List Char) :
    squeezeFrom .outside (writePrettyItems depth vs ++ rest) =
      writeItems vs ++ squeezeFrom .outside rest :=
  match vs with
  | [] => rfl
  | v :: vs => by
    have hcomma : Standing ',' := ⟨by decide, rfl⟩
    rw [writePrettyItems, writeItems]
    simp only [List.cons_append, List.append_assoc]
    rw [squeezeFrom_cons hcomma, squeezeFrom_lineAt, squeezeFrom_writePretty,
      squeezeFrom_writePrettyItems]

theorem squeezeFrom_writePrettyMembers (depth : Nat) (ms : List (String × Json))
    (rest : List Char) : squeezeFrom .outside (writePrettyMembers depth ms ++ rest) =
      writeMembers ms ++ squeezeFrom .outside rest :=
  match ms with
  | [] => rfl
  | (k, v) :: ms => by
    have hcomma : Standing ',' := ⟨by decide, rfl⟩
    rw [writePrettyMembers, writeMembers]
    simp only [List.cons_append, List.append_assoc, List.nil_append]
    rw [squeezeFrom_cons hcomma, squeezeFrom_lineAt, squeezeFrom_member, squeezeFrom_writePretty,
      squeezeFrom_writePrettyMembers]
end

theorem squeeze_pretty (v : Json) : squeeze v.pretty = v.compact := by
  have h := squeezeFrom_writePretty 0 v []
  rw [List.append_nil, squeezeFrom, List.append_nil] at h
  rw [squeeze, pretty, compact, String.toList_ofList, h]

theorem isSolid_of_isNumeral {c : Char} (h : isNumeral c = true) : isSolid c = true := by
  simp only [isNumeral, Bool.or_eq_true, beq_iff_eq] at h
  rcases h with (((h | rfl) | rfl) | rfl) | rfl
  · have hdigit := Char.isDigit_iff_toNat.1 h
    have hzero : '0'.toNat = 48 := rfl
    exact decide_eq_true (by omega)
  all_goals rfl

theorem all_isSolid_escapeChar (c : Char) : (escapeChar c).all isSolid = true := by
  have hmarks : isSolid '\\' = true ∧ isSolid 'u' = true ∧ isSolid '0' = true := by decide
  generalize escapeChar c = cs, escape_escapeChar c = h
  cases h with
  | short hd => simp only [List.all_cons, List.all_nil, hmarks, hd, Bool.and_self]
  | code hd he => simp only [List.all_cons, List.all_nil, hmarks, hd.solid, he.solid, Bool.and_self]
  | itself hc => simp only [List.all_cons, List.all_nil, hc.solid, Bool.and_self]

theorem all_isSolid_writeText (s : String) : (writeText s).all isSolid = true := by
  have hinner : (s.toList.flatMap escapeChar).all isSolid = true := by
    rw [List.all_flatMap, List.all_eq_true]
    exact fun c _ => all_isSolid_escapeChar c
  have hquote : isSolid '"' = true := by decide
  simp only [writeText, List.all_append, List.all_cons, List.all_nil, hinner, hquote, Bool.and_self]

mutual
theorem all_isSolid_write (v : Json) : v.write.all isSolid = true :=
  match v with
  | .null => rfl
  | .boolean b => by cases b <;> rfl
  | .number n => by
    rw [write, List.all_eq_true]
    exact fun c hc => isSolid_of_isNumeral (isNumeral_of_mem_write hc)
  | .text s => by rw [write, all_isSolid_writeText]
  | .list [] => rfl
  | .list (v :: vs) => by
    have hmarks : isSolid '[' = true ∧ isSolid ']' = true := by decide
    simp only [write, List.all_append, List.all_cons, List.all_nil, hmarks, all_isSolid_write v,
      all_isSolid_writeItems vs, Bool.and_self]
  | .object [] => rfl
  | .object ((k, v) :: ms) => by
    have hmarks : isSolid '{' = true ∧ isSolid '}' = true ∧ isSolid ':' = true := by decide
    simp only [write, List.all_append, List.all_cons, List.all_nil, hmarks, all_isSolid_writeText k,
      all_isSolid_write v, all_isSolid_writeMembers ms, Bool.and_self]

theorem all_isSolid_writeItems (vs : List Json) : (writeItems vs).all isSolid = true :=
  match vs with
  | [] => rfl
  | v :: vs => by
    have hcomma : isSolid ',' = true := by decide
    simp only [writeItems, List.all_append, List.all_cons, hcomma, all_isSolid_write v,
      all_isSolid_writeItems vs, Bool.and_self]

theorem all_isSolid_writeMembers (ms : List (String × Json)) :
    (writeMembers ms).all isSolid = true :=
  match ms with
  | [] => rfl
  | (k, v) :: ms => by
    have hmarks : isSolid ',' = true ∧ isSolid ':' = true := by decide
    simp only [writeMembers, List.all_append, List.all_cons, List.all_nil, hmarks,
      all_isSolid_writeText k, all_isSolid_write v, all_isSolid_writeMembers ms, Bool.and_self]
end

end EventPost.Json
