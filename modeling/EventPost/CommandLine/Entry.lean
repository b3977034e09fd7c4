import EventPost.Json.Reader
import EventPost.Text.Blank

/-!
Entries written as `KEY=VALUE`. The key ends at the first equals sign and is taken without the
blanks around it; the value is what follows, read as JSON if it is a JSON text and kept as a
string if not.
-/

namespace EventPost.CommandLine

inductive EntryFault
  | noSign (text : String)
  | emptyKey (text : String)
  deriving DecidableEq, Repr

def EntryFault.message : EntryFault → String
  | .noSign s => "expected KEY=VALUE, got '" ++ s ++ "'"
  | .emptyKey s => "empty key in '" ++ s ++ "'"

def splitOnce (sep : Char) : List Char → Option (List Char × List Char)
  | [] => none
  | c :: cs =>
    if c = sep then some ([], cs) else (splitOnce sep cs).map fun (a, b) => (c :: a, b)

def entryValue (s : String) : Json := (Json.parse? s).getD (.text s)

def readEntry (text : String) : Except EntryFault (String × Json) :=
  match splitOnce '=' text.toList with
  | none => .error (.noSign text)
  | some (key, value) =>
    let key := Text.trimChars key
    if key.isEmpty then .error (.emptyKey text)
    else .ok (String.ofList key, entryValue (String.ofList value))

theorem splitOnce_eq_some_iff {sep : Char} {cs a b : List Char} :
    splitOnce sep cs = some (a, b) ↔ cs = a ++ sep :: b ∧ sep ∉ a := by
  induction cs generalizing a with
  | nil => simp [splitOnce]
  | cons c cs ih =>
    by_cases h : c = sep
    · subst h
      cases a with
      | nil => simp [splitOnce]
      | cons x a =>
        simp only [splitOnce, if_true, Option.some.injEq, Prod.mk.injEq, reduceCtorEq, false_and,
          List.cons_append, List.cons.injEq, List.mem_cons, not_or, false_iff, not_and]
        rintro ⟨rfl, _⟩ hx
        exact absurd rfl hx
    · cases a with
      | nil =>
        simp only [splitOnce, h, if_false, Option.map_eq_some_iff, List.nil_append, List.cons.injEq,
          false_and, iff_false, not_exists, not_and]
        rintro ⟨x, y⟩ _
        simp
      | cons x a =>
        simp only [splitOnce, h, if_false, Option.map_eq_some_iff, List.cons_append,
          List.cons.injEq, List.mem_cons, not_or]
        constructor
        · rintro ⟨⟨y, z⟩, hy, heq⟩
          simp only [Prod.mk.injEq, List.cons.injEq] at heq
          obtain ⟨⟨rfl, rfl⟩, rfl⟩ := heq
          obtain ⟨rfl, hn⟩ := ih.1 hy
          exact ⟨⟨rfl, rfl⟩, Ne.symm h, hn⟩
        · rintro ⟨⟨rfl, rfl⟩, _, hn⟩
          exact ⟨(a, b), ih.2 ⟨rfl, hn⟩, rfl⟩

theorem splitOnce_eq_none {sep : Char} {cs : List Char} :
    splitOnce sep cs = none ↔ sep ∉ cs := by
  constructor
  · intro hs hsep
    obtain ⟨before, after, rfl, hbefore⟩ := List.eq_append_cons_of_mem hsep
    rw [splitOnce_eq_some_iff.2 ⟨rfl, hbefore⟩] at hs
    cases hs
  · intro h
    cases hs : splitOnce sep cs with
    | none => rfl
    | some x =>
      obtain ⟨rfl, -⟩ := splitOnce_eq_some_iff.1 hs
      exact absurd (List.mem_append_right _ List.mem_cons_self) h

end EventPost.CommandLine
