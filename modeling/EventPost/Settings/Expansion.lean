import EventPost.Settings.Overrides
import EventPost.Text.Alphanumeric

/-!
Paths with references in them: a tilde for the home directory, and variables, alone or in braces,
where a value to fall back on may follow the name. `pieces` finds the references; each is replaced
once, and what takes its place is not looked at again. A reference to a variable that is not set,
and has nothing to fall back on, leaves the whole path as it is.
-/

namespace EventPost

namespace Settings

/-- A character of a path, or a reference to a variable. -/
inductive Piece
  | literal (c : Char)
  | variable (name : List Char) (fallback : Option (List Char))
  deriving DecidableEq, Repr

def isNameChar (c : Char) : Bool := Text.isAlphanumeric c || c == '_'

def closeBrace? : List Char → Option (List Char × List Char)
  | [] => none
  | c :: cs =>
    if c = '}' then some ([], cs)
    else (closeBrace? cs).map fun (inner, rest) => (c :: inner, rest)

theorem length_closeBrace? {cs inner rest : List Char} (h : closeBrace? cs = some (inner, rest)) :
    rest.length < cs.length := by
  induction cs generalizing inner with
  | nil => simp [closeBrace?] at h
  | cons c cs ih =>
    simp only [closeBrace?] at h
    split at h
    · simp only [Option.some.injEq, Prod.mk.injEq] at h
      simp [← h.2]
    · simp only [Option.map_eq_some_iff, Prod.mk.injEq, Prod.exists] at h
      obtain ⟨_, _, h, _, rfl⟩ := h
      have := ih h
      simp only [List.length_cons]; omega

def splitFallback? : List Char → Option (List Char × List Char)
  | ':' :: '-' :: cs => some ([], cs)
  | c :: cs => (splitFallback? cs).map fun (name, fallback) => (c :: name, fallback)
  | [] => none

def braced (inner : List Char) : Piece :=
  match splitFallback? inner with
  | some (c :: name, fallback) => .variable (c :: name) (some fallback)
  | _ => .variable inner none

def pieces : List Char → List Piece
  | [] => []
  | c :: cs =>
    if c ≠ '$' then .literal c :: pieces cs
    else match cs with
      | [] => [.literal '$']
      | d :: ds =>
        if d = '{' then
          match _h : closeBrace? ds with
          | none => .literal '$' :: pieces (d :: ds)
          | some (inner, rest) => braced inner :: pieces rest
        else if isNameChar d then
          .variable (d :: ds.takeWhile isNameChar) none :: pieces (ds.dropWhile isNameChar)
        else if d = '$' then .literal '$' :: pieces ds
        else .literal '$' :: pieces (d :: ds)
termination_by cs => cs.length
decreasing_by
  · exact Nat.lt_succ_self _
  · exact Nat.lt_succ_self _
  · have := length_closeBrace? _h
    simp only [List.length_cons]
    omega
  · have := (ds.dropWhile_sublist isNameChar).length_le
    simp only [List.length_cons]
    omega
  · simp only [List.length_cons]
    omega
  · exact Nat.lt_succ_self _

def Piece.expand? (lookup : String → Option String) : Piece → Option (List Char)
  | .literal c => some [c]
  | .variable name fallback =>
    match lookup (String.ofList name) with
    | some s => some s.toList
    | none => fallback

def expandVariables? (lookup : String → Option String) (cs : List Char) : Option (List Char) :=
  ((pieces cs).mapM (Piece.expand? lookup)).map List.flatten

def expandTilde (home : Option String) : List Char → List Char
  | '~' :: cs =>
    if cs.isEmpty ∨ cs.head? = some '/' then
      match home with
      | some h => h.toList ++ cs
      | none => '~' :: cs
    else '~' :: cs
  | cs => cs

/-- A tilde that comes from a variable stands for itself. -/
def expandChars (lookup : String → Option String) (home : Option String) (cs : List Char) :
    List Char :=
  match expandVariables? lookup cs with
  | none => cs
  | some out =>
    if cs.head? ≠ some '~' ∧ out.head? = some '~' then out else expandTilde home out

end Settings

/-- The home directory: the one that a variable names, or else the account's. Neither counts if it
is empty. -/
def Environment.home? (env : Environment) : Option String :=
  ((env.get? "HOME").filter (· ≠ "")).or (env.accountHome.filter (· ≠ ""))

def Settings.expand (env : Environment) (path : String) : String :=
  String.ofList (expandChars env.get? env.home? path.toList)

end EventPost
