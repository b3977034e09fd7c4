import EventPost.Proofs.Json.Layout
import EventPost.Proofs.Text.Line
import EventPost.Json.Field

/-!
What a reader that fails says. Whatever the bytes, the words of the fault stand on one line: what is
quoted of a text is escaped, and everything else a fault names is a name of the reader's own.
-/

namespace EventPost.Json

open Text (Bytes OneLine isLineEnd oneLine_append oneLine_ofList oneLine_decimalText oneLine_quote)

def Cause.OneLine : Cause → Prop
  | .wrongType _ expected | .wrongValue _ expected | .wrongLength _ expected =>
    Text.OneLine expected
  | .missingField name | .duplicateField name => Text.OneLine name
  | _ => True

theorem isLineEnd_of_isNumeral {c : Char} (h : isNumeral c = true) : isLineEnd c = false := by
  rw [Text.isLineEnd_eq_false]
  constructor
  · rintro rfl
    exact absurd h (by decide)
  · rintro rfl
    exact absurd h (by decide)

theorem oneLine_write (n : Number) : OneLine (String.ofList n.write) :=
  oneLine_ofList.2 fun _ hc => isLineEnd_of_isNumeral (isNumeral_of_mem_write hc)

theorem oneLine_describe (found : Found) : OneLine found.describe := by
  have hquoted : ∀ (name s : String), OneLine name → OneLine s → OneLine (name ++ s ++ "`") :=
    fun name s hn hs => (hn.append hs).append (by decide)
  cases found with
  | null => decide
  | boolean b => cases b <;> decide
  | number n =>
    cases n with
    | integer i h => exact hquoted _ _ (by decide) (oneLine_write _)
    | real x => exact hquoted _ _ (by decide) (oneLine_write _)
  | text s => exact (by decide : OneLine "string ").append (oneLine_quote s)
  | list => decide
  | object => decide

theorem Cause.OneLine.message {c : Cause} (h : c.OneLine) : Text.OneLine c.message := by
  have hwrong : ∀ {s t expected : String}, Text.OneLine s → Text.OneLine t →
      Text.OneLine expected → Text.OneLine (s ++ t ++ ", expected " ++ expected) :=
    fun hs ht he => ((hs.append ht).append (by decide)).append he
  have hfield : ∀ {s name : String}, Text.OneLine s → Text.OneLine name →
      Text.OneLine (s ++ name ++ "`") :=
    fun hs hname => (hs.append hname).append (by decide)
  cases c with
  | wrongType found expected => exact hwrong (by decide) (oneLine_describe found) h
  | wrongValue found expected => exact hwrong (by decide) (oneLine_describe found) h
  | wrongLength n expected => exact hwrong (by decide) (oneLine_decimalText n) h
  | missingField name => exact hfield (by decide) h
  | duplicateField name => exact hfield (by decide) h
  | _ => decide

theorem oneLine_fault {f : Fault} (h : f.cause.OneLine) (text : Bytes) :
    OneLine (f.message text) := by
  simp only [Fault.message, oneLine_append]
  exact ⟨⟨⟨⟨h.message, by decide⟩, oneLine_decimalText _⟩, by decide⟩, oneLine_decimalText _⟩

variable {α : Type} {f : Fault} {c : Cause}

@[grind →] theorem cause_fail {rest : Bytes} (h : (fail c rest : Except Fault α) = .error f) :
    f.cause = c := (congrArg Fault.cause (Except.error.inj h)).symm

@[grind →] theorem cause_failAt {rest : Bytes} (h : (failAt c rest : Except Fault α) = .error f) :
    f.cause = c := (congrArg Fault.cause (Except.error.inj h)).symm

attribute [grind =] Cause.OneLine

@[grind →] theorem oneLine_readWord {word bs : Bytes} (h : readWord word bs = .error f) :
    f.cause.OneLine := by
  induction word generalizing bs with
  | nil => grind [readWord]
  | cons w ws ih => cases bs <;> grind [readWord]

@[grind →] theorem oneLine_scaledNumber {negative : Bool} {n : Nat} {e : Int} {rest : Bytes}
    (h : scaledNumber negative n e rest = .error f) : f.cause.OneLine := by
  unfold scaledNumber at h
  grind

@[grind →] theorem oneLine_readExponent {negative : Bool} {n : Nat} {e : Int} {bs : Bytes}
    (h : readExponent negative n e bs = .error f) : f.cause.OneLine := by
  unfold readExponent at h
  grind

@[grind →] theorem oneLine_readFraction {negative : Bool} {n : Nat} {e : Int} {bs : Bytes}
    (h : readFraction negative n e bs = .error f) : f.cause.OneLine := by
  unfold readFraction at h
  grind

@[grind →] theorem oneLine_readAfterWhole {negative : Bool} {digits rest : Bytes}
    (h : readAfterWhole negative digits rest = .error f) : f.cause.OneLine := by
  unfold readAfterWhole at h
  grind

@[grind →] theorem oneLine_readNumber {negative : Bool} {bs : Bytes}
    (h : readNumber negative bs = .error f) : f.cause.OneLine := by
  unfold readNumber at h
  grind

@[grind →] theorem oneLine_readNumeral {b : UInt8} {bs : Bytes}
    (h : readNumeral b bs = .error f) : f.cause.OneLine := by
  unfold readNumeral at h
  grind

@[grind →] theorem oneLine_readUnit {bs : Bytes} (h : readUnit bs = .error f) :
    f.cause.OneLine := by
  unfold readUnit at h
  grind

@[grind →] theorem oneLine_readLowUnit {high : Nat} {bs : Bytes}
    (h : readLowUnit high bs = .error f) : f.cause.OneLine := by
  unfold readLowUnit at h
  grind

@[grind →] theorem oneLine_readEscape {bs : Bytes} (h : readEscape bs = .error f) :
    f.cause.OneLine := by
  unfold readEscape at h
  grind

@[grind →] theorem oneLine_takeText {acc bs : Bytes} (h : takeText acc bs = .error f) :
    f.cause.OneLine := by
  fun_induction takeText acc bs <;> grind

@[grind →] theorem oneLine_readText {bs : Bytes} (h : readText bs = .error f) :
    f.cause.OneLine := by
  unfold readText at h
  grind

@[grind →] theorem oneLine_wrongKind {expected : String} {b : UInt8} {r : Bytes}
    (h : (wrongKind expected b r : Except Fault α) = .error f) (hexpected : OneLine expected) :
    f.cause.OneLine := by
  unfold wrongKind at h
  grind

@[grind →] theorem oneLine_textField {bs : Bytes} (h : textField bs = .error f) :
    f.cause.OneLine := by
  have hkind : OneLine "a string" := by decide
  unfold textField at h
  grind

@[grind →] theorem oneLine_wordField {bs : Bytes} (h : wordField bs = .error f) :
    f.cause.OneLine := by
  have hkind : OneLine "u64" := by decide
  unfold wordField at h
  grind

theorem oneLine_foldItems {σ : Type} {step : σ → Bytes → Reading σ}
    (hstep : ∀ {acc bs f}, step acc bs = .error f → f.cause.OneLine) {fuel : Nat} {first : Bool}
    {acc : σ} {bs : Bytes} (h : foldItems step fuel first acc bs = .error f) :
    f.cause.OneLine := by
  induction fuel generalizing first acc bs with
  | zero =>
    unfold foldItems at h
    grind
  | succ fuel ih =>
    unfold foldItems at h
    grind

theorem oneLine_foldMembers {σ : Type} {step : σ → String → Bytes → Reading σ}
    (hstep : ∀ {acc key bs f}, step acc key bs = .error f → f.cause.OneLine) {fuel : Nat}
    {first : Bool} {acc : σ} {bs : Bytes} (h : foldMembers step fuel first acc bs = .error f) :
    f.cause.OneLine := by
  induction fuel generalizing first acc bs with
  | zero =>
    unfold foldMembers at h
    grind
  | succ fuel ih =>
    unfold foldMembers at h
    split at h
    · grind
    · dsimp only at h
      split at h
      · cases h
      · split at h
        · grind
        · grind

@[grind →] theorem oneLine_textListField {depth : Nat} {bs : Bytes}
    (h : textListField depth bs = .error f) : f.cause.OneLine := by
  have hkind : OneLine "a sequence" := by decide
  have hitem : ∀ {acc bs f}, itemStep textField acc bs = .error f → f.cause.OneLine := by
    intro acc bs f h
    unfold itemStep at h
    grind
  unfold textListField at h
  split at h
  · grind
  · split at h
    · split at h
      · grind
      · split at h
        · rename_i hitems
          exact Except.error.inj h ▸ oneLine_foldItems hitem hitems
        · cases h
    · exact oneLine_wrongKind h hkind

@[grind →] theorem oneLine_readColon {bs : Bytes} (h : readColon bs = .error f) :
    f.cause.OneLine := by
  unfold readColon at h
  grind

@[grind →] theorem oneLine_skipText {bs : Bytes} (h : skipText bs = .error f) :
    f.cause.OneLine := by
  induction hlength : bs.length using Nat.strongRecOn generalizing bs with
  | ind n ih =>
    subst hlength
    rw [skipText.eq_def] at h
    split at h
    · grind
    · split at h
      · cases h
      · split at h
        · split at h
          · grind
          · split at h
            · exact ih _ (by simp only [List.length_cons]; omega) h rfl
            · split at h
              · split at h
                · grind
                · rename_i hunit
                  have hshorter := length_readUnit hunit
                  exact ih _ (by simp only [List.length_cons]; omega) h rfl
              · grind
        · grind

@[grind →] theorem oneLine_skipExponent {bs : Bytes} (h : skipExponent bs = .error f) :
    f.cause.OneLine := by
  unfold skipExponent at h
  grind

@[grind →] theorem oneLine_skipAfterWhole {bs : Bytes} (h : skipAfterWhole bs = .error f) :
    f.cause.OneLine := by
  unfold skipAfterWhole at h
  grind

@[grind →] theorem oneLine_skipNumber {bs : Bytes} (h : skipNumber bs = .error f) :
    f.cause.OneLine := by
  unfold skipNumber at h
  grind

@[grind →] theorem oneLine_beforeValue {o : Open} {bs : Bytes} (h : o.beforeValue bs = .error f) :
    f.cause.OneLine := by
  unfold Open.beforeValue at h
  grind

theorem oneLine_expectation (o : Open) : o.atEnd.OneLine ∧ o.expectedEnd.OneLine := by
  cases o <;> exact ⟨trivial, trivial⟩

theorem oneLine_skipFrom {fuel : Nat} {p : Passing} {holders : List Open} {bs : Bytes}
    (h : skipFrom fuel p holders bs = .error f) : f.cause.OneLine := by
  induction fuel generalizing p holders bs with
  | zero => grind [skipFrom]
  | succ fuel ih =>
    cases p with
    | value =>
      rw [skipFrom] at h
      grind
    | behind complete =>
      cases holders with
      | nil => cases h
      | cons o holders =>
        have ho := oneLine_expectation o
        rw [skipFrom] at h
        grind

@[grind →] theorem oneLine_skipValue {bs : Bytes} (h : skipValue bs = .error f) :
    f.cause.OneLine := oneLine_skipFrom h

theorem oneLine_readWhole {read : Bytes → Reading α}
    (hread : ∀ {bs f}, read bs = .error f → f.cause.OneLine) {bs : Bytes}
    (h : readWhole read bs = .error f) : f.cause.OneLine := by
  unfold readWhole at h
  grind

end EventPost.Json
