import EventPost.Proofs.Json.Integer
import EventPost.Proofs.Json.Meaning

/-!
Readers of one kind of value, and the fields that members fill. A field is filled by the one member
of its name; a second member of the name finds it filled already.
-/

namespace EventPost.Json

open Text (Bytes bytesOf)

variable {α : Type}

theorem IsWord.value {text : Bytes} {n : UInt64} (h : IsWord text n) : Value IsNumber text :=
  .number ((isNumeral_integer (fits_toNat n)).2 (isWord_iff.1 h)).isNumber

theorem IsTextList.value {text : Bytes} {ss : List String} (h : IsTextList text ss) :
    Value IsNumber text := by
  obtain ⟨inner, texts, hrow, hss, rfl⟩ := h
  refine .list hrow fun text ht => ?_
  obtain ⟨s, -, hs⟩ := exists_of_forall₂ hss ht
  exact hs.value

theorem IsObject.value {number : Bytes → Prop} {text : Bytes} {ms : List (String × Bytes)}
    (h : IsObject number text ms) : Value number text := by
  obtain ⟨inner, texts, hrow, hnamed, hvalues, rfl⟩ := h
  exact .object hrow hnamed hvalues

theorem reads_textField : Reads textField IsText := by
  refine reads_of_head (fun bs => ?_) ?_ IsText.value ?_
  · rw [textField, skipBlanks_skipBlanks, textField]
  · intro x h
    cases h
  · intro b r s rest hb hr
    rw [textField, skipBlanks_cons hb]
    dsimp only
    constructor
    · intro h
      split at h
      · rename_i hquote
        subst hquote
        obtain ⟨raw, hraw, rfl⟩ := readText_eq_ok.1 h
        exact ⟨raw ++ [0x22], ⟨raw, hraw, rfl⟩, by simp⟩
      · exact absurd h (wrongKind_ne_ok _ _ _ _)
    · intro h
      obtain ⟨bs, ⟨raw, hraw, hbytes⟩, rfl⟩ := h
      obtain ⟨rfl, rfl⟩ := List.cons.inj hbytes
      rw [if_pos rfl]
      exact readText_eq_ok.2 ⟨raw, hraw, by simp⟩

theorem toNat_ofNat_of_fits {i : Int} (h : Fits i) (hpos : ¬i < 0) :
    ((UInt64.ofNat i.toNat).toNat : Int) = i := by
  have hmax := h.2
  rw [UInt64.toNat_ofNat_of_lt' (by rw [UInt64.size]; omega)]
  omega

theorem reads_wordField : Reads wordField IsWord := by
  refine reads_of_head (fun bs => ?_) ?_ IsWord.value ?_
  · rw [wordField, skipBlanks_skipBlanks, wordField]
  · intro x h
    cases h
  · intro b r n rest hb hr
    rw [wordField, skipBlanks_cons hb]
    dsimp only
    constructor
    · intro h
      split at h
      · split at h
        · cases h
        · cases h
        · rename_i i hfits rest' hnumeral
          split at h
          · cases h
          · rename_i hpos
            obtain ⟨rfl, rfl⟩ := Prod.mk.inj (Except.ok.inj h)
            obtain ⟨bs, hbs, rfl⟩ := (readNumeral_eq_ok hr).1 hnumeral
            refine ⟨bs, isWord_iff.2 ?_, rfl⟩
            rw [toNat_ofNat_of_fits hfits hpos]
            exact (isNumeral_integer hfits).1 hbs
      · exact absurd h (wrongKind_ne_ok _ _ _ _)
    · intro h
      obtain ⟨bs, hword, rfl⟩ := h
      have hnumeral := (isNumeral_integer (fits_toNat n)).2 (isWord_iff.1 hword)
      obtain ⟨b', bs', hbytes, hstart⟩ := hnumeral.head
      obtain ⟨rfl, rfl⟩ := List.cons.inj hbytes
      have hread := (readNumeral_eq_ok hr).2 ⟨bs, hnumeral, rfl⟩
      rw [if_pos hstart, hread]
      simp only
      rw [if_neg (by omega)]
      simp

theorem reads_textListField {depth : Nat} (hd : depth ≠ 0) :
    Reads (textListField depth) IsTextList := by
  refine reads_of_head (fun bs => ?_) ?_ IsTextList.value ?_
  · rw [textListField, skipBlanks_skipBlanks, textListField]
  · intro x h
    cases h
  · intro b r ss rest hb hr
    rw [textListField, skipBlanks_cons hb]
    dsimp only
    constructor
    · intro h
      split at h
      · rename_i hopen
        subst hopen
        split at h
        · cases h
        · rename_i hitems
          obtain ⟨rfl, rfl⟩ := Prod.mk.inj (Except.ok.inj h)
          obtain ⟨inner, texts, ss, hrow, hss, rfl, rfl⟩ :=
            (readItems_eq_ok reads_textField IsText.value).1 hitems
          rw [List.reverse_reverse]
          exact ⟨inner ++ [0x5d], ⟨inner, texts, hrow, hss, rfl⟩, by simp⟩
      · exact absurd h (wrongKind_ne_ok _ _ _ _)
    · intro h
      obtain ⟨bs, ⟨inner, texts, hrow, hss, hbytes⟩, rfl⟩ := h
      obtain ⟨rfl, rfl⟩ := List.cons.inj hbytes
      have hitems : foldItems (itemStep textField) (inner ++ [0x5d] ++ rest).length true []
          (inner ++ [0x5d] ++ rest) = .ok (ss.reverse, rest) :=
        (readItems_eq_ok reads_textField IsText.value).2
          ⟨inner, texts, ss, hrow, hss, rfl, List.append_assoc ..⟩
      rw [if_pos rfl, if_neg hd, hitems]
      simp only [List.reverse_reverse]

/-- The values, as they are written, of the members of a name. -/
def valuesOf (name : String) (ms : List (String × Bytes)) : List Bytes :=
  (ms.filter fun m => m.1 = name).map Prod.snd

theorem valuesOf_self (name : String) (text : Bytes) (ms : List (String × Bytes)) :
    valuesOf name ((name, text) :: ms) = text :: valuesOf name ms := by
  simp [valuesOf]

theorem valuesOf_other {name key : String} (h : key ≠ name) (text : Bytes)
    (ms : List (String × Bytes)) : valuesOf name ((key, text) :: ms) = valuesOf name ms := by
  simp [valuesOf, h]

/-- What a field holds before and after the members of its name. -/
inductive Filled (R : Bytes → α → Prop) : List Bytes → Option α → Option α → Prop
  | kept {held : Option α} : Filled R [] held held
  | filled {text : Bytes} {v : α} : R text v → Filled R [text] none (some v)

theorem filled_nil {R : Bytes → α → Prop} {held last : Option α} :
    Filled R [] held last ↔ held = last := by
  constructor
  · intro h
    cases h
    rfl
  · intro h
    exact h ▸ .kept

theorem filled_cons {R : Bytes → α → Prop} {text : Bytes} {texts : List Bytes}
    {held last : Option α} : Filled R (text :: texts) held last ↔
      held = none ∧ ∃ v, R text v ∧ Filled R texts (some v) last := by
  constructor
  · intro h
    cases h with
    | filled hv => exact ⟨rfl, _, hv, .kept⟩
  · intro h
    obtain ⟨rfl, v, hv, hfilled⟩ := h
    cases hfilled with
    | kept => exact .filled hv

theorem filled_once {R : Bytes → α → Prop} {texts : List Bytes} {v : α} :
    Filled R texts none (some v) ↔ ∃ text, texts = [text] ∧ R text v := by
  constructor
  · intro h
    cases h with
    | filled hv => exact ⟨_, rfl, hv⟩
  · intro h
    obtain ⟨text, rfl, hv⟩ := h
    exact .filled hv

theorem mem_valuesOf {name : String} {ms : List (String × Bytes)} {m : String × Bytes} (hm : m ∈ ms)
    (hname : m.1 = name) : m.2 ∈ valuesOf name ms :=
  List.mem_map_of_mem (List.mem_filter.2 ⟨hm, decide_eq_true hname⟩)

end EventPost.Json
