import EventPost.Proofs.Json.Approximation
import EventPost.Proofs.Json.Reading
import EventPost.Proofs.Json.RoundTrip

/-!
What a text means. The grammar that says which texts are values also says which values they are: a
list means its items, an object the members it has when each name keeps the value that came last.
The reader of values reads just this; a text of integers means a value of integers.
-/

namespace EventPost.Json

open Text (Bytes bytesOf)

inductive Scalar : Bytes → Json → Prop
  | word {text : Bytes} {v : Json} : (text, v) ∈ words → Scalar text v
  | number {text : Bytes} {n : Number} : IsNumeral text n → Scalar text (.number n)
  | text {text : Bytes} {s : String} : IsText text s → Scalar text (.text s)

/-- A value whose items or members are values that the relation holds of. -/
inductive Layer (R : Bytes → Json → Prop) : Bytes → Json → Prop
  | scalar {text : Bytes} {v : Json} : Scalar text v → Layer R text v
  | list {inner : Bytes} {texts : List Bytes} {vs : List Json} : Row inner texts →
    List.Forall₂ R texts vs → Layer R (0x5b :: (inner ++ [0x5d])) (.list vs)
  | object {inner : Bytes} {texts : List Bytes} {ms : List (String × Bytes)}
    {members sorted : List (String × Json)} : Row inner texts → List.Forall₂ Named texts ms →
    List.Forall₂ (Held R) ms members → Arranged members sorted →
    Layer R (0x7b :: (inner ++ [0x7d])) (.object sorted)

/-- The text stands for the value, and its lists and objects nest at most so deep. -/
def Means : (depth : Nat) → Bytes → Json → Prop
  | 0 => Scalar
  | depth + 1 => Layer (Means depth)

theorem IsNumeral.head {text : Bytes} {n : Number} (h : IsNumeral text n) :
    ∃ b bs, text = b :: bs ∧ startsNumber b = true := by
  obtain ⟨b, bs, hbytes, hb, -⟩ := h.isNumber.steady
  exact ⟨b, bs, hbytes, hb⟩

theorem Named.entry {text : Bytes} {m : String × Bytes} (h : Named text m) :
    Open.object.Entry text m.2 := by
  obtain ⟨raw, hraw, hmember⟩ := h
  exact ⟨raw, hraw.quotable, hmember⟩

theorem forall₂_entry {texts : List Bytes} {ms : List (String × Bytes)}
    (h : List.Forall₂ Named texts ms) :
    List.Forall₂ Open.object.Entry texts (ms.map Prod.snd) := by
  induction h with
  | nil => exact .nil
  | cons hm _ ih => exact .cons hm.entry ih

theorem Value.list {number : Bytes → Prop} {inner : Bytes} {texts : List Bytes}
    (hrow : Row inner texts) (h : ∀ text ∈ texts, Value number text) :
    Value number (0x5b :: (inner ++ [0x5d])) :=
  .nest (o := .list) hrow (List.forall₂_same.2 fun _ _ => rfl) h

theorem Value.object {number : Bytes → Prop} {inner : Bytes} {texts : List Bytes}
    {ms : List (String × Bytes)} (hrow : Row inner texts) (hnamed : List.Forall₂ Named texts ms)
    (h : ∀ m ∈ ms, Value number m.2) : Value number (0x7b :: (inner ++ [0x7d])) := by
  refine .nest (o := .object) hrow (forall₂_entry hnamed) fun value hvalue => ?_
  obtain ⟨m, hm, rfl⟩ := List.mem_map.1 hvalue
  exact h m hm

theorem IsText.value {number : Bytes → Prop} {text : Bytes} {s : String} (h : IsText text s) :
    Value number text := by
  obtain ⟨raw, hraw, rfl⟩ := h
  exact .text hraw.quotable

theorem Scalar.value {text : Bytes} {v : Json} (h : Scalar text v) : Value IsNumber text := by
  cases h with
  | word h => exact .word h
  | number h => exact .number h.isNumber
  | text h => exact h.value

theorem Means.value {depth : Nat} {text : Bytes} {v : Json} (h : Means depth text v) :
    Value IsNumber text := by
  induction depth generalizing text v with
  | zero => exact Scalar.value h
  | succ depth ih =>
    cases h with
    | scalar h => exact h.value
    | list hrow hvs =>
      refine .list hrow fun text ht => ?_
      obtain ⟨v, -, hv⟩ := exists_of_forall₂ hvs ht
      exact ih hv
    | object hrow hnamed hes _ =>
      refine .object hrow hnamed fun m hm => ?_
      obtain ⟨e, -, he⟩ := exists_of_forall₂ hes hm
      exact ih he.2

theorem Means.scalar {text : Bytes} {v : Json} (h : Scalar text v) (depth : Nat) :
    Means depth text v := by
  cases depth with
  | zero => exact h
  | succ depth => exact Layer.scalar h

theorem readValue_blanks {ws : Bytes} (hws : Blanks ws) (depth : Nat) (bs : Bytes) :
    readValue depth (ws ++ bs) = readValue depth bs := by
  rw [readValue.eq_def, readValue.eq_def depth bs, skipBlanks_append hws]

theorem readValue_scalar_text {text rest : Bytes} {v : Json} (h : Scalar text v) (hr : Stops rest)
    (depth : Nat) : readValue depth (text ++ rest) = .ok (v, rest) := by
  cases h with
  | word h =>
    obtain ⟨b, bs, rfl, hblank, -⟩ := solid_word h
    have hword : readWord bs (bs ++ rest) = .ok rest := readWord_eq_ok.2 rfl
    rw [readValue.eq_def]
    simp only [List.cons_append, skipBlanks_cons hblank, literal?_eq_some.2 h, hword]
  | number h =>
    obtain ⟨b, bs, rfl, hb⟩ := h.head
    exact readValue_number hb ((readNumeral_eq_ok hr).2 ⟨bs, h, rfl⟩) depth
  | text h =>
    obtain ⟨raw, hraw, rfl⟩ := h
    rw [List.cons_append, List.append_assoc]
    exact readValue_text (readText_eq_ok.2 ⟨raw, hraw, rfl⟩) depth

theorem means_of_readValue {depth : Nat}
    (hvalue : ∀ d, depth = d + 1 → Reads (readValue d) (Means d))
    {bs rest : Bytes} {v : Json} (h : readValue depth bs = .ok (v, rest)) (hr : Stops rest) :
    ∃ ws text, Blanks ws ∧ Means depth text v ∧ bs = ws ++ (text ++ rest) := by
  rw [readValue.eq_def] at h
  split at h
  · cases h
  · rename_i b r hblanks
    obtain ⟨ws, hws, rfl, -⟩ := skipBlanks_eq_cons hblanks
    suffices htext : ∃ bs, Means depth (b :: bs) v ∧ r = bs ++ rest by
      obtain ⟨bs, hmeans, rfl⟩ := htext
      exact ⟨ws, b :: bs, hws, hmeans, rfl⟩
    split at h
    · rename_i word v' hword
      split at h
      · cases h
      · rename_i hread
        obtain ⟨rfl, rfl⟩ := Prod.mk.inj (Except.ok.inj h)
        exact ⟨word, .scalar (.word (literal?_eq_some.1 hword)) depth, readWord_eq_ok.1 hread⟩
    · split at h
      · split at h
        · cases h
        · rename_i hnumeral
          obtain ⟨rfl, rfl⟩ := Prod.mk.inj (Except.ok.inj h)
          obtain ⟨bs, hbs, rfl⟩ := (readNumeral_eq_ok hr).1 hnumeral
          exact ⟨bs, .scalar (.number hbs) depth, rfl⟩
      · split at h
        · rename_i hquote
          subst hquote
          split at h
          · cases h
          · rename_i htext
            obtain ⟨rfl, rfl⟩ := Prod.mk.inj (Except.ok.inj h)
            obtain ⟨raw, hraw, rfl⟩ := readText_eq_ok.1 htext
            exact ⟨raw ++ [0x22], .scalar (.text ⟨raw, hraw, rfl⟩) depth, by simp⟩
        · split at h
          · rename_i hopen
            subst hopen
            split at h
            · cases h
            · rename_i depth
              split at h
              · cases h
              · rename_i hitems
                obtain ⟨rfl, rfl⟩ := Prod.mk.inj (Except.ok.inj h)
                obtain ⟨inner, texts, vs, hrow, hvs, rfl, rfl⟩ :=
                  (readItems_eq_ok (hvalue depth rfl) Means.value).1 hitems
                refine ⟨inner ++ [0x5d], ?_, by simp⟩
                rw [List.reverse_reverse]
                exact Layer.list hrow hvs
          · split at h
            · rename_i hopen
              subst hopen
              split at h
              · cases h
              · rename_i depth
                split at h
                · cases h
                · rename_i hmembers
                  obtain ⟨rfl, rfl⟩ := Prod.mk.inj (Except.ok.inj h)
                  obtain ⟨inner, texts, ms, es, hrow, hnamed, hes, rfl, rfl⟩ :=
                    (readMembers_eq_ok (hvalue depth rfl)).1 hmembers
                  refine ⟨inner ++ [0x7d], ?_, by simp⟩
                  rw [List.reverse_reverse]
                  exact Layer.object hrow hnamed hes (arranged_iff.2 rfl)
            · cases h

theorem reads_value (depth : Nat) : Reads (readValue depth) (Means depth) := by
  induction depth with
  | zero =>
    intro bs v rest hr
    have hnone : ∀ d, 0 = d + 1 → Reads (readValue d) (Means d) := fun d hd => nomatch hd
    refine ⟨fun h => means_of_readValue hnone h hr, fun h => ?_⟩
    obtain ⟨ws, text, hws, ht, rfl⟩ := h
    rw [readValue_blanks hws]
    exact readValue_scalar_text ht hr 0
  | succ depth ih =>
    intro bs v rest hr
    refine ⟨fun h => means_of_readValue (fun d hd => Nat.succ.inj hd ▸ ih) h hr, fun h => ?_⟩
    obtain ⟨ws, text, hws, ht, rfl⟩ := h
    rw [readValue_blanks hws]
    cases ht with
    | scalar h => exact readValue_scalar_text h hr _
    | @list inner texts vs hrow hvs =>
      have hitems : foldItems (itemStep (readValue depth)) (inner ++ 0x5d :: rest).length true []
          (inner ++ 0x5d :: rest) = .ok (vs.reverse, rest) :=
        (readItems_eq_ok ih Means.value).2 ⟨inner, texts, vs, hrow, hvs, rfl, rfl⟩
      rw [List.cons_append, List.append_assoc]
      exact (readValue_list hitems).trans (by rw [List.reverse_reverse])
    | @object inner texts ms es sorted hrow hnamed hes hsorted =>
      have hmembers : foldMembers (memberStep (readValue depth)) (inner ++ 0x7d :: rest).length true
          [] (inner ++ 0x7d :: rest) = .ok (es.reverse, rest) :=
        (readMembers_eq_ok ih).2 ⟨inner, texts, ms, es, hrow, hnamed, hes, rfl, rfl⟩
      rw [List.cons_append, List.append_assoc]
      exact (readValue_object hmembers).trans (by rw [List.reverse_reverse, arranged_iff.1 hsorted])

theorem Means.deeper {depth : Nat} {text : Bytes} {v : Json} (h : Means depth text v) :
    Means (depth + 1) text v := by
  induction depth generalizing text v with
  | zero => exact Layer.scalar h
  | succ depth ih =>
    cases h with
    | scalar h => exact Layer.scalar h
    | list hrow hvs => exact Layer.list hrow (hvs.imp fun _ _ h => ih h)
    | object hrow hnamed hes hsorted =>
      exact Layer.object hrow hnamed (hes.imp fun _ _ h => ⟨h.1, ih h.2⟩) hsorted

theorem Means.height_le {depth : Nat} {text : Bytes} {v : Json} (h : Means depth text v) :
    v.height ≤ depth := by
  have hscalar : ∀ {text v}, Scalar text v → v.height = 0 := by
    intro text v h
    cases h with
    | word h =>
      simp only [words, List.mem_cons, Prod.mk.injEq, List.not_mem_nil, or_false] at h
      rcases h with ⟨-, rfl⟩ | ⟨-, rfl⟩ | ⟨-, rfl⟩ <;> rfl
    | number | text => rfl
  induction depth generalizing text v with
  | zero => exact Nat.le_of_eq (hscalar h)
  | succ depth ih =>
    cases h with
    | scalar h => exact hscalar h ▸ Nat.zero_le _
    | list _ hvs =>
      refine Nat.succ_le_succ (heightOfItems_le fun v hv => ?_)
      obtain ⟨text, -, h⟩ := exists_left_of_forall₂ hvs hv
      exact ih h
    | object _ _ hes hsorted =>
      refine Nat.succ_le_succ (heightOfMembers_le fun e he => ?_)
      have hmember := mem_of_ofMembers (arranged_iff.1 hsorted) he
      obtain ⟨m, -, h⟩ := exists_left_of_forall₂ hes hmember
      exact ih h.2

theorem Means.ordered {depth : Nat} {text : Bytes} {v : Json} (h : Means depth text v) :
    v.Ordered := by
  have hscalar : ∀ {text v}, Scalar text v → v.Ordered := by
    intro text v h
    cases h with
    | word h =>
      simp only [words, List.mem_cons, Prod.mk.injEq, List.not_mem_nil, or_false] at h
      rcases h with ⟨-, rfl⟩ | ⟨-, rfl⟩ | ⟨-, rfl⟩
      · exact ordered_null
      · exact ordered_boolean true
      · exact ordered_boolean false
    | number => exact ordered_number _
    | text => exact ordered_text _
  induction depth generalizing text v with
  | zero => exact hscalar h
  | succ depth ih =>
    cases h with
    | scalar h => exact hscalar h
    | list _ hvs =>
      refine ordered_list.2 fun v hv => ?_
      obtain ⟨text, -, h⟩ := exists_left_of_forall₂ hvs hv
      exact ih h
    | object _ _ hes hsorted =>
      refine arranged_iff.1 hsorted ▸ ordered_ofMembers fun k v he => ?_
      obtain ⟨m, -, h⟩ := exists_left_of_forall₂ hes he
      exact ih h.2

theorem parse_eq_ok {text : Bytes} {v : Json} :
    parse text = .ok v ↔ Alone (Means maxDepth · v) text :=
  readWhole_eq_ok (reads_value maxDepth)

theorem alone_self {P : Bytes → Prop} {bs : Bytes} (h : P bs) : Alone P bs :=
  ⟨[], bs, [], Blanks.nil, Blanks.nil, h, (List.append_nil bs).symm⟩

theorem Means.parse {text : Bytes} {v : Json} (h : Means (maxDepth - 1) text v) :
    parse text = .ok v :=
  parse_eq_ok.2 (alone_self h.deeper)

theorem Alone.imp {P Q : Bytes → Prop} (h : ∀ text, P text → Q text) {bs : Bytes}
    (hp : Alone P bs) : Alone Q bs := by
  obtain ⟨ws, text, ws', hws, hws', ht, hbytes⟩ := hp
  exact ⟨ws, text, ws', hws, hws', h text ht, hbytes⟩

theorem value_of_parse {text : Bytes} {v : Json} (h : Json.parse text = .ok v) :
    Alone (Value IsNumber) text :=
  (parse_eq_ok.1 h).imp fun _ hm => hm.value

end EventPost.Json
