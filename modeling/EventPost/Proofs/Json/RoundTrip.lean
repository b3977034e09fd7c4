import EventPost.Proofs.Json.Lexeme
import EventPost.Proofs.Json.Shape

/-!
Values that are written are read. The items of a list and the members of an object are read one
after the other, each from its comma to the next, so the first of them is treated like the others;
what is read of one does not depend on what follows it, as long as that does not go on with it. The
limit on depth counts the lists and objects around a value.
-/

namespace EventPost.Json

open Text (Bytes encode encode_append)

variable {σ : Type}

theorem encode_writeText (s : String) : encode (writeText s) =
    0x22 :: (encode (s.toList.flatMap escapeChar) ++ [0x22]) := by
  rw [writeText, encode_append]
  rfl

theorem encode_writeItems (v : Json) (vs : List Json) :
    encode (writeItems (v :: vs)) = 0x2c :: (encode v.write ++ encode (writeItems vs)) := by
  rw [writeItems, encode_append]
  rfl

theorem encode_writeMembers (k : String) (v : Json) (ms : List (String × Json)) :
    encode (writeMembers ((k, v) :: ms)) =
      0x2c :: 0x22 :: (encode (k.toList.flatMap escapeChar) ++
        0x22 :: 0x3a :: (encode v.write ++ encode (writeMembers ms))) := by
  have hcomma : ∀ cs, encode (',' :: cs) = 0x2c :: encode cs := fun _ => rfl
  have hcolon : encode [':'] = [0x3a] := rfl
  rw [writeMembers, encode_append, encode_append, encode_append, hcomma, hcolon, encode_writeText]
  simp only [List.cons_append, List.append_assoc, List.nil_append]

theorem encode_list (v : Json) (vs : List Json) : ∃ bs, encode (writeItems (v :: vs)) = 0x2c :: bs ∧
    encode (Json.list (v :: vs)).write = 0x5b :: (bs ++ [0x5d]) := by
  refine ⟨encode (v.write ++ writeItems vs), rfl, ?_⟩
  rw [write, encode_append]
  rfl

theorem encode_object (m : String × Json) (ms : List (String × Json)) :
    ∃ bs, encode (writeMembers (m :: ms)) = 0x2c :: bs ∧
      encode (Json.object (m :: ms)).write = 0x7b :: (bs ++ [0x7d]) := by
  refine ⟨encode (writeText m.1 ++ [':'] ++ m.2.write ++ writeMembers ms), rfl, ?_⟩
  rw [write, encode_append]
  rfl

theorem length_le_writeItems (vs : List Json) : vs.length ≤ (encode (writeItems vs)).length := by
  induction vs with
  | nil => exact Nat.zero_le _
  | cons v vs ih =>
    rw [encode_writeItems, List.length_cons, List.length_cons, List.length_append]
    omega

theorem length_le_writeMembers (ms : List (String × Json)) :
    ms.length ≤ (encode (writeMembers ms)).length := by
  induction ms with
  | nil => exact Nat.zero_le _
  | cons m ms ih =>
    rw [encode_writeMembers]
    simp only [List.length_cons, List.length_append]
    omega

theorem foldItems_close (step : σ → Bytes → Reading σ) (fuel : Nat) (first : Bool) (acc : σ)
    (rest : Bytes) : foldItems step fuel first acc (0x5d :: rest) = .ok (acc, rest) := by
  have hclose : isJsonBlank 0x5d = false := by decide
  unfold foldItems
  simp only [skipBlanks_cons hclose, if_true]

theorem foldItems_item {step : σ → Bytes → Reading σ} {acc next : σ} {b : UInt8} {bs rest : Bytes}
    (hblank : isJsonBlank b = false) (hb : b ≠ 0x5d) (h : step acc (b :: bs) = .ok (next, rest))
    (fuel : Nat) : foldItems step (fuel + 1) false acc (0x2c :: b :: bs) =
      foldItems step fuel false next rest := by
  have hcomma : isJsonBlank 0x2c = false := by decide
  have hclose : (0x2c : UInt8) ≠ 0x5d := by decide
  rw [foldItems.eq_def]
  simp only [skipBlanks_cons hcomma, if_neg hclose, Bool.false_eq_true, if_false, if_true,
    skipBlanks_cons hblank, if_neg hb, h]

theorem foldItems_first {step : σ → Bytes → Reading σ} {acc : σ} {b : UInt8} {bs : Bytes}
    (hblank : isJsonBlank b = false) (hb : b ≠ 0x5d) (fuel : Nat) :
    foldItems step fuel true acc (b :: bs) = foldItems step fuel false acc (0x2c :: b :: bs) := by
  have hcomma : isJsonBlank 0x2c = false := by decide
  have hclose : (0x2c : UInt8) ≠ 0x5d := by decide
  rw [foldItems.eq_def, foldItems.eq_def step fuel false]
  simp only [skipBlanks_cons hcomma, if_neg hclose, if_true, Bool.false_eq_true, if_false,
    skipBlanks_cons hblank, if_neg hb]

theorem foldMembers_close (step : σ → String → Bytes → Reading σ) (fuel : Nat) (first : Bool)
    (acc : σ) (rest : Bytes) :
    foldMembers step fuel first acc (0x7d :: rest) = .ok (acc, rest) := by
  have hclose : isJsonBlank 0x7d = false := by decide
  unfold foldMembers
  simp only [skipBlanks_cons hclose, if_true]

theorem foldMembers_member {step : σ → String → Bytes → Reading σ} {acc next : σ} {k : String}
    {bs rest : Bytes} (h : step acc k bs = .ok (next, rest)) (fuel : Nat) :
    foldMembers step (fuel + 1) false acc
        (0x2c :: 0x22 :: (encode (k.toList.flatMap escapeChar) ++ 0x22 :: bs)) =
      foldMembers step fuel false next rest := by
  have hcomma : isJsonBlank 0x2c = false := by decide
  have hquote : isJsonBlank 0x22 = false := by decide
  have hclose : (0x2c : UInt8) ≠ 0x7d := by decide
  rw [foldMembers.eq_def]
  simp only [skipBlanks_cons hcomma, if_neg hclose, Bool.false_eq_true, if_false, if_true,
    skipBlanks_cons hquote, readText_written, h]

theorem foldMembers_first (step : σ → String → Bytes → Reading σ) (fuel : Nat) (acc : σ)
    (bs : Bytes) : foldMembers step fuel true acc (0x22 :: bs) =
      foldMembers step fuel false acc (0x2c :: 0x22 :: bs) := by
  have hcomma : isJsonBlank 0x2c = false := by decide
  have hquote : isJsonBlank 0x22 = false := by decide
  have hclose : (0x2c : UInt8) ≠ 0x7d ∧ (0x22 : UInt8) ≠ 0x7d := by decide
  rw [foldMembers.eq_def, foldMembers.eq_def step fuel false]
  simp only [skipBlanks_cons hcomma, if_neg hclose.1, if_neg hclose.2, if_true, Bool.false_eq_true,
    if_false, skipBlanks_cons hquote]

theorem exists_head_write {v : Json} (h : v.Integral) :
    ∃ b bs, encode v.write = b :: bs ∧ isJsonBlank b = false ∧ b ≠ 0x5d := by
  cases v with
  | null => exact ⟨0x6e, _, rfl, by decide, by decide⟩
  | boolean b =>
    cases b with
    | false => exact ⟨0x66, _, rfl, by decide, by decide⟩
    | true => exact ⟨0x74, _, rfl, by decide, by decide⟩
  | number n =>
    cases n with
    | real x => exact absurd .self (h x)
    | integer i hi =>
      have hnil : Ends [] := fun b hb => nomatch hb
      obtain ⟨b, bs, hbytes, hstart, -⟩ := readNumeral_written i hi hnil
      rw [startsNumber, Bool.or_eq_true, beq_iff_eq] at hstart
      refine ⟨b, bs, hbytes, ?_, ?_⟩
      · rw [Bool.eq_false_iff]
        intro hblank
        simp only [isJsonBlank, Bool.or_eq_true, beq_iff_eq] at hblank
        rcases hblank with ((rfl | rfl) | rfl) | rfl <;> exact absurd hstart (by decide)
      · rintro rfl
        exact absurd hstart (by decide)
  | text s => exact ⟨0x22, _, by rw [write, encode_writeText], by decide, by decide⟩
  | list vs => cases vs <;> exact ⟨0x5b, _, rfl, by decide, by decide⟩
  | object ms => cases ms <;> exact ⟨0x7b, _, rfl, by decide, by decide⟩

theorem ends_comma (bs : Bytes) : Ends (0x2c :: bs) := by
  rintro b ⟨⟩
  exact .inl rfl

theorem ends_items (vs : List Json) (rest : Bytes) :
    Ends (encode (writeItems vs) ++ 0x5d :: rest) := by
  cases vs with
  | nil =>
    rintro b ⟨⟩
    exact .inr (.inl rfl)
  | cons v vs =>
    rw [encode_writeItems]
    exact ends_comma _

theorem ends_members (ms : List (String × Json)) (rest : Bytes) :
    Ends (encode (writeMembers ms) ++ 0x7d :: rest) := by
  cases ms with
  | nil =>
    rintro b ⟨⟩
    exact .inr (.inr rfl)
  | cons m ms =>
    rw [encode_writeMembers]
    exact ends_comma _

theorem foldItems_written {read : Bytes → Reading Json} {vs : List Json}
    (hint : ∀ v ∈ vs, v.Integral)
    (hread : ∀ v ∈ vs, ∀ rest, Ends rest → read (encode v.write ++ rest) = .ok (v, rest))
    {fuel : Nat} (hf : vs.length ≤ fuel) (acc : List Json) (rest : Bytes) :
    foldItems (itemStep read) fuel false acc (encode (writeItems vs) ++ 0x5d :: rest) =
      .ok (vs.reverse ++ acc, rest) := by
  induction vs generalizing fuel acc with
  | nil => exact foldItems_close _ fuel false acc rest
  | cons v vs ih =>
    obtain ⟨fuel, rfl⟩ : ∃ n, fuel = n + 1 := ⟨fuel - 1, by rw [List.length_cons] at hf; omega⟩
    obtain ⟨b, bs, hbytes, hblank, hb⟩ := exists_head_write (hint v List.mem_cons_self)
    have hv := hread v List.mem_cons_self _ (ends_items vs rest)
    rw [hbytes, List.cons_append] at hv
    have hstep : itemStep read acc (b :: (bs ++ (encode (writeItems vs) ++ 0x5d :: rest))) =
        .ok (v :: acc, encode (writeItems vs) ++ 0x5d :: rest) := by rw [itemStep, hv]
    rw [encode_writeItems, List.cons_append, List.append_assoc, hbytes, List.cons_append,
      foldItems_item hblank hb hstep,
      ih (fun w hw => hint w (List.mem_cons_of_mem v hw))
        (fun w hw => hread w (List.mem_cons_of_mem v hw)) (by rw [List.length_cons] at hf; omega),
      List.reverse_cons, List.append_assoc]
    rfl

/-- The step takes up the members one after the other, whatever follows each of them. -/
inductive Takes (step : σ → String → Bytes → Reading σ) : σ → List (String × Json) → σ → Prop
  | done {acc : σ} : Takes step acc [] acc
  | more {acc next last : σ} {k : String} {v : Json} {ms : List (String × Json)} :
    (∀ rest, Ends rest → step acc k (0x3a :: (encode v.write ++ rest)) = .ok (next, rest)) →
    Takes step next ms last → Takes step acc ((k, v) :: ms) last

theorem Takes.append {step : σ → String → Bytes → Reading σ} {acc next last : σ}
    {ms more : List (String × Json)} (h : Takes step acc ms next)
    (hmore : Takes step next more last) :
    Takes step acc (ms ++ more) last := by
  induction h with
  | done => exact hmore
  | more hstep _ ih => exact .more hstep (ih hmore)

theorem foldMembers_written {step : σ → String → Bytes → Reading σ} {acc last : σ}
    {ms : List (String × Json)} (h : Takes step acc ms last) {fuel : Nat} (hf : ms.length ≤ fuel)
    (rest : Bytes) : foldMembers step fuel false acc (encode (writeMembers ms) ++ 0x7d :: rest) =
      .ok (last, rest) := by
  induction h generalizing fuel with
  | @done acc => exact foldMembers_close step fuel false acc rest
  | @more acc next last k v ms hstep hms ih =>
    obtain ⟨fuel, rfl⟩ : ∃ n, fuel = n + 1 := ⟨fuel - 1, by rw [List.length_cons] at hf; omega⟩
    have hmember := hstep _ (ends_members ms rest)
    rw [encode_writeMembers]
    simp only [List.cons_append, List.append_assoc]
    rw [foldMembers_member hmember, ih (by rw [List.length_cons] at hf; omega)]

theorem foldMembers_object {step : σ → String → Bytes → Reading σ} {acc last : σ}
    {ms : List (String × Json)} (h : Takes step acc ms last) {r rest : Bytes}
    (hr : encode (Json.object ms).write ++ rest = 0x7b :: r) :
    foldMembers step r.length true acc r = .ok (last, rest) := by
  cases ms with
  | nil =>
    cases h
    obtain rfl : 0x7d :: rest = r := List.tail_eq_of_cons_eq hr
    exact foldMembers_close step _ true acc rest
  | cons m ms =>
    obtain ⟨k, v⟩ := m
    obtain ⟨bs, hmembers, hobject⟩ := encode_object (k, v) ms
    rw [hobject, List.cons_append, List.append_assoc] at hr
    obtain rfl : bs ++ 0x7d :: rest = r := List.tail_eq_of_cons_eq hr
    have hfirst : ∃ tail, bs = 0x22 :: tail := by
      rw [encode_writeMembers] at hmembers
      exact ⟨_, (List.tail_eq_of_cons_eq hmembers).symm⟩
    obtain ⟨tail, rfl⟩ := hfirst
    have hfuel : ((k, v) :: ms).length ≤ (0x22 :: tail ++ 0x7d :: rest).length := by
      have hlength := length_le_writeMembers ((k, v) :: ms)
      rw [hmembers] at hlength
      simp only [List.length_cons, List.length_append] at hlength ⊢
      omega
    have hread := foldMembers_written h hfuel rest
    rw [hmembers] at hread
    rw [List.cons_append, foldMembers_first]
    exact hread

theorem takes_memberStep {read : Bytes → Reading Json} {ms : List (String × Json)}
    (h : ∀ k v, (k, v) ∈ ms → ∀ rest, Ends rest → read (encode v.write ++ rest) = .ok (v, rest))
    (acc : List (String × Json)) : Takes (memberStep read) acc ms (ms.reverse ++ acc) := by
  induction ms generalizing acc with
  | nil => exact .done
  | cons m ms ih =>
    obtain ⟨k, v⟩ := m
    rw [List.reverse_cons, List.append_assoc]
    refine .more ?_ (ih (fun k v hv => h k v (List.mem_cons_of_mem _ hv)) _)
    intro rest hrest
    have hcolon : readColon (0x3a :: (encode v.write ++ rest)) = .ok (encode v.write ++ rest) := rfl
    rw [memberStep, hcolon]
    simp only [h k v List.mem_cons_self rest hrest]
    rfl

theorem readValue_number {b : UInt8} {r rest : Bytes} {n : Number} (hb : startsNumber b = true)
    (h : readNumeral b r = .ok (n, rest)) (depth : Nat) :
    readValue depth (b :: r) = .ok (.number n, rest) := by
  have hplain : isJsonBlank b = false ∧ literal? b = none := by
    have hcode : ∀ v < 256, startsNumber (UInt8.ofNat v) = true →
        isJsonBlank (UInt8.ofNat v) = false ∧ (literal? (UInt8.ofNat v)).isNone = true := by
      decide +kernel
    have hv := hcode b.toNat b.toNat_lt
    rw [UInt8.ofNat_toNat] at hv
    exact ⟨(hv hb).1, Option.isNone_iff_eq_none.1 (hv hb).2⟩
  rw [readValue.eq_def]
  simp only [skipBlanks_cons hplain.1, hplain.2, if_pos hb, h]

theorem readValue_text {s : String} {r rest : Bytes} (h : readText r = .ok (s, rest))
    (depth : Nat) : readValue depth (0x22 :: r) = .ok (.text s, rest) := by
  have hquote : isJsonBlank 0x22 = false ∧ literal? 0x22 = none ∧ startsNumber 0x22 = false := by
    exact ⟨rfl, rfl, rfl⟩
  rw [readValue.eq_def]
  simp only [skipBlanks_cons hquote.1, hquote.2.1, hquote.2.2, Bool.false_eq_true, if_false,
    if_true, h]

theorem readValue_list {depth : Nat} {r rest : Bytes} {items : List Json}
    (h : foldItems (itemStep (readValue depth)) r.length true [] r = .ok (items, rest)) :
    readValue (depth + 1) (0x5b :: r) = .ok (.list items.reverse, rest) := by
  have hopen : isJsonBlank 0x5b = false ∧ literal? 0x5b = none ∧ startsNumber 0x5b = false := by
    exact ⟨rfl, rfl, rfl⟩
  have hquote : (0x5b : UInt8) ≠ 0x22 := by decide
  rw [readValue.eq_def]
  simp only [skipBlanks_cons hopen.1, hopen.2.1, hopen.2.2, Bool.false_eq_true, if_false,
    if_neg hquote, if_true, h]

theorem readValue_object {depth : Nat} {r rest : Bytes} {members : List (String × Json)}
    (h : foldMembers (memberStep (readValue depth)) r.length true [] r = .ok (members, rest)) :
    readValue (depth + 1) (0x7b :: r) = .ok (ofMembers members.reverse, rest) := by
  have hopen : isJsonBlank 0x7b = false ∧ literal? 0x7b = none ∧ startsNumber 0x7b = false := by
    exact ⟨rfl, rfl, rfl⟩
  have hother : (0x7b : UInt8) ≠ 0x22 ∧ (0x7b : UInt8) ≠ 0x5b := by decide
  rw [readValue.eq_def]
  simp only [skipBlanks_cons hopen.1, hopen.2.1, hopen.2.2, Bool.false_eq_true, if_false,
    if_neg hother.1, if_neg hother.2, if_true, h]

theorem readValue_scalar {v : Json} (hint : v.Integral) (hflat : v.height = 0) (depth : Nat)
    {rest : Bytes} (hr : Ends rest) : readValue depth (encode v.write ++ rest) = .ok (v, rest) := by
  cases v with
  | null => rw [readValue.eq_def]; rfl
  | boolean b => cases b <;> rw [readValue.eq_def] <;> rfl
  | number n =>
    cases n with
    | real x => exact absurd .self (hint x)
    | integer i hi =>
      obtain ⟨b, bs, hbytes, hb, hread⟩ := readNumeral_written i hi hr
      rw [write, hbytes]
      exact readValue_number hb hread depth
  | text s =>
    rw [write, encode_writeText, List.cons_append, List.append_assoc]
    exact readValue_text (readText_written s rest) depth
  | list vs => exact absurd hflat (Nat.succ_ne_zero _)
  | object ms => exact absurd hflat (Nat.succ_ne_zero _)

/-- A value is read back from what is written of it, if no number in it is a fraction, its objects
are in order, and it nests no deeper than is read. -/
theorem readValue_written {v : Json} {depth : Nat} (hint : v.Integral) (hord : v.Ordered)
    (hdepth : v.height ≤ depth) {rest : Bytes} (hr : Ends rest) :
    readValue depth (encode v.write ++ rest) = .ok (v, rest) := by
  -- What a list or an object holds is read with one level less, and is one level lower.
  induction depth generalizing v rest with
  | zero => exact readValue_scalar hint (Nat.le_zero.1 hdepth) 0 hr
  | succ depth ih =>
    cases v with
    | list vs =>
      rw [height] at hdepth
      have hitems : ∀ v ∈ vs, ∀ rest, Ends rest →
          readValue depth (encode v.write ++ rest) = .ok (v, rest) := by
        intro v hv rest hrest
        have hheight := height_item_le hv
        exact ih (integral_list.1 hint v hv) (ordered_list.1 hord v hv) (by omega) hrest
      cases vs with
      | nil => exact readValue_list (foldItems_close _ _ true [] rest)
      | cons v vs =>
        obtain ⟨bs, hwritten, hlist⟩ := encode_list v vs
        obtain ⟨b, tail, hbytes, hblank, hb⟩ :=
          exists_head_write (integral_list.1 hint v List.mem_cons_self)
        have htail : bs = b :: (tail ++ encode (writeItems vs)) := by
          rw [encode_writeItems, hbytes] at hwritten
          exact (List.tail_eq_of_cons_eq hwritten).symm
        have hfuel : (v :: vs).length ≤ (bs ++ 0x5d :: rest).length := by
          have hlength := length_le_writeItems (v :: vs)
          rw [hwritten] at hlength
          simp only [List.length_cons, List.length_append] at hlength ⊢
          omega
        have hread := foldItems_written (integral_list.1 hint) hitems hfuel [] rest
        rw [hwritten, htail] at hread
        simp only [List.cons_append] at hread
        rw [← foldItems_first hblank hb] at hread
        rw [hlist, List.cons_append, List.append_assoc, htail]
        exact (readValue_list hread).trans (by rw [List.append_nil, List.reverse_reverse])
    | object ms =>
      rw [height] at hdepth
      obtain ⟨hkeys, hvalues⟩ := ordered_object.1 hord
      have hmembers : ∀ k v, (k, v) ∈ ms → ∀ rest, Ends rest →
          readValue depth (encode v.write ++ rest) = .ok (v, rest) := by
        intro k v hv rest hrest
        have hheight := height_member_le hv
        exact ih (integral_object.1 hint k v hv) (hvalues k v hv) (by omega) hrest
      obtain ⟨r, hobject⟩ : ∃ r, encode (Json.object ms).write ++ rest = 0x7b :: r := by
        cases ms <;> exact ⟨_, rfl⟩
      have hread := foldMembers_object (takes_memberStep hmembers []) hobject
      rw [hobject, readValue_object hread, List.append_nil, List.reverse_reverse,
        ofMembers_of_pairwise hkeys]
    | null | boolean | number | text => exact readValue_scalar hint rfl _ hr

theorem parse?_compact {v : Json} (hint : v.Integral) (hord : v.Ordered)
    (hdepth : v.height ≤ maxDepth) : parse? v.compact = some v := by
  have hend : Ends [] := fun _ h => nomatch h
  have hread := readValue_written hint hord hdepth hend
  rw [List.append_nil] at hread
  rw [parse?, parse, readWhole, compact, Text.bytesOf, String.toList_ofList, hread]
  rfl

end EventPost.Json
