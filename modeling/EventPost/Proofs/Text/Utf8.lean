import EventPost.Text.Utf8

/-!
Reading bytes as text undoes writing text as bytes, and nothing else reads as text: a sequence that
is taken for a character is the one form of that character.
-/

namespace EventPost.Text

theorem leadBits_two {b : UInt8} (h : 0xc0 ≤ b.toNat) (hb : b.toNat ≤ 0xdf) :
    leadBits b = b.toNat - 0xc0 := by
  rw [leadBits, if_pos (UInt8.lt_iff_toNat_lt.2 (Nat.lt_succ_of_le hb))]
  omega

theorem leadBits_three {b : UInt8} (h : 0xe0 ≤ b.toNat) (hb : b.toNat ≤ 0xef) :
    leadBits b = b.toNat - 0xe0 := by
  rw [leadBits, if_neg (fun hlt => Nat.not_lt_of_le h (UInt8.lt_iff_toNat_lt.1 hlt)),
    if_pos (UInt8.lt_iff_toNat_lt.2 (Nat.lt_succ_of_le hb))]
  omega

theorem leadBits_four {b : UInt8} (h : 0xf0 ≤ b.toNat) (hb : b.toNat ≤ 0xf7) :
    leadBits b = b.toNat - 0xf0 := by
  have hthree : 0xe0 ≤ b.toNat := Nat.le_trans (by decide) h
  rw [leadBits, if_neg (fun hlt => Nat.not_lt_of_le hthree (UInt8.lt_iff_toNat_lt.1 hlt)),
    if_neg (fun hlt => Nat.not_lt_of_le h (UInt8.lt_iff_toNat_lt.1 hlt))]
  omega

theorem isSome_leadShape {b : UInt8} :
    (leadShape b).isSome = true ↔ 0xc2 ≤ b.toNat ∧ b.toNat ≤ 0xf4 := by
  unfold leadShape
  simp only [Bool.and_eq_true, decide_eq_true_eq, UInt8.le_iff_toNat_le, ← UInt8.toNat_inj,
    UInt8.reduceToNat]
  repeat' split
  all_goals
    simp only [Option.isSome_some, Option.isSome_none, Bool.false_eq_true, true_iff, false_iff]
    omega

theorem leadShape_spec {b lo hi : UInt8} {n : Nat} (h : leadShape b = some (n, lo, hi)) :
    (n = 1 ∧ 0xc2 ≤ b.toNat ∧ b.toNat ≤ 0xdf ∧
      ∀ x, lo ≤ x ∧ x ≤ hi ↔ 0x80 ≤ x.toNat ∧ x.toNat ≤ 0xbf) ∨
    (n = 2 ∧ 0xe0 ≤ b.toNat ∧ b.toNat ≤ 0xef ∧
      ∀ x, lo ≤ x ∧ x ≤ hi ↔ 0x80 ≤ x.toNat ∧ x.toNat ≤ 0xbf ∧
        (b.toNat = 0xe0 → 0xa0 ≤ x.toNat) ∧ (b.toNat = 0xed → x.toNat ≤ 0x9f)) ∨
    (n = 3 ∧ 0xf0 ≤ b.toNat ∧ b.toNat ≤ 0xf4 ∧
      ∀ x, lo ≤ x ∧ x ≤ hi ↔ 0x80 ≤ x.toNat ∧ x.toNat ≤ 0xbf ∧
        (b.toNat = 0xf0 → 0x90 ≤ x.toNat) ∧ (b.toNat = 0xf4 → x.toNat ≤ 0x8f)) := by
  unfold leadShape at h
  simp only [UInt8.le_iff_toNat_le, ← UInt8.toNat_inj, Bool.and_eq_true, decide_eq_true_eq,
    UInt8.reduceToNat] at h ⊢
  repeat' split at h
  all_goals
    simp only [Option.some.injEq, Prod.mk.injEq, reduceCtorEq] at h
  all_goals
    obtain ⟨rfl, rfl, rfl⟩ := h
    simp only [UInt8.reduceToNat, true_and, Nat.reduceEqDiff, false_and, false_or, or_false]
  · exact ⟨by omega, by omega, fun x => trivial⟩
  all_goals
    refine ⟨by omega, by omega, fun x => ?_⟩
    omega

/-- The one form of the character with code `v`: its first byte and what follows it. -/
inductive Form : (v : Nat) → UInt8 → Bytes → Prop
  | one {b : UInt8} (hb : b.toNat < 0x80) : Form b.toNat b []
  | two {b x : UInt8} (hb : 0xc2 ≤ b.toNat ∧ b.toNat ≤ 0xdf) (hx : 0x80 ≤ x.toNat ∧ x.toNat ≤ 0xbf) :
    Form ((b.toNat - 0xc0) * 64 + x.toNat % 64) b [x]
  | three {b x y : UInt8} (hb : 0xe0 ≤ b.toNat ∧ b.toNat ≤ 0xef)
    (hx : 0x80 ≤ x.toNat ∧ x.toNat ≤ 0xbf ∧
      (b.toNat = 0xe0 → 0xa0 ≤ x.toNat) ∧ (b.toNat = 0xed → x.toNat ≤ 0x9f))
    (hy : 0x80 ≤ y.toNat ∧ y.toNat ≤ 0xbf) :
    Form (((b.toNat - 0xe0) * 64 + x.toNat % 64) * 64 + y.toNat % 64) b [x, y]
  | four {b x y z : UInt8} (hb : 0xf0 ≤ b.toNat ∧ b.toNat ≤ 0xf4)
    (hx : 0x80 ≤ x.toNat ∧ x.toNat ≤ 0xbf ∧
      (b.toNat = 0xf0 → 0x90 ≤ x.toNat) ∧ (b.toNat = 0xf4 → x.toNat ≤ 0x8f))
    (hy : 0x80 ≤ y.toNat ∧ y.toNat ≤ 0xbf) (hz : 0x80 ≤ z.toNat ∧ z.toNat ≤ 0xbf) :
    Form ((((b.toNat - 0xf0) * 64 + x.toNat % 64) * 64 + y.toNat % 64) * 64 + z.toNat % 64) b
      [x, y, z]

theorem toNat_ofNat_char {v : Nat} (h : v.isValidChar) : (Char.ofNat v).val.toNat = v := by
  rw [Char.ofNat, dif_pos h]
  rfl

theorem byte_eq (b : UInt8) {v : Nat} (h : v = b.toNat) : UInt8.ofNat v = b := by
  rw [h, UInt8.ofNat_toNat]

theorem Form.encode {v : Nat} {b : UInt8} {tail : Bytes} (h : Form v b tail) :
    String.utf8EncodeChar (Char.ofNat v) = b :: tail := by
  cases h with
  | one hb =>
    rw [String.utf8EncodeChar, toNat_ofNat_char (.inl (by omega))]
    rw [if_pos (by omega), byte_eq b rfl]
  | @two _ x hb hx =>
    rw [String.utf8EncodeChar, toNat_ofNat_char (.inl (by omega))]
    rw [if_neg (by omega), if_pos (by omega), byte_eq b (by omega), byte_eq x (by omega)]
  | @three _ x y hb hx hy =>
    rw [String.utf8EncodeChar, toNat_ofNat_char (by unfold Nat.isValidChar; omega)]
    rw [if_neg (by omega), if_neg (by omega), if_pos (by omega), byte_eq b (by omega),
      byte_eq x (by omega), byte_eq y (by omega)]
  | @four _ x y z hb hx hy hz =>
    rw [String.utf8EncodeChar, toNat_ofNat_char (.inr (by omega))]
    rw [if_neg (by omega), if_neg (by omega), if_neg (by omega), byte_eq b (by omega),
      byte_eq x (by omega), byte_eq y (by omega), byte_eq z (by omega)]

theorem tail_iff {b : UInt8} : 0x80 ≤ b ∧ b ≤ 0xbf ↔ 0x80 ≤ b.toNat ∧ b.toNat ≤ 0xbf := by
  rw [UInt8.le_iff_toNat_le, UInt8.le_iff_toNat_le]
  rfl

theorem continuation_cons {n acc : Nat} {lo hi b : UInt8} {bs : Bytes} (h : lo ≤ b ∧ b ≤ hi) :
    continuation (n + 1) lo hi acc (b :: bs) =
      continuation n 0x80 0xbf (acc * 64 + b.toNat % 64) bs := by
  rw [continuation, if_pos]
  rw [Bool.and_eq_true, decide_eq_true_eq, decide_eq_true_eq]
  exact h

theorem decodeChar_of_lead {b lo hi : UInt8} {n : Nat} (bs : Bytes)
    (h : leadShape b = some (n, lo, hi)) :
    decodeChar b bs = continuation n lo hi (leadBits b) bs := by
  have hb := (isSome_leadShape (b := b)).1 (by rw [h]; rfl)
  have hlt : ¬b < 0x80 := fun hlt => by
    have hnat : b.toNat < 0x80 := UInt8.lt_iff_toNat_lt.1 hlt
    omega
  rw [decodeChar, if_neg hlt, h]

theorem Form.decode {v : Nat} {b : UInt8} {tail : Bytes} (h : Form v b tail) (rest : Bytes) :
    decodeChar b (tail ++ rest) = (some (Char.ofNat v), rest) := by
  have lead : ∀ b : UInt8, 0xc2 ≤ b.toNat → b.toNat ≤ 0xf4 →
      ∃ n lo hi, leadShape b = some (n, lo, hi) := by
    intro b hb hb'
    obtain ⟨⟨n, lo, hi⟩, hs⟩ := Option.isSome_iff_exists.1 (isSome_leadShape.2 ⟨hb, hb'⟩)
    exact ⟨n, lo, hi, hs⟩
  cases h with
  | one hb => rw [decodeChar, if_pos (UInt8.lt_iff_toNat_lt.2 hb)]; rfl
  | two hb hx =>
    obtain ⟨n, lo, hi, hs⟩ := lead b (by omega) (by omega)
    obtain ⟨rfl, -, -, hnext⟩ | ⟨-, hb', -⟩ | ⟨-, hb', -⟩ := leadShape_spec hs
    · rw [decodeChar_of_lead _ hs, List.cons_append, continuation_cons ((hnext _).2 hx),
        leadBits_two (by omega) hb.2]
      rfl
    · omega
    · omega
  | three hb hx hy =>
    obtain ⟨n, lo, hi, hs⟩ := lead b (by omega) (by omega)
    obtain ⟨-, -, hb', -⟩ | ⟨rfl, -, -, hnext⟩ | ⟨-, hb', -⟩ := leadShape_spec hs
    · omega
    · rw [decodeChar_of_lead _ hs, List.cons_append, continuation_cons ((hnext _).2 hx),
        List.cons_append, continuation_cons (tail_iff.2 hy), leadBits_three hb.1 hb.2]
      rfl
    · omega
  | four hb hx hy hz =>
    obtain ⟨n, lo, hi, hs⟩ := lead b (by omega) (by omega)
    obtain ⟨-, -, hb', -⟩ | ⟨-, -, hb', -⟩ | ⟨rfl, -, -, hnext⟩ := leadShape_spec hs
    · omega
    · omega
    · rw [decodeChar_of_lead _ hs, List.cons_append, continuation_cons ((hnext _).2 hx),
        List.cons_append, continuation_cons (tail_iff.2 hy), List.cons_append,
        continuation_cons (tail_iff.2 hz), leadBits_four hb.1 (by omega)]
      rfl

theorem Form.of_eq {v w : Nat} {b : UInt8} {tail : Bytes} (h : Form v b tail) (hv : v = w) :
    Form w b tail := hv ▸ h

theorem exists_byte (v : Nat) (h : v < 256) : ∃ b : UInt8, b.toNat = v :=
  ⟨UInt8.ofNat v, by rw [UInt8.toNat_ofNat', Nat.mod_eq_of_lt h]⟩

theorem exists_form (c : Char) : ∃ b tail, Form c.toNat b tail := by
  have hv : c.toNat < 0xd800 ∨ 0xdfff < c.toNat ∧ c.toNat < 0x110000 := c.valid
  generalize c.toNat = v at hv
  by_cases h1 : v < 0x80
  · obtain ⟨b, hb⟩ := exists_byte v (by omega)
    exact ⟨b, [], (Form.one (by omega)).of_eq hb⟩
  by_cases h2 : v < 0x800
  · obtain ⟨b, hb⟩ := exists_byte (v / 64 + 0xc0) (by omega)
    obtain ⟨x, hx⟩ := exists_byte (v % 64 + 0x80) (by omega)
    exact ⟨b, [x], (Form.two (by omega) (by omega)).of_eq (by omega)⟩
  by_cases h3 : v < 0x10000
  · obtain ⟨b, hb⟩ := exists_byte (v / 4096 + 0xe0) (by omega)
    obtain ⟨x, hx⟩ := exists_byte (v / 64 % 64 + 0x80) (by omega)
    obtain ⟨y, hy⟩ := exists_byte (v % 64 + 0x80) (by omega)
    exact ⟨b, [x, y], (Form.three (by omega) (by omega) (by omega)).of_eq (by omega)⟩
  · obtain ⟨b, hb⟩ := exists_byte (v / 262144 + 0xf0) (by omega)
    obtain ⟨x, hx⟩ := exists_byte (v / 4096 % 64 + 0x80) (by omega)
    obtain ⟨y, hy⟩ := exists_byte (v / 64 % 64 + 0x80) (by omega)
    obtain ⟨z, hz⟩ := exists_byte (v % 64 + 0x80) (by omega)
    exact ⟨b, [x, y, z],
      (Form.four (by omega) (by omega) (by omega) (by omega)).of_eq (by omega)⟩

theorem Form.large_or_eq {v : Nat} {b : UInt8} {tail : Bytes} (h : Form v b tail) {x : UInt8}
    (hx : x ∈ b :: tail) : 0x80 ≤ x.toNat ∨ x.toNat = v := by
  cases h with
  | one hb =>
    rw [List.mem_singleton.1 hx]
    exact .inr rfl
  | two hb hy | three hb hy hz | four hb hy hz hw =>
    left
    simp only [List.mem_cons, List.not_mem_nil, or_false] at hx
    grind

theorem decodeChar_encode (c : Char) (rest : Bytes) : ∃ b tail,
    String.utf8EncodeChar c = b :: tail ∧ decodeChar b (tail ++ rest) = (some c, rest) := by
  obtain ⟨b, tail, hf⟩ := exists_form c
  have henc := hf.encode
  have hdec := hf.decode rest
  rw [Char.ofNat_toNat] at henc hdec
  exact ⟨b, tail, henc, hdec⟩

theorem continuation_eq_some {n acc : Nat} {lo hi : UInt8} {bs rest : Bytes} {c : Char}
    (h : continuation (n + 1) lo hi acc bs = (some c, rest)) :
    ∃ b bs', bs = b :: bs' ∧ (lo ≤ b ∧ b ≤ hi) ∧
      continuation n 0x80 0xbf (acc * 64 + b.toNat % 64) bs' = (some c, rest) := by
  cases bs with
  | nil => simp [continuation] at h
  | cons b bs =>
    by_cases hb : lo ≤ b ∧ b ≤ hi
    · rw [continuation_cons hb] at h
      exact ⟨b, bs, rfl, hb, h⟩
    · simp [continuation, hb] at h

theorem encode_of_decodeChar {b : UInt8} {bs rest : Bytes} {c : Char}
    (h : decodeChar b bs = (some c, rest)) : b :: bs = String.utf8EncodeChar c ++ rest := by
  suffices hf : ∃ v tail, Form v b tail ∧ Char.ofNat v = c ∧ bs = tail ++ rest by
    obtain ⟨v, tail, hf, rfl, rfl⟩ := hf
    rw [hf.encode, List.cons_append]
  by_cases hb : b < 0x80
  · rw [decodeChar, if_pos hb, Prod.mk.injEq, Option.some.injEq] at h
    exact ⟨b.toNat, [], .one (UInt8.lt_iff_toNat_lt.1 hb), h.1, h.2⟩
  rw [decodeChar, if_neg hb] at h
  cases hs : leadShape b with
  | none => simp [hs] at h
  | some shape =>
    obtain ⟨n, lo, hi⟩ := shape
    simp only [hs] at h
    obtain ⟨rfl, hb, hb', hnext⟩ | ⟨rfl, hb, hb', hnext⟩ | ⟨rfl, hb, hb', hnext⟩ :=
      leadShape_spec hs
    · obtain ⟨x, bs, rfl, hx, h⟩ := continuation_eq_some h
      rw [leadBits_two (by omega) hb', continuation, Prod.mk.injEq, Option.some.injEq] at h
      exact ⟨_, [x], .two ⟨hb, hb'⟩ ((hnext x).1 hx), h.1, by rw [h.2]; rfl⟩
    · obtain ⟨x, bs, rfl, hx, h⟩ := continuation_eq_some h
      obtain ⟨y, bs, rfl, hy, h⟩ := continuation_eq_some h
      rw [leadBits_three hb hb', continuation, Prod.mk.injEq, Option.some.injEq] at h
      exact ⟨_, [x, y], .three ⟨hb, hb'⟩ ((hnext x).1 hx) (tail_iff.1 hy), h.1, by rw [h.2]; rfl⟩
    · obtain ⟨x, bs, rfl, hx, h⟩ := continuation_eq_some h
      obtain ⟨y, bs, rfl, hy, h⟩ := continuation_eq_some h
      obtain ⟨z, bs, rfl, hz, h⟩ := continuation_eq_some h
      rw [leadBits_four hb (by omega), continuation, Prod.mk.injEq, Option.some.injEq] at h
      exact ⟨_, [x, y, z], .four ⟨hb, hb'⟩ ((hnext x).1 hx) (tail_iff.1 hy) (tail_iff.1 hz),
        h.1, by rw [h.2]; rfl⟩

theorem decodeOnto_append (acc before : List (Option Char)) (bs : Bytes) :
    decodeOnto (acc ++ before) bs = decodeOnto acc bs ++ before := by
  fun_induction decodeOnto acc bs with
  | case1 acc => rw [decodeOnto]
  | case2 acc b bs ih =>
    rw [decodeOnto]
    exact ih

theorem decodeEach_nil : decodeEach [] = [] := by
  rw [decodeEach, decodeOnto]
  rfl

theorem decodeEach_cons (b : UInt8) (bs : Bytes) :
    decodeEach (b :: bs) = (decodeChar b bs).1 :: decodeEach (decodeChar b bs).2 := by
  rw [decodeEach, decodeOnto]
  change (decodeOnto ([] ++ [(decodeChar b bs).1]) (decodeChar b bs).2).reverse = _
  rw [decodeOnto_append, List.reverse_append]
  rfl

theorem decodeEach_encode (cs : List Char) : decodeEach (encode cs) = cs.map some := by
  induction cs with
  | nil => exact decodeEach_nil
  | cons c cs ih =>
    obtain ⟨b, tail, henc, hdec⟩ := decodeChar_encode c (encode cs)
    rw [encode, List.flatMap_cons, henc, List.cons_append, decodeEach_cons]
    change (decodeChar b (tail ++ encode cs)).1 :: decodeEach (decodeChar b (tail ++ encode cs)).2 = _
    rw [hdec, ih]
    rfl

theorem encode_of_decodeEach {cs : List Char} {bs : Bytes} (h : decodeEach bs = cs.map some) :
    bs = encode cs := by
  induction cs generalizing bs with
  | nil =>
    cases bs with
    | nil => rfl
    | cons b bs => rw [decodeEach_cons] at h; exact absurd h (by simp)
  | cons c cs ih =>
    cases bs with
    | nil => rw [decodeEach_nil] at h; exact absurd h (by simp)
    | cons b bs =>
      rw [decodeEach_cons, List.map_cons, List.cons.injEq] at h
      have hchar : decodeChar b bs = (some c, (decodeChar b bs).2) := Prod.ext h.1 rfl
      calc b :: bs = String.utf8EncodeChar c ++ (decodeChar b bs).2 := encode_of_decodeChar hchar
        _ = String.utf8EncodeChar c ++ encode cs := congrArg _ (ih h.2)

theorem eq_map_some {os : List (Option Char)} (h : os.all Option.isSome = true) :
    os = (os.filterMap id).map some := by
  induction os with
  | nil => rfl
  | cons o os ih =>
    rw [List.all_cons, Bool.and_eq_true] at h
    obtain ⟨c, rfl⟩ := Option.isSome_iff_exists.1 h.1
    have hmap : (some c :: os).filterMap id = c :: os.filterMap id := rfl
    rw [hmap, List.map_cons, ← ih h.2]

theorem decode?_eq_some {bs : Bytes} {cs : List Char} : decode? bs = some cs ↔ bs = encode cs := by
  constructor
  · intro h
    dsimp only [decode?] at h
    split at h
    · rename_i hall
      have hcs : (decodeEach bs).filterMap id = cs := Option.some.inj h
      apply encode_of_decodeEach
      rw [← hcs]
      exact eq_map_some hall
    · exact absurd h (by simp)
  · rintro rfl
    rw [decode?, decodeEach_encode]
    simp

theorem decodeString?_eq_some {bs : Bytes} {s : String} :
    decodeString? bs = some s ↔ bs = bytesOf s := by
  rw [decodeString?, Option.map_eq_some_iff]
  constructor
  · rintro ⟨cs, hcs, rfl⟩
    rw [decode?_eq_some.1 hcs, bytesOf, String.toList_ofList]
  · rintro rfl
    exact ⟨s.toList, decode?_eq_some.2 rfl, String.ofList_toList⟩

theorem bytesOf_injective {s t : String} (h : bytesOf s = bytesOf t) : s = t := by
  have hs : decodeString? (bytesOf t) = some s := decodeString?_eq_some.2 h.symm
  rw [decodeString?_eq_some.2 rfl] at hs
  exact (Option.some.inj hs).symm

theorem decodeLossy_bytesOf (s : String) : decodeLossy (bytesOf s) = s := by
  rw [decodeLossy, bytesOf, decodeEach_encode, List.map_map]
  have hid : (fun o : Option Char => o.getD '\uFFFD') ∘ some = id := rfl
  rw [hid, List.map_id, String.ofList_toList]

theorem large_or_eq_of_mem_encodeChar {c : Char} {b : UInt8} (h : b ∈ String.utf8EncodeChar c) :
    0x80 ≤ b.toNat ∨ b.toNat = c.toNat := by
  obtain ⟨lead, tail, hform⟩ := exists_form c
  have henc := hform.encode
  rw [Char.ofNat_toNat] at henc
  exact hform.large_or_eq (henc ▸ h)

theorem large_or_eq_of_mem_encode {cs : List Char} {b : UInt8} (h : b ∈ encode cs) :
    0x80 ≤ b.toNat ∨ ∃ c ∈ cs, b.toNat = c.toNat := by
  obtain ⟨c, hc, hb⟩ := List.mem_flatMap.1 h
  exact (large_or_eq_of_mem_encodeChar hb).imp id fun heq => ⟨c, hc, heq⟩

theorem encode_append (cs ds : List Char) : encode (cs ++ ds) = encode cs ++ encode ds :=
  List.flatMap_append

theorem bytesOf_append (s t : String) : bytesOf (s ++ t) = bytesOf s ++ bytesOf t := by
  rw [bytesOf, String.toList_append, encode_append]
  rfl

end EventPost.Text
