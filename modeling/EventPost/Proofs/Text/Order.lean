import Mathlib.Data.List.Lex
import EventPost.Proofs.Text.Utf8

/-!
Texts stand in the order of their bytes: two characters have forms that part at some byte, and the
smaller character has the smaller byte there, so the first place where two texts differ decides
both orders alike.
-/

namespace EventPost.Text

/-- The two part at a byte that is smaller in the first. -/
inductive Below : Bytes → Bytes → Prop
  | here {x y : UInt8} {bs bs' : Bytes} : x.toNat < y.toNat → Below (x :: bs) (y :: bs')
  | later {x : UInt8} {bs bs' : Bytes} : Below bs bs' → Below (x :: bs) (x :: bs')

theorem below_cons {x y : UInt8} {bs bs' : Bytes} : Below (x :: bs) (y :: bs') ↔
    x.toNat < y.toNat ∨ x.toNat = y.toNat ∧ Below bs bs' := by
  constructor
  · intro h
    cases h with
    | here hlt => exact .inl hlt
    | later h => exact .inr ⟨rfl, h⟩
  · rintro (hlt | ⟨heq, h⟩)
    · exact .here hlt
    · obtain rfl := UInt8.toNat_inj.1 heq
      exact .later h

theorem Below.append_lt {bs bs' : Bytes} (h : Below bs bs') (rest rest' : Bytes) :
    bs ++ rest < bs' ++ rest' := by
  induction h with
  | here hlt => exact List.cons_lt_cons_iff.2 (.inl (UInt8.lt_iff_toNat_lt.2 hlt))
  | later _ ih => exact List.cons_lt_cons_iff.2 (.inr ⟨rfl, ih⟩)

theorem Form.below {v w : Nat} {b b' : UInt8} {tail tail' : Bytes} (h : Form v b tail)
    (h' : Form w b' tail') (hlt : v < w) : Below (b :: tail) (b' :: tail') := by
  -- Forms of different lengths part at the first byte; others where the numbers first differ in
  -- their digits to the base 64.
  cases h <;> cases h' <;> simp only [below_cons] <;> omega

theorem below_char {c d : Char} (h : c < d) :
    Below (String.utf8EncodeChar c) (String.utf8EncodeChar d) := by
  obtain ⟨b, tail, hc⟩ := exists_form c
  obtain ⟨b', tail', hd⟩ := exists_form d
  have hbelow := hc.below hd (UInt32.lt_iff_toNat_lt.1 h)
  have hform := hc.encode
  have hform' := hd.encode
  rw [Char.ofNat_toNat] at hform hform'
  rwa [hform, hform']

theorem encode_lt {cs ds : List Char} (h : cs < ds) : encode cs < encode ds := by
  induction h with
  | @nil d ds =>
    obtain ⟨b, tail, hform, -⟩ := decodeChar_encode d []
    rw [encode, encode, List.flatMap_nil, List.flatMap_cons, hform]
    exact List.Lex.nil
  | rel hlt => exact (below_char hlt).append_lt _ _
  | cons _ ih => exact List.append_left_lt ih

theorem bytesOf_lt {s t : String} (h : s < t) : bytesOf s < bytesOf t :=
  encode_lt (String.lt_iff.1 h)

theorem pairwise_bytesOf {ss : List String} (h : ss.Pairwise (· < ·)) :
    (ss.map bytesOf).Pairwise (· < ·) :=
  h.map bytesOf fun _ _ => bytesOf_lt

end EventPost.Text
