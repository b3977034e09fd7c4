import Mathlib.Tactic.SplitIfs
import EventPost.Proofs.Numeral.Decimal
import EventPost.Proofs.Text.Utf8
import EventPost.Text.Quoted

/-!
Texts that stand on one line. Quoted texts and numbers always do; bytes taken for text do unless one
of them ends a line.
-/

namespace EventPost.Text

open Numeral (decimalText)

def isLineEnd (c : Char) : Bool := c == '\n' || c == '\r'

def OneLine (s : String) : Prop := ∀ c ∈ s.toList, isLineEnd c = false

-- By the text's characters: for all characters there are, it would be decidable too.
instance : DecidablePred OneLine := fun s => List.decidableBAll _ s.toList

theorem isLineEnd_eq_false {c : Char} : isLineEnd c = false ↔ c ≠ '\n' ∧ c ≠ '\r' := by
  simp [isLineEnd]

theorem isLineEnd_of_visible {c : Char} (h : 0x20 ≤ c.toNat) : isLineEnd c = false := by
  rw [isLineEnd_eq_false]
  constructor
  · rintro rfl
    exact absurd h (by decide)
  · rintro rfl
    exact absurd h (by decide)

@[simp] theorem oneLine_append {s t : String} : OneLine (s ++ t) ↔ OneLine s ∧ OneLine t := by
  simp only [OneLine, String.toList_append, List.forall_mem_append]

theorem OneLine.append {s t : String} (hs : OneLine s) (ht : OneLine t) : OneLine (s ++ t) :=
  oneLine_append.2 ⟨hs, ht⟩

theorem oneLine_ofList {cs : List Char} :
    OneLine (String.ofList cs) ↔ ∀ c ∈ cs, isLineEnd c = false := by
  rw [OneLine, String.toList_ofList]

@[simp] theorem oneLine_decimalText (n : Nat) : OneLine (decimalText n) := by
  refine oneLine_ofList.2 fun c hc => isLineEnd_of_visible ?_
  have hdigit := Numeral.isDigit_of_mem_decimal hc
  rw [Char.isDigit, Bool.and_eq_true, decide_eq_true_eq, decide_eq_true_eq] at hdigit
  exact Nat.le_trans (by decide) hdigit.1

theorem exists_digit_of_mem_hexText {n : Nat} {c : Char} (h : c ∈ hexText n) :
    ∃ d < 16, c = Nat.digitChar d := by
  induction n using Nat.strongRecOn with
  | ind n ih =>
    by_cases hn : n < 16
    · rw [hexText, Nat.toDigits_of_lt_base hn] at h
      exact ⟨n, hn, List.mem_singleton.1 h⟩
    · rw [hexText, Nat.toDigits_of_base_le (by decide) (Nat.le_of_not_lt hn)] at h
      rcases List.mem_append.1 h with h | h
      · exact ih (n / 16) (by omega) h
      · exact ⟨n % 16, Nat.mod_lt _ (by decide), List.mem_singleton.1 h⟩

theorem isLineEnd_of_mem_hexText {n : Nat} {c : Char} (h : c ∈ hexText n) :
    isLineEnd c = false := by
  have hdigits : ∀ d < 16, isLineEnd (Nat.digitChar d) = false := by decide
  obtain ⟨d, hd, rfl⟩ := exists_digit_of_mem_hexText h
  exact hdigits d hd

theorem isLineEnd_of_mem_quoteChar {c d : Char} (h : d ∈ quoteChar c) : isLineEnd d = false := by
  have hnone : ∀ {cs : List Char}, cs.any isLineEnd = false → d ∈ cs → isLineEnd d = false :=
    fun hcs hd => Bool.not_eq_true _ ▸ List.any_eq_false.1 hcs d hd
  unfold quoteChar at h
  split_ifs at h with hquote hback hline hreturn htab hzero hhidden
  · exact hnone (by decide) h
  · exact hnone (by decide) h
  · exact hnone (by decide) h
  · exact hnone (by decide) h
  · exact hnone (by decide) h
  · exact hnone (by decide) h
  · rw [List.mem_append, List.mem_append] at h
    obtain (h | h) | h := h
    · exact hnone (by decide) h
    · exact isLineEnd_of_mem_hexText h
    · exact hnone (by decide) h
  · rw [List.mem_singleton.1 h, isLineEnd_eq_false]
    exact ⟨hline, hreturn⟩

@[simp] theorem oneLine_quote (s : String) : OneLine (quote s) := by
  refine oneLine_ofList.2 ?_
  simp only [List.forall_mem_append, List.forall_mem_singleton, List.mem_flatMap]
  refine ⟨⟨rfl, ?_⟩, rfl⟩
  rintro d ⟨c, -, hd⟩
  exact isLineEnd_of_mem_quoteChar hd

theorem continuation_suffix (n : Nat) (lo hi : UInt8) (acc : Nat) (bs : Bytes) :
    (continuation n lo hi acc bs).2 <:+ bs := by
  fun_induction continuation n lo hi acc bs with
  | case1 => exact List.suffix_rfl
  | case2 => exact List.suffix_rfl
  | case3 n lo hi acc b bs _ ih => exact ih.trans (List.suffix_cons b bs)
  | case4 => exact List.suffix_rfl

theorem decodeChar_suffix (b : UInt8) (bs : Bytes) : (decodeChar b bs).2 <:+ bs := by
  unfold decodeChar
  split
  · exact List.suffix_rfl
  · split
    · exact List.suffix_rfl
    · exact continuation_suffix _ _ _ _ _

theorem mem_of_mem_decodeEach {bs : Bytes} {c : Char} {b : UInt8}
    (hform : b ∈ String.utf8EncodeChar c) (h : some c ∈ decodeEach bs) : b ∈ bs := by
  induction hn : bs.length using Nat.strongRecOn generalizing bs with
  | ind n ih =>
    cases bs with
    | nil =>
      rw [decodeEach_nil] at h
      exact absurd h List.not_mem_nil
    | cons d bs =>
      rw [decodeEach_cons] at h
      rcases List.mem_cons.1 h with h | h
      · rw [encode_of_decodeChar (Prod.ext h.symm rfl)]
        exact List.mem_append_left _ hform
      · have hlt : (decodeChar d bs).2.length < n := by
          have := length_decodeChar_le d bs
          rw [← hn, List.length_cons]
          omega
        exact List.mem_cons_of_mem d ((decodeChar_suffix d bs).subset (ih _ hlt h rfl))

theorem oneLine_decodeLossy {bs : Bytes} (h : ∀ b ∈ bs, b ≠ 0x0d ∧ b ≠ 0x0a) :
    OneLine (decodeLossy bs) := by
  refine oneLine_ofList.2 fun c hc => ?_
  obtain ⟨o, ho, rfl⟩ := List.mem_map.1 hc
  cases o with
  | none => rfl
  | some c =>
    rw [Option.getD_some, isLineEnd_eq_false]
    constructor
    · rintro rfl
      exact (h 0x0a (mem_of_mem_decodeEach (by decide) ho)).2 rfl
    · rintro rfl
      exact (h 0x0d (mem_of_mem_decodeEach (by decide) ho)).1 rfl

end EventPost.Text
