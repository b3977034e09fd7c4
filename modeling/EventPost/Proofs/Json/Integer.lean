import EventPost.Proofs.Json.Numeral

/-!
Integers among the numbers. The digits of a whole number are added up as long as they fit a word, so
only a whole number that fits is read as an integer, and zero only without a sign.
-/

namespace EventPost.Json

open Text (Bytes)
open Numeral (maxWord)

theorem le_digitsValue (ds : Bytes) (acc : Nat) :
    acc ≤ ds.foldl (fun n b => 10 * n + digitOf b) acc := by
  induction ds generalizing acc with
  | nil => exact Nat.le_refl acc
  | cons d ds ih =>
    have hnext := ih (10 * acc + digitOf d)
    rw [List.foldl_cons]
    omega

theorem takeWhole_onto (ds : Bytes) (acc : Nat) (ha : acc ≤ maxWord) :
    if ds.foldl (fun n b => 10 * n + digitOf b) acc ≤ maxWord then
      takeWhole acc ds = (ds.foldl (fun n b => 10 * n + digitOf b) acc, 0)
    else (takeWhole acc ds).2 ≠ 0 := by
  induction ds generalizing acc with
  | nil => simp [takeWhole, ha]
  | cons d ds ih =>
    have hnext := le_digitsValue ds (10 * acc + digitOf d)
    rw [List.foldl_cons, takeWhole]
    by_cases hd : 10 * acc + digitOf d ≤ maxWord
    · rw [if_pos hd]
      exact ih _ hd
    · rw [if_neg hd, if_neg (by omega)]
      exact Nat.succ_ne_zero _

theorem takeWhole_eq (ds : Bytes) :
    if digitsValue ds ≤ maxWord then takeWhole 0 ds = (digitsValue ds, 0)
    else (takeWhole 0 ds).2 ≠ 0 :=
  takeWhole_onto ds 0 (Nat.zero_le _)

theorem wholeNumber_integer {negative : Bool} {n : Nat} {i : Int} (h : Fits i) :
    wholeNumber negative n = some (.integer i h) ↔
      if negative then n ≠ 0 ∧ i = -n else i = n := by
  unfold wholeNumber
  constructor
  · intro hx
    split at hx
    · split at hx
      · cases hx
      · rename_i hneg hn
        rw [if_pos hneg]
        split at hx
        · exact ⟨hn, (Number.integer.inj (Option.some.inj hx)).symm⟩
        · obtain ⟨x, -, hreal⟩ := Option.map_eq_some_iff.1 hx
          cases hreal
    · rename_i hneg
      rw [if_neg hneg]
      split at hx
      · exact (Number.integer.inj (Option.some.inj hx)).symm
      · obtain ⟨x, -, hreal⟩ := Option.map_eq_some_iff.1 hx
        cases hreal
  · intro hi
    split at hi
    · rename_i hneg
      obtain ⟨hn, rfl⟩ := hi
      rw [if_pos hneg, if_neg hn, dif_pos h]
    · rename_i hneg
      subst hi
      rw [if_neg hneg, dif_pos h]

theorem takeWhole_fits {ds : Bytes} {negative : Bool} {i : Int} (h : Fits i)
    (hi : if negative then digitsValue ds ≠ 0 ∧ i = -digitsValue ds else i = digitsValue ds) :
    takeWhole 0 ds = (digitsValue ds, 0) := by
  have hle : digitsValue ds ≤ maxWord := by
    obtain ⟨hmin, hmax⟩ := h
    unfold maxWord
    split at hi <;> omega
  have htake := takeWhole_eq ds
  rwa [if_pos hle] at htake

theorem readAs_of_whole {i : Int} (h : Fits i) {ds : Bytes} (hw : Whole ds) (sign : Bytes)
    (hsign : sign ∈ [[], [0x2d]]) (hi : if !sign.isEmpty then digitsValue ds ≠ 0 ∧ i = -digitsValue ds
      else i = digitsValue ds) : ReadAs (sign ++ ds) (.integer i h) := by
  obtain ⟨b, bs, hbytes, -, hread⟩ := readNumeral_parts hsign hw .none
  have hnil := hread [] stops_nil
  rw [List.append_nil] at hbytes hnil
  refine ⟨⟨sign, ds, [], hsign, hw, .none, by rw [List.append_nil]⟩, b, bs, hbytes, ?_⟩
  rw [hnil]
  exact readAfterWhole_ends (takeWhole_fits h hi) ((wholeNumber_integer h).2 hi)
    fun _ hb => nomatch hb

theorem readAs_integer {text : Bytes} {i : Int} (h : Fits i) :
    ReadAs text (.integer i h) ↔ IsInteger text i := by
  constructor
  · intro hn
    obtain ⟨-, b, bs, rfl, hread⟩ := hn
    obtain ⟨sign, ds, s, hsign, hw, -, hbytes, hn⟩ := parts_of_readNumeral hread
    obtain ⟨rfl, hfits, hwhole⟩ := hn.resolve_left fun ⟨v, hv⟩ => nomatch hv
    have htake := takeWhole_eq ds
    split at htake
    · rw [htake, wholeNumber_integer] at hwhole
      rw [hbytes, List.append_nil, List.append_nil]
      simp only [List.mem_cons, List.not_mem_nil, or_false] at hsign
      rcases hsign with rfl | rfl
      · simp only [List.isEmpty_nil, Bool.not_true, Bool.false_eq_true, if_false] at hwhole
        subst hwhole
        exact .positive hw h
      · simp only [List.isEmpty_cons, Bool.not_false, if_true] at hwhole
        obtain ⟨hne, rfl⟩ := hwhole
        exact .negative hw hne h
    · exact absurd hfits htake
  · intro hi
    cases hi with
    | positive hw => exact readAs_of_whole h hw [] (by simp) (by simp)
    | negative hw hne => exact readAs_of_whole h hw [0x2d] (by simp) (by simpa using hne)

theorem isWord_iff {text : Bytes} {n : UInt64} : IsWord text n ↔ IsInteger text n.toNat := by
  constructor
  · intro h
    obtain ⟨hw, hn⟩ := h
    rw [← hn]
    exact .positive hw (hn ▸ fits_toNat n)
  · intro h
    generalize hi : (n.toNat : Int) = i at h
    cases h with
    | positive hw => exact ⟨hw, by omega⟩
    | negative hw hne => omega

end EventPost.Json
