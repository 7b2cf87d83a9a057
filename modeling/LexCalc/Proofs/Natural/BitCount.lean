import LexCalc.Natural.BitCount
import LexCalc.Proofs.Text.Numeral
import LexCalc.Proofs.Text.Runs

/-! Bit counts are read as the numbers that they denote. -/
namespace LexCalc

/-- Decimal digits after an optional `+`, and the number that they denote. -/
def CountOperand (t : Text) (n : Nat) : Prop :=
  ∃ front digits, front ∈ [[], ['+']] ∧ t = front ++ digits ∧ digits ≠ [] ∧ Numeral 10 digits n

/-- The digits behind a `+` that may stand in front, up to the first other character, and what the
text has from there on. -/
structure CountParts (t digits rest : Text) : Prop where
  text_eq : t = '+' :: (digits ++ rest) ∨ t = digits ++ rest ∧ t.head? ≠ some '+'
  isDigit : ∀ c ∈ digits, c.isDigit = true
  isDigit_rest : ∀ c ∈ rest.head?, c.isDigit = false

namespace BitCount
variable {t digits rest : Text} {m n : Nat}

/-- Taking off a sign leaves the text behind it. -/
theorem withoutSign_eq_iff {body : Text} :
    withoutSign t = body ↔ t = '+' :: body ∨ t = body ∧ t.head? ≠ some '+' := by
  unfold withoutSign
  split
  · simp
  · next h =>
    constructor
    · rintro rfl
      refine .inr ⟨rfl, fun hs => ?_⟩
      obtain ⟨body, rfl⟩ := List.head?_eq_some_iff.mp hs
      exact h body rfl
    · rintro (rfl | ⟨rfl, -⟩)
      · exact absurd rfl (h body)
      · rfl

theorem exists_countParts (t : Text) : ∃ digits rest, CountParts t digits rest :=
  ⟨_, _, withoutSign_eq_iff.mp List.takeWhile_append_dropWhile.symm,
    fun _ hc => of_mem_takeWhile hc, fun _ hc => of_mem_head?_dropWhile hc⟩

/-- The number that the digits denote tells what is read. -/
theorem ofText_of_parts (h : CountParts t digits rest) (hn : Numeral 10 digits n) :
    ofText t =
      if t = [] then .error .empty
      else if 2 ^ 64 ≤ n then .error (.tooLarge t)
      else if digits = [] ∨ rest ≠ [] then .error (.invalidDigit t)
      else if 2 ^ 24 < n then .error (.aboveMaximum n)
      else .ok n := by
  have hw := withoutSign_eq_iff.mpr h.text_eq
  have ht := takeWhile_append_eq h.isDigit h.isDigit_rest
  have hl : digits.length < (digits ++ rest).length ↔ rest ≠ [] := by
    rw [List.length_append, ← List.length_pos_iff]
    omega
  obtain ⟨-, rfl⟩ := numeral_decimal_iff.mp hn
  simp only [ofText, hw, ht, hl, List.isEmpty_iff, Bool.or_eq_true, decide_eq_true_eq]
  rfl

theorem countParts_unique {ds rs : Text} (h : CountParts t digits rest) (k : CountParts t ds rs) :
    digits = ds ∧ rest = rs := by
  have hb : digits ++ rest = ds ++ rs := by
    rw [← withoutSign_eq_iff.mpr h.text_eq, withoutSign_eq_iff.mpr k.text_eq]
  obtain rfl : digits = ds := by
    rw [← takeWhile_append_eq h.isDigit h.isDigit_rest, hb,
      takeWhile_append_eq k.isDigit k.isDigit_rest]
  exact ⟨rfl, List.append_cancel_left hb⟩

/-- In a count nothing follows the digits. -/
theorem countOperand_iff :
    CountOperand t n ↔ ∃ digits, CountParts t digits [] ∧ digits ≠ [] ∧ Numeral 10 digits n := by
  simp only [CountOperand, List.mem_cons, List.not_mem_nil, or_false]
  constructor
  · rintro ⟨front, digits, hf, rfl, hne, hn⟩
    have hd := (numeral_decimal_iff.mp hn).1
    refine ⟨digits, ⟨?_, hd, by simp⟩, hne, hn⟩
    rcases hf with rfl | rfl
    · refine .inr ⟨by simp, fun hs => ?_⟩
      exact ne_of_isDigit (hd '+' (List.mem_of_mem_head? hs)) (by decide) rfl
    · exact .inl (by simp)
  · rintro ⟨digits, h, hne, hn⟩
    rcases h.text_eq with rfl | ⟨rfl, -⟩
    · exact ⟨['+'], digits, .inr rfl, by simp, hne, hn⟩
    · exact ⟨[], digits, .inl rfl, by simp, hne, hn⟩

theorem countOperand_iff_of_parts (h : CountParts t digits rest) (hn : Numeral 10 digits n) :
    CountOperand t m ↔ digits ≠ [] ∧ rest = [] ∧ m = n := by
  rw [countOperand_iff]
  constructor
  · rintro ⟨ds, k, hne, hm⟩
    obtain ⟨rfl, rfl⟩ := countParts_unique h k
    rw [(numeral_decimal_iff.mp hn).2, (numeral_decimal_iff.mp hm).2]
    exact ⟨hne, rfl, rfl⟩
  · rintro ⟨hne, rfl, rfl⟩
    exact ⟨digits, h, hne, hn⟩

theorem exists_numeral (h : CountParts t digits rest) : ∃ n, Numeral 10 digits n :=
  ⟨_, numeral_decimalValue h.isDigit⟩

theorem ne_nil_of_parts (h : CountParts t digits rest) (hne : digits ≠ []) : t ≠ [] := by
  rintro rfl
  rcases h.text_eq with ht | ⟨ht, -⟩
  · cases ht
  · exact hne (List.append_eq_nil_iff.mp ht.symm).1

/-- The counts up to the maximum are read, and nothing else. -/
theorem ofText_eq_ok_iff : ofText t = .ok n ↔ CountOperand t n ∧ n ≤ 2 ^ 24 := by
  obtain ⟨digits, rest, h⟩ := exists_countParts t
  obtain ⟨m, hm⟩ := exists_numeral h
  rw [ofText_of_parts h hm, countOperand_iff_of_parts h hm]
  constructor
  · intro ht
    split_ifs at ht with _ _ hp hle
    cases ht
    rw [not_or, not_not] at hp
    exact ⟨⟨hp.1, hp.2, rfl⟩, Nat.le_of_not_lt hle⟩
  · rintro ⟨⟨hne, hrest, rfl⟩, hle⟩
    have hp : ¬ (digits = [] ∨ rest ≠ []) := by simp [hne, hrest]
    rw [if_neg (ne_nil_of_parts h hne), if_neg (by omega), if_neg hp, if_neg (by omega)]

theorem countOperand_of_ofText (h : ofText t = .ok n) : CountOperand t n ∧ n ≤ maximum :=
  ofText_eq_ok_iff.mp h

end BitCount

end LexCalc
