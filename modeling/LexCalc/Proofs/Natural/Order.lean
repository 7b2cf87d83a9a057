import LexCalc.Proofs.Natural.Value

/-! Comparing significant words, the top one first, is comparing numbers. -/
namespace LexCalc

theorem Word.compare_toNat (v w : Word) : compare v w = compare v.toNat w.toNat := by
  simp only [compare, compareOfLessAndEq, UInt32.lt_iff_toNat_lt, ← UInt32.toNat_inj]

namespace Words

/-- A higher place decides before all that is below it. -/
theorem compare_place {p m n v w : Nat} (hm : m < p) (hn : n < p) :
    compare (m + p * v) (n + p * w) = (compare v w).then (compare m n) := by
  rcases Nat.lt_trichotomy v w with h | rfl | h
  · have hp := Nat.mul_le_mul_left p (Nat.succ_le_of_lt h)
    rw [Nat.mul_succ] at hp
    have hc : compare (m + p * v) (n + p * w) = .lt := Nat.compare_eq_lt.mpr (by omega)
    rw [hc, Nat.compare_eq_lt.mpr h]
    rfl
  · rw [Nat.compare_eq_eq.mpr rfl]
    simp [Nat.compare_eq_ite_lt]
  · have hp := Nat.mul_le_mul_left p (Nat.succ_le_of_lt h)
    rw [Nat.mul_succ] at hp
    have hc : compare (m + p * v) (n + p * w) = .gt := Nat.compare_eq_gt.mpr (by omega)
    rw [hc, Nat.compare_eq_gt.mpr h]
    rfl

theorem compareLeading_eq {as bs : List Word} (h : as.length = bs.length) :
    compareLeading as bs = compare (value as.reverse) (value bs.reverse) := by
  induction as generalizing bs with
  | nil =>
    rw [List.length_eq_zero_iff.mp h.symm]
    rfl
  | cons v as ih =>
    cases bs with
    | nil => simp at h
    | cons w bs =>
      have hl : as.length = bs.length := Nat.succ.inj h
      have ha := value_lt as.reverse
      have hb := value_lt bs.reverse
      rw [List.length_reverse] at ha hb
      rw [compareLeading, ih hl, Word.compare_toNat, List.reverse_cons, List.reverse_cons,
        value_concat, value_concat, List.length_reverse, List.length_reverse, ← hl]
      exact (compare_place ha (hl ▸ hb)).symm

theorem value_lt_of_trimmedLength_lt {a b : Words} (h : a.trimmedLength < b.trimmedLength) :
    a.value < b.value := by
  have hb : b.value ≠ 0 := by
    intro h0
    rw [trimmedLength_eq b, trimmed_eq_nil.mpr h0] at h
    simp at h
  calc a.value < UInt32.size ^ a.trimmedLength := value_lt_pow_trimmedLength a
    _ ≤ UInt32.size ^ (b.trimmedLength - 1) := Nat.pow_le_pow_right (by decide) (by omega)
    _ ≤ b.value := pow_le_value hb

theorem cmp_eq_compare (a b : Words) : a.cmp b = compare a.value b.value := by
  rcases Nat.lt_trichotomy a.trimmedLength b.trimmedLength with h | h | h
  · rw [cmp, Nat.compare_eq_lt.mpr h, Nat.compare_eq_lt.mpr (value_lt_of_trimmedLength_lt h)]
    rfl
  · rw [cmp, Nat.compare_eq_eq.mpr h, compareLeading_eq h]
    change compare (value a.trimmed) (value b.trimmed) = _
    rw [value_trimmed, value_trimmed]
  · rw [cmp, Nat.compare_eq_gt.mpr h, Nat.compare_eq_gt.mpr (value_lt_of_trimmedLength_lt h)]
    rfl

end Words

namespace Natural

/-- Equality is equality of what is meant, the invalid value included. -/
theorem beq_iff {a b : Natural} : (a == b) = true ↔ a.toNat? = b.toNat? := by
  change ((a.hashKey == b.hashKey) = true) ↔ _
  rw [beq_iff_eq]
  cases a <;> cases b <;> simp [Flagged.hashKey, Words.trimmed_eq_iff]

end Natural

end LexCalc
