import LexCalc.Natural.Basic
import Mathlib.Algebra.BigOperators.Intervals
import Mathlib.Algebra.BigOperators.Ring.Finset
import Mathlib.Tactic.Ring

/-! The number that a word list stands for, its bounds, and the words that matter for it. -/
namespace LexCalc.Words
variable {a b : Words}

@[simp] theorem value_nil : value [] = 0 := rfl

@[simp] theorem value_cons (w : Word) (ws : Words) :
    value (w :: ws) = w.toNat + UInt32.size * value ws := rfl

theorem value_append (a b : Words) :
    value (a ++ b) = value a + UInt32.size ^ a.length * value b := by
  induction a with
  | nil => simp
  | cons w a ih =>
    rw [List.cons_append, value_cons, value_cons, ih, List.length_cons, pow_succ]
    ring

@[simp] theorem value_concat (ws : Words) (w : Word) :
    value (ws ++ [w]) = value ws + UInt32.size ^ ws.length * w.toNat := by
  simp [value_append]

@[simp] theorem length_zeros (n : Nat) : (zeros n).length = n := List.length_replicate

@[simp] theorem value_zeros (n : Nat) : value (zeros n) = 0 := by
  induction n with
  | zero => rfl
  | succ n ih =>
    change value (0 :: zeros n) = 0
    simp [ih]

/-- High zero words leave the number as it is. -/
@[simp] theorem value_append_zeros (a : Words) (n : Nat) : value (a ++ zeros n) = value a := by
  simp [value_append]

/-- Word `i` counts for `2 ^ (32 * i)`. -/
theorem value_eq_sum (ws : Words) :
    ws.value = ∑ i ∈ Finset.range ws.length, (ws.getD i 0).toNat * 2 ^ (32 * i) := by
  induction ws with
  | nil => rfl
  | cons w ws ih =>
    have hs : ∀ i ∈ Finset.range ws.length,
        ((w :: ws).getD (i + 1) 0).toNat * 2 ^ (32 * (i + 1)) =
          UInt32.size * ((ws.getD i 0).toNat * 2 ^ (32 * i)) := by
      intro i _
      have hp : 2 ^ (32 * (i + 1)) = UInt32.size * 2 ^ (32 * i) := by
        rw [Nat.mul_succ, pow_add, mul_comm]
        rfl
      rw [List.getD_cons_succ, hp]
      ring
    rw [value_cons, ih, List.length_cons, Finset.sum_range_succ', Finset.sum_congr rfl hs,
      Finset.mul_sum]
    simp [Nat.add_comm]

theorem value_lt (ws : Words) : ws.value < UInt32.size ^ ws.length := by
  induction ws with
  | nil => simp
  | cons w ws ih =>
    have hw : w.toNat < UInt32.size := w.toNat_lt
    calc value (w :: ws) < UInt32.size * (value ws + 1) := by rw [value_cons, mul_add]; omega
      _ ≤ UInt32.size * UInt32.size ^ ws.length := Nat.mul_le_mul_left _ ih
      _ = UInt32.size ^ (w :: ws).length := by rw [List.length_cons, pow_succ, mul_comm]

/-- A sum of a low word and a multiple of the base has one reading. -/
theorem digit_eq {v w : Word} {m n : Nat}
    (h : v.toNat + UInt32.size * m = w.toNat + UInt32.size * n) : v = w ∧ m = n := by
  have hv := v.toNat_lt
  have hw := w.toNat_lt
  simp only [UInt32.size] at h
  exact ⟨UInt32.toNat_inj.mp (by omega), by omega⟩

/-- A fixed number of words has one list for each number. -/
theorem eq_of_value_eq (hl : a.length = b.length) (hv : a.value = b.value) : a = b := by
  induction a generalizing b with
  | nil => exact (List.length_eq_zero_iff.mp hl.symm).symm
  | cons v a ih =>
    cases b with
    | nil => simp at hl
    | cons w b =>
      obtain ⟨rfl, hm⟩ := digit_eq hv
      rw [ih (Nat.succ.inj hl) hm]

@[simp] theorem trimmed_nil : trimmed [] = [] := rfl

theorem trimmed_cons (w : Word) (ws : Words) :
    trimmed (w :: ws) = if w = 0 ∧ trimmed ws = [] then [] else w :: trimmed ws := by
  simp only [trimmed, leading, List.reverse_cons, List.dropWhile_append]
  by_cases hd : ws.reverse.dropWhile (· == 0) = []
  · by_cases hw : w = 0 <;> simp [hd, hw]
  · simp [hd]

@[simp] theorem value_trimmed (ws : Words) : ws.trimmed.value = ws.value := by
  induction ws with
  | nil => rfl
  | cons w ws ih =>
    rw [trimmed_cons]
    split
    · next h =>
      obtain ⟨rfl, ht⟩ := h
      rw [ht] at ih
      simp [← ih]
    · rw [value_cons, value_cons, ih]

theorem trimmed_eq_nil : a.trimmed = [] ↔ a.value = 0 := by
  constructor
  · intro h
    rw [← value_trimmed, h, value_nil]
  · intro h
    induction a with
    | nil => rfl
    | cons w a ih =>
      have hw : w.toNat = 0 := by rw [value_cons] at h; omega
      have ha : value a = 0 := by simp only [value_cons, UInt32.size] at h; omega
      rw [trimmed_cons, if_pos ⟨UInt32.toNat_inj.mp hw, ih ha⟩]

/-- The significant words tell numbers apart, and nothing else. -/
theorem trimmed_eq_iff : a.trimmed = b.trimmed ↔ a.value = b.value := by
  constructor
  · intro h
    rw [← value_trimmed a, h, value_trimmed]
  · intro h
    induction a generalizing b with
    | nil => exact (trimmed_eq_nil.mpr h.symm).symm
    | cons v a ih =>
      cases b with
      | nil => exact trimmed_eq_nil.mpr h
      | cons w b =>
        obtain ⟨rfl, hm⟩ := digit_eq h
        rw [trimmed_cons, trimmed_cons, ih hm]

theorem trimmedLength_eq (ws : Words) : ws.trimmedLength = ws.trimmed.length :=
  List.length_reverse.symm

theorem trimmedLength_le (ws : Words) : ws.trimmedLength ≤ ws.length := by
  have h := (List.dropWhile_sublist (l := ws.reverse) (· == (0 : Word))).length_le
  rwa [List.length_reverse] at h

/-- A nonzero number reaches the place of its top significant word. -/
theorem pow_le_value (h : a.value ≠ 0) : UInt32.size ^ (a.trimmedLength - 1) ≤ a.value := by
  induction a with
  | nil => exact absurd rfl h
  | cons w a ih =>
    rw [trimmedLength_eq, trimmed_cons]
    by_cases ha : value a = 0
    · have hw : w ≠ 0 := by
        rintro rfl
        exact h (by simp [ha])
      have hn : w.toNat ≠ 0 := fun h0 => hw (UInt32.toNat_inj.mp h0)
      rw [if_neg (fun hc => hw hc.1), trimmed_eq_nil.mpr ha, value_cons]
      simp
      omega
    · have ht : trimmed a ≠ [] := fun hn => ha (trimmed_eq_nil.mp hn)
      have hl : 0 < (trimmed a).length := List.length_pos_iff.mpr ht
      have hi := ih ha
      rw [trimmedLength_eq] at hi
      rw [if_neg (fun hc => ht hc.2), List.length_cons, value_cons]
      calc UInt32.size ^ ((trimmed a).length + 1 - 1)
          = UInt32.size * UInt32.size ^ ((trimmed a).length - 1) := by
            rw [← pow_succ']
            congr 1
            omega
        _ ≤ UInt32.size * value a := Nat.mul_le_mul_left _ hi
        _ ≤ w.toNat + UInt32.size * value a := Nat.le_add_left _ _

theorem value_lt_pow_trimmedLength (ws : Words) : ws.value < UInt32.size ^ ws.trimmedLength := by
  rw [← value_trimmed, trimmedLength_eq]
  exact value_lt _

end LexCalc.Words
