import LexCalc.Calculation
import LexCalc.Proofs.Natural.BitCount
import LexCalc.Proofs.Natural.Digits
import LexCalc.Proofs.Natural.Expression
import LexCalc.Proofs.Natural.Hexadecimal
import Mathlib.Order.Bounds.Basic

/-! A calculation on written operands is exact arithmetic on the numbers that they denote, and its
result is written as the numeral of that number. -/
namespace LexCalc

namespace Natural
variable {a b : Natural} {m n : Nat}

theorem toExcept_of_toNat? (h : a.toNat? = some n) : a.toExcept = .ok a := by
  cases a with
  | invalid => cases h
  | ofWords ws => rfl

theorem checkedSub_of_le (ha : a.toNat? = some m) (hb : b.toNat? = some n) (h : n ≤ m) :
    ∃ d, a.checkedSub b = .ok d ∧ d.toNat? = some (m - n) := by
  cases a with
  | invalid => cases ha
  | ofWords as =>
    cases b with
    | invalid => cases hb
    | ofWords bs =>
      obtain rfl : as.value = m := Option.some.inj ha
      obtain rfl : bs.value = n := Option.some.inj hb
      refine ⟨(ofWords as).sub (ofWords bs), ?_, ?_⟩
      · rw [checkedSub_ofWords, if_neg (Nat.not_lt.mpr h)]
      · rw [toNat?_sub, ha, hb]
        simp [h]

/-- The error names the sizes of the operands, and the subtrahend is the larger one. -/
theorem checkedSub_of_lt (ha : a.toNat? = some m) (hb : b.toNat? = some n) (h : m < n) :
    ∃ j k, a.checkedSub b = .error (.negativeDifference j k) ∧
      IsLeast {i | m < 2 ^ (32 * i)} j ∧ IsLeast {i | n < 2 ^ (32 * i)} k ∧ j ≤ k := by
  cases a with
  | invalid => cases ha
  | ofWords as =>
    cases b with
    | invalid => cases hb
    | ofWords bs =>
      obtain rfl : as.value = m := Option.some.inj ha
      obtain rfl : bs.value = n := Option.some.inj hb
      have hj := Words.isLeast_trimmedLength as
      have hk := Words.isLeast_trimmedLength bs
      refine ⟨as.trimmedLength, bs.trimmedLength, ?_, hj, hk, hj.2 (Nat.lt_trans h hk.1)⟩
      rw [checkedSub_ofWords, if_pos h]

end Natural

namespace Calculation
variable {op : Operation} {lhs rhs : Text} {a b : Natural} {m n : Nat}

theorem execute_of_lhs_error {e : HexError} (h : Natural.ofHex lhs = .error e) :
    execute ⟨op, lhs, rhs⟩ = .error (.validation e.message) := by
  simp [execute, hexOperand, h, bind, Except.bind]

theorem execute_of_apply_error {e : Failure} (ha : Natural.ofHex lhs = .ok a)
    (h : apply op a rhs = .error e) : execute ⟨op, lhs, rhs⟩ = .error e := by
  simp [execute, hexOperand, ha, h, bind, Except.bind]

/-- A number that the operation gives is the result. -/
theorem execute_of_apply (ha : Natural.ofHex lhs = .ok a) (h : apply op a rhs = .ok b)
    (hb : b.toNat? = some n) : execute ⟨op, lhs, rhs⟩ = .ok b := by
  simp [execute, hexOperand, ha, h, Natural.toExcept_of_toNat? hb, bind, Except.bind, pure,
    Except.pure]

theorem apply_of_rhs_error {e : HexError} (ho : op ≠ .shl) (h : Natural.ofHex rhs = .error e) :
    apply op a rhs = .error (.validation e.message) := by
  cases op with
  | shl => exact absurd rfl ho
  | add | mul | sub => simp [apply, hexOperand, h, bind, Except.bind]

theorem apply_shl_of_error {e : BitCountError} (h : BitCount.ofText rhs = .error e) :
    apply .shl a rhs = .error (.validation e.message) := by
  simp [apply, bitCount, h, bind, Except.bind]

theorem execute_shl (ha : Natural.ofHex lhs = .ok a) (hm : a.toNat? = some m)
    (hn : BitCount.ofText rhs = .ok n) :
    ∃ v, execute ⟨.shl, lhs, rhs⟩ = .ok v ∧ v.toNat? = some (m * 2 ^ n) := by
  have hv : (a.shiftLeft n).toNat? = some (m * 2 ^ n) := by
    rw [Natural.toNat?_shiftLeft, hm]
    rfl
  refine ⟨a.shiftLeft n, execute_of_apply ha ?_ hv, hv⟩
  simp [apply, bitCount, hn, bind, Except.bind, pure, Except.pure]

section
variable (ha : Natural.ofHex lhs = .ok a) (hb : Natural.ofHex rhs = .ok b)
  (hm : a.toNat? = some m) (hn : b.toNat? = some n)
include ha hb hm hn

theorem execute_add : ∃ v, execute ⟨.add, lhs, rhs⟩ = .ok v ∧ v.toNat? = some (m + n) := by
  have hv : (a.add b).toNat? = some (m + n) := by
    rw [Natural.toNat?_add, hm, hn]
    rfl
  refine ⟨a.add b, execute_of_apply ha ?_ hv, hv⟩
  simp [apply, hexOperand, hb, bind, Except.bind, pure, Except.pure]

theorem execute_mul : ∃ v, execute ⟨.mul, lhs, rhs⟩ = .ok v ∧ v.toNat? = some (m * n) := by
  have hv : (a.mul b).toNat? = some (m * n) := by
    rw [Natural.toNat?_mul, hm, hn]
    rfl
  refine ⟨a.mul b, execute_of_apply ha ?_ hv, hv⟩
  simp [apply, hexOperand, hb, bind, Except.bind, pure, Except.pure]

theorem execute_sub_of_le (h : n ≤ m) :
    ∃ v, execute ⟨.sub, lhs, rhs⟩ = .ok v ∧ v.toNat? = some (m - n) := by
  obtain ⟨d, hs, hd⟩ := Natural.checkedSub_of_le hm hn h
  refine ⟨d, execute_of_apply ha ?_ hd, hd⟩
  simp [apply, hexOperand, hb, hs, bind, Except.bind, pure, Except.pure]

theorem execute_sub_of_lt (h : m < n) :
    ∃ j k, execute ⟨.sub, lhs, rhs⟩ = .error (.arithmetic (.negativeDifference j k)) ∧
      IsLeast {i | m < 2 ^ (32 * i)} j ∧ IsLeast {i | n < 2 ^ (32 * i)} k ∧ j ≤ k := by
  obtain ⟨j, k, hs, hleast⟩ := Natural.checkedSub_of_lt hm hn h
  refine ⟨j, k, execute_of_apply_error ha ?_, hleast⟩
  simp [apply, hexOperand, hb, hs, bind, Except.bind, throw, throwThe, MonadExceptOf.throw]

end

/-- Operands that are read are numbers, so nothing is without a value. -/
theorem execute_ne_invalidValue (op : Operation) (lhs rhs : Text) :
    execute ⟨op, lhs, rhs⟩ ≠ .error (.arithmetic .invalidValue) := by
  intro h
  cases ha : Natural.ofHex lhs with
  | error e => simp [execute_of_lhs_error ha] at h
  | ok a =>
    obtain ⟨m, -, hm⟩ := Natural.hexOperand_of_ofHex ha
    by_cases ho : op = .shl
    · subst ho
      cases hn : BitCount.ofText rhs with
      | error e => simp [execute_of_apply_error ha (apply_shl_of_error hn)] at h
      | ok n =>
        obtain ⟨v, hv, -⟩ := execute_shl ha hm hn
        simp [hv] at h
    cases hb : Natural.ofHex rhs with
    | error e => simp [execute_of_apply_error ha (apply_of_rhs_error ho hb)] at h
    | ok b =>
      obtain ⟨n, -, hn⟩ := Natural.hexOperand_of_ofHex hb
      cases op with
      | shl => exact absurd rfl ho
      | add =>
        obtain ⟨v, hv, -⟩ := execute_add ha hb hm hn
        simp [hv] at h
      | mul =>
        obtain ⟨v, hv, -⟩ := execute_mul ha hb hm hn
        simp [hv] at h
      | sub =>
        rcases Nat.lt_or_ge m n with hlt | hle
        · obtain ⟨j, k, hv, -⟩ := execute_sub_of_lt ha hb hm hn hlt
          simp [hv] at h
        · obtain ⟨v, hv, -⟩ := execute_sub_of_le ha hb hm hn hle
          simp [hv] at h

/-- A result is a number: the invalid value is turned into an error. -/
theorem toNat?_of_execute {c : Calculation} (h : c.execute = .ok a) : ∃ n, a.toNat? = some n := by
  simp only [execute, bind, Except.bind] at h
  split at h
  · cases h
  split at h
  · cases h
  · next r _ =>
    cases r with
    | invalid => cases h
    | ofWords ws =>
      cases h
      exact ⟨ws.value, rfl⟩

/-- The first operand that cannot be read decides the failure. On operands that can be read, the
result is the exact sum, product, shifted number or difference, and only a difference below zero
has none. What is printed is the numeral of the result. -/
theorem execute_exact (op : Operation) (lhs rhs : Text) :
    (∀ e, Natural.ofHex lhs = .error e →
      execute ⟨op, lhs, rhs⟩ = .error (.validation e.message)) ∧
    (∀ a, Natural.ofHex lhs = .ok a →
      (op ≠ .shl → ∀ e, Natural.ofHex rhs = .error e →
        execute ⟨op, lhs, rhs⟩ = .error (.validation e.message)) ∧
      ∀ e, BitCount.ofText rhs = .error e →
        execute ⟨.shl, lhs, rhs⟩ = .error (.validation e.message)) ∧
    (∀ a b, Natural.ofHex lhs = .ok a → Natural.ofHex rhs = .ok b →
      ∃ m n, HexOperand lhs m ∧ HexOperand rhs n ∧
        (∃ v, execute ⟨.add, lhs, rhs⟩ = .ok v ∧ v.toNat? = some (m + n)) ∧
        (∃ v, execute ⟨.mul, lhs, rhs⟩ = .ok v ∧ v.toNat? = some (m * n)) ∧
        (n ≤ m → ∃ v, execute ⟨.sub, lhs, rhs⟩ = .ok v ∧ v.toNat? = some (m - n)) ∧
        (m < n → ∃ j k,
          execute ⟨.sub, lhs, rhs⟩ = .error (.arithmetic (.negativeDifference j k)) ∧
            IsLeast {i | m < 2 ^ (32 * i)} j ∧ IsLeast {i | n < 2 ^ (32 * i)} k ∧ j ≤ k)) ∧
    (∀ a n, Natural.ofHex lhs = .ok a → BitCount.ofText rhs = .ok n →
      ∃ m, HexOperand lhs m ∧ CountOperand rhs n ∧
        ∃ v, execute ⟨.shl, lhs, rhs⟩ = .ok v ∧ v.toNat? = some (m * 2 ^ n)) ∧
    execute ⟨op, lhs, rhs⟩ ≠ .error (.arithmetic .invalidValue) ∧
    (∀ v, execute ⟨op, lhs, rhs⟩ = .ok v → ∃ n, v.toNat? = some n ∧
      ∀ (uppercase : Bool) (base : CalculationConfig),
        (run ⟨op, lhs, rhs⟩ uppercase base).verdict = .ok () ∧
        (run ⟨op, lhs, rhs⟩ uppercase base).output =
          ['0', 'x'] ++ (if uppercase || base.uppercase then
            (Nat.toDigits 16 n).map Char.toUpper else Nat.toDigits 16 n) ++ ['\n']) := by
  refine ⟨?_, ?_, ?_, ?_, execute_ne_invalidValue op lhs rhs, ?_⟩
  · intro e he
    exact execute_of_lhs_error he
  · intro a ha
    refine ⟨?_, ?_⟩
    · intro ho e he
      exact execute_of_apply_error ha (apply_of_rhs_error ho he)
    · intro e he
      exact execute_of_apply_error ha (apply_shl_of_error he)
  · intro a b ha hb
    obtain ⟨m, hl, hm⟩ := Natural.hexOperand_of_ofHex ha
    obtain ⟨n, hr, hn⟩ := Natural.hexOperand_of_ofHex hb
    exact ⟨m, n, hl, hr, execute_add ha hb hm hn, execute_mul ha hb hm hn,
      execute_sub_of_le ha hb hm hn, execute_sub_of_lt ha hb hm hn⟩
  · intro a n ha hn
    obtain ⟨m, hl, hm⟩ := Natural.hexOperand_of_ofHex ha
    exact ⟨m, hl, (BitCount.countOperand_of_ofText hn).1, execute_shl ha hm hn⟩
  · intro v hv
    obtain ⟨n, hn⟩ := toNat?_of_execute hv
    refine ⟨n, hn, ?_⟩
    intro uppercase base
    simp [run, hv, Natural.toHex_eq _ hn]

theorem execute_exact_separated :
    Natural.ofHex ['0', 'X', 'f', '_', 'F'] = .ok (.ofWords [0xff]) ∧
    Natural.ofHex ['0', '1'] = .ok (.ofWords [1]) ∧
    ∃ m n, HexOperand ['0', 'X', 'f', '_', 'F'] m ∧ HexOperand ['0', '1'] n ∧
      ∃ v, execute ⟨.mul, ['0', 'X', 'f', '_', 'F'], ['0', '1']⟩ = .ok v ∧
        v.toNat? = some (m * n) := by
  have ha : Natural.ofHex ['0', 'X', 'f', '_', 'F'] = .ok (.ofWords [0xff]) := by
    change Except.ok (Natural.ofWords (Natural.wordsOfHex ['F', 'f'] [])) = _
    simp only [Natural.wordsOfHex, List.drop_nil, List.drop_succ_cons]
    rfl
  have hb : Natural.ofHex ['0', '1'] = .ok (.ofWords [1]) := by
    change Except.ok (Natural.ofWords (Natural.wordsOfHex ['1', '0'] [])) = _
    simp only [Natural.wordsOfHex, List.drop_nil, List.drop_succ_cons]
    rfl
  obtain ⟨m, n, hm, hn, -, hv, -⟩ := (execute_exact .mul _ _).2.2.1 _ _ ha hb
  exact ⟨ha, hb, m, n, hm, hn, hv⟩

end Calculation

end LexCalc
