import LexCalc.Proofs.Natural.Coherence
import LexCalc.Proofs.Natural.Product

/-! Arithmetic on word lists of any lengths is exact arithmetic on natural numbers, with `none`
for what has no natural number. The number of high zero words never shows in a result. -/
namespace LexCalc
namespace Natural
variable {a b c : Natural}

theorem toNat?_ofWord (w : Word) : (ofWord w).toNat? = some w.toNat := by
  change some (Words.value [w]) = _
  simp

theorem toNat?_ofUInt64 (n : UInt64) : (ofUInt64 n).toNat? = some n.toNat := by
  have hn := n.toNat_lt
  change some (Words.value [n.toUInt32, (n >>> 32).toUInt32]) = _
  simp only [Words.value_cons, Words.value_nil, UInt64.toNat_toUInt32,
    UInt64.toNat_shiftRight, Nat.shiftRight_eq_div_pow, UInt64.reduceToNat, Nat.reduceMod,
    Nat.reducePow, UInt32.size, Option.some.injEq]
  omega

theorem toNat?_add (a b : Natural) :
    (a.add b).toNat? = do return (← a.toNat?) + (← b.toNat?) := by
  cases a with
  | invalid => rfl
  | ofWords as =>
    cases b with
    | invalid => rfl
    | ofWords bs => simp [add_ofWords, Words.value_add]

theorem toNat?_mul (a b : Natural) :
    (a.mul b).toNat? = do return (← a.toNat?) * (← b.toNat?) := by
  cases a with
  | invalid => rfl
  | ofWords as =>
    cases b with
    | invalid => rfl
    | ofWords bs => simp [mul_ofWords, Words.value_mul]

theorem sub_ofWords (as bs : Words) :
    (ofWords as).sub (ofWords bs) =
      if as.value < bs.value then invalid else ofWords (as.sub bs) := by
  apply eq_of_toFlagged
  have hlt := Flagged.lt_ofWords as bs
  by_cases h : as.value < bs.value
  · rw [if_pos h]
    exact if_pos (hlt.mpr h)
  · rw [if_neg h]
    exact if_neg (mt hlt.mp h)

theorem checkedSub_ofWords (as bs : Words) :
    (ofWords as).checkedSub (ofWords bs) =
      if as.value < bs.value then
        .error (.negativeDifference as.trimmedLength bs.trimmedLength)
      else .ok ((ofWords as).sub (ofWords bs)) := by
  have hlt := Flagged.lt_ofWords as bs
  by_cases h : as.value < bs.value
  · rw [if_pos h]
    exact checkedSub_of_error (if_pos (hlt.mpr h))
  · rw [if_neg h]
    exact checkedSub_of_ok (if_neg (mt hlt.mp h))

theorem toNat?_sub (a b : Natural) :
    (a.sub b).toNat? =
      a.toNat?.bind fun m => b.toNat?.bind fun n => if m < n then none else some (m - n) := by
  cases a with
  | invalid => rfl
  | ofWords a =>
    cases b with
    | invalid => rfl
    | ofWords b =>
      by_cases h : a.value < b.value
      · simp [sub_ofWords, h]
      · simp [sub_ofWords, h, Words.value_sub (Nat.le_of_not_lt h)]

theorem toNat?_shiftLeft (a : Natural) (n : Nat) :
    (a.shiftLeft n).toNat? = a.toNat?.map (· * 2 ^ n) := by
  cases a with
  | invalid => rfl
  | ofWords ws => simp [shiftLeft_ofWords, Words.value_shiftLeft]

theorem toNat?_shiftWords (a : Natural) (n : Nat) :
    (a.shiftWords n).toNat? = a.toNat?.map (· * 2 ^ (32 * n)) := by
  cases a with
  | invalid => rfl
  | ofWords ws => simp [shiftWords_ofWords, Words.value_shiftWords]

theorem isInvalid_eq (a : Natural) : a.isInvalid = a.toNat?.isNone := by
  cases a <;> rfl

theorem value_words_of_toNat? {n : Nat} (h : a.toNat? = some n) : a.words.value = n := by
  cases a with
  | ofWords ws => exact Option.some.inj h
  | invalid => cases h

end Natural

/-- A value as a caller first forms it. -/
inductive Leaf where
  | word (w : Word)
  | wide (n : UInt64)
  | words (ws : Words)
  | default
  | invalid

/-- What a caller can compute from such values. -/
inductive Expression where
  | leaf (l : Leaf)
  | add (a b : Expression)
  | sub (a b : Expression)
  | mul (a b : Expression)
  | shiftLeft (a : Expression) (n : Nat)
  | shiftWords (a : Expression) (n : Nat)

namespace Leaf

def eval : Leaf → Natural
  | word w => .ofWord w
  | wide n => .ofUInt64 n
  | words ws => .ofWords ws
  | default => Inhabited.default
  | invalid => .invalid

/-- The natural number that a leaf is a representation of. -/
def meaning : Leaf → Option Nat
  | word w => some w.toNat
  | wide n => some n.toNat
  | words ws => some (∑ i ∈ Finset.range ws.length, (ws.getD i 0).toNat * 2 ^ (32 * i))
  | default => some 0
  | invalid => none

theorem toNat?_eval (l : Leaf) : l.eval.toNat? = l.meaning := by
  cases l with
  | word w => exact Natural.toNat?_ofWord w
  | wide n => exact Natural.toNat?_ofUInt64 n
  | words ws => exact congrArg some (Words.value_eq_sum ws)
  | default => rfl
  | invalid => rfl

/-- High zero words make another leaf of the same number. -/
theorem meaning_append_zeros (ws : Words) (n : Nat) :
    (words (ws ++ Words.zeros n)).meaning = (words ws).meaning := by
  rw [← toNat?_eval, ← toNat?_eval]
  exact congrArg some (Words.value_append_zeros ws n)

end Leaf

namespace Expression

def eval : Expression → Natural
  | leaf l => l.eval
  | add a b => a.eval.add b.eval
  | sub a b => a.eval.sub b.eval
  | mul a b => a.eval.mul b.eval
  | shiftLeft a n => a.eval.shiftLeft n
  | shiftWords a n => a.eval.shiftWords n

/-- The same expression over the natural numbers. A difference below zero has no value, and an
operation has one only if all its operands do. -/
def meaning : Expression → Option Nat
  | leaf l => l.meaning
  | add a b => do return (← a.meaning) + (← b.meaning)
  | sub a b => a.meaning.bind fun m => b.meaning.bind fun n => if m < n then none else some (m - n)
  | mul a b => do return (← a.meaning) * (← b.meaning)
  | shiftLeft a n => a.meaning.map (· * 2 ^ n)
  | shiftWords a n => a.meaning.map (· * 2 ^ (32 * n))

/-- Any leaves may be replaced by other representations of the same numbers. -/
inductive Respelled : Expression → Expression → Prop
  | leaf {l l' : Leaf} (h : l.meaning = l'.meaning) : Respelled (leaf l) (leaf l')
  | add {a a' b b' : Expression} (ha : Respelled a a') (hb : Respelled b b') :
      Respelled (add a b) (add a' b')
  | sub {a a' b b' : Expression} (ha : Respelled a a') (hb : Respelled b b') :
      Respelled (sub a b) (sub a' b')
  | mul {a a' b b' : Expression} (ha : Respelled a a') (hb : Respelled b b') :
      Respelled (mul a b) (mul a' b')
  | shiftLeft {a a' : Expression} (n : Nat) (ha : Respelled a a') :
      Respelled (shiftLeft a n) (shiftLeft a' n)
  | shiftWords {a a' : Expression} (n : Nat) (ha : Respelled a a') :
      Respelled (shiftWords a n) (shiftWords a' n)

theorem toNat?_eval (e : Expression) : e.eval.toNat? = e.meaning := by
  induction e with
  | leaf l => exact l.toNat?_eval
  | add a b iha ihb => rw [eval, Natural.toNat?_add, iha, ihb, meaning]
  | sub a b iha ihb => rw [eval, Natural.toNat?_sub, iha, ihb, meaning]
  | mul a b iha ihb => rw [eval, Natural.toNat?_mul, iha, ihb, meaning]
  | shiftLeft a n ih => rw [eval, Natural.toNat?_shiftLeft, ih, meaning]
  | shiftWords a n ih => rw [eval, Natural.toNat?_shiftWords, ih, meaning]

theorem Respelled.meaning_eq {e e' : Expression} (h : Respelled e e') :
    e.meaning = e'.meaning := by
  induction h with
  | leaf h => exact h
  | add _ _ iha ihb => rw [meaning, meaning, iha, ihb]
  | sub _ _ iha ihb => rw [meaning, meaning, iha, ihb]
  | mul _ _ iha ihb => rw [meaning, meaning, iha, ihb]
  | shiftLeft n _ ih => rw [meaning, meaning, ih]
  | shiftWords n _ ih => rw [meaning, meaning, ih]

end Expression

namespace Natural
variable (a b c : Natural) (m n : Nat)

theorem add_comm_beq : (a.add b == b.add a) = true := by
  rw [beq_iff, toNat?_add, toNat?_add]
  cases a.toNat? <;> cases b.toNat? <;> simp [Nat.add_comm]

theorem add_assoc_beq : ((a.add b).add c == a.add (b.add c)) = true := by
  rw [beq_iff]
  simp only [toNat?_add]
  cases a.toNat? <;> cases b.toNat? <;> cases c.toNat? <;> simp [Nat.add_assoc]

theorem mul_comm_beq : (a.mul b == b.mul a) = true := by
  rw [beq_iff, toNat?_mul, toNat?_mul]
  cases a.toNat? <;> cases b.toNat? <;> simp [Nat.mul_comm]

theorem mul_assoc_beq : ((a.mul b).mul c == a.mul (b.mul c)) = true := by
  rw [beq_iff]
  simp only [toNat?_mul]
  cases a.toNat? <;> cases b.toNat? <;> cases c.toNat? <;> simp [Nat.mul_assoc]

theorem mul_add_beq : (a.mul (b.add c) == (a.mul b).add (a.mul c)) = true := by
  rw [beq_iff]
  simp only [toNat?_add, toNat?_mul]
  cases a.toNat? <;> cases b.toNat? <;> cases c.toNat? <;> simp [Nat.mul_add]

/-- An addition is undone by the subtraction of a summand that is a number. -/
theorem add_sub_beq (hb : b.isInvalid = false) : ((a.add b).sub b == a) = true := by
  rw [isInvalid_eq, Option.isNone_eq_false_iff, Option.isSome_iff_exists] at hb
  obtain ⟨n, hb⟩ := hb
  rw [beq_iff, toNat?_sub, toNat?_add, hb]
  cases a.toNat? <;> simp

theorem add_sub_beq' (ha : a.isInvalid = false) : ((a.add b).sub a == b) = true := by
  rw [isInvalid_eq, Option.isNone_eq_false_iff, Option.isSome_iff_exists] at ha
  obtain ⟨n, ha⟩ := ha
  rw [beq_iff, toNat?_sub, toNat?_add, ha]
  cases b.toNat? <;> simp

theorem shiftLeft_shiftLeft_beq :
    ((a.shiftLeft m).shiftLeft n == a.shiftLeft (m + n)) = true := by
  rw [beq_iff]
  simp only [toNat?_shiftLeft]
  cases a.toNat? <;> simp [pow_add, Nat.mul_assoc]

theorem shiftWords_shiftWords_beq :
    ((a.shiftWords m).shiftWords n == a.shiftWords (m + n)) = true := by
  rw [beq_iff]
  simp only [toNat?_shiftWords]
  cases a.toNat? <;> simp [Nat.mul_add, pow_add, Nat.mul_assoc]

end Natural

namespace Expression

/-- An expression has the invalid value exactly where it has none over the natural numbers, and
stands for the same number elsewhere. What spelling its leaves have does not matter, and the laws
of arithmetic hold. -/
theorem eval_refines :
    (∀ e : Expression, e.eval.isInvalid = e.meaning.isNone ∧
      ∀ n, e.meaning = some n →
        ∑ i ∈ Finset.range e.eval.length, (e.eval.words.getD i 0).toNat * 2 ^ (32 * i) = n) ∧
    (∀ e e' : Expression, Respelled e e' → (e.eval == e'.eval) = true) ∧
    (∀ a b c : Natural, ∀ m n : Nat,
      (a.add b == b.add a) = true ∧
      ((a.add b).add c == a.add (b.add c)) = true ∧
      (a.mul b == b.mul a) = true ∧
      ((a.mul b).mul c == a.mul (b.mul c)) = true ∧
      (a.mul (b.add c) == (a.mul b).add (a.mul c)) = true ∧
      (b.isInvalid = false → ((a.add b).sub b == a) = true) ∧
      (a.isInvalid = false → ((a.add b).sub a == b) = true) ∧
      ((a.shiftLeft m).shiftLeft n == a.shiftLeft (m + n)) = true ∧
      ((a.shiftWords m).shiftWords n == a.shiftWords (m + n)) = true) := by
  refine ⟨?_, ?_, ?_⟩
  · intro e
    refine ⟨by rw [Natural.isInvalid_eq, toNat?_eval], ?_⟩
    intro n hn
    rw [← toNat?_eval] at hn
    exact (Words.value_eq_sum e.eval.words).symm.trans (Natural.value_words_of_toNat? hn)
  · intro e e' h
    rw [Natural.beq_iff, toNat?_eval, toNat?_eval, h.meaning_eq]
  · intro a b c m n
    exact ⟨a.add_comm_beq b, a.add_assoc_beq b c, a.mul_comm_beq b, a.mul_assoc_beq b c,
      a.mul_add_beq b c, a.add_sub_beq b, a.add_sub_beq' b, a.shiftLeft_shiftLeft_beq m n,
      a.shiftWords_shiftWords_beq m n⟩

/-- A difference keeps its value when its leaves lose or gain high zero words. -/
theorem eval_refines_sub_zeros :
    ((sub (leaf (.words [3, 5, 0])) (leaf (.words [4]))).eval ==
      (sub (leaf (.wide 0x500000003)) (leaf (.words ([4] ++ Words.zeros 3)))).eval) = true ∧
    (((Natural.ofWords [3]).add (.ofWords [1, 0])).sub (.ofWords [1, 0]) == .ofWords [3]) = true :=
  ⟨eval_refines.2.1 _ _ (.sub (.leaf (by decide)) (.leaf (Leaf.meaning_append_zeros [4] 3).symm)),
    (eval_refines.2.2 (.ofWords [3]) (.ofWords [1, 0]) .invalid 0 0).2.2.2.2.2.1 rfl⟩

end Expression

end LexCalc
