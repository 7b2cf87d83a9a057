import LexCalc.Proofs.Natural.Value

/-! Word steps and chains keep the sum or difference of the words that they have passed. -/
namespace LexCalc
namespace Word
variable {a b c : Word}

/-- A word that is not zero counts at least once in its place. -/
theorem le_mul_toNat (h : a ≠ 0) (n : Nat) : n ≤ n * a.toNat :=
  Nat.le_mul_of_pos_right n (Nat.pos_of_ne_zero fun h0 => h (UInt32.toNat_inj.mp h0))

/-- The sum of three words does not wrap in 64 bits. -/
theorem toNat_wideSum (a b c : Word) :
    (a.toUInt64 + b.toUInt64 + c.toUInt64).toNat = a.toNat + b.toNat + c.toNat := by
  have ha := a.toNat_lt
  have hb := b.toNat_lt
  have hc := c.toNat_lt
  simp only [UInt64.toNat_add, UInt32.toNat_toUInt64]
  omega

theorem addCarry_value (a b c : Word) :
    (addCarry a b c).1.toNat + UInt32.size * (addCarry a b c).2.toNat =
      a.toNat + b.toNat + c.toNat := by
  have ha := a.toNat_lt
  have hb := b.toNat_lt
  have hc := c.toNat_lt
  simp only [addCarry, UInt64.toNat_toUInt32, UInt64.toNat_shiftRight, toNat_wideSum,
    UInt32.size, Nat.shiftRight_eq_div_pow, UInt64.reduceToNat, Nat.reduceMod, Nat.reducePow]
  omega

theorem addCarry_carry (h : c.toNat ≤ 1) : (addCarry a b c).2.toNat ≤ 1 := by
  have hv := addCarry_value a b c
  have ha := a.toNat_lt
  have hb := b.toNat_lt
  simp only [UInt32.size] at hv
  omega

/-- Lifted by the base, a minuend word is large enough for a subtrahend word and a borrow. -/
theorem toNat_wideDifference (a b : Word) (h : c.toNat ≤ 1) :
    (a.toUInt64 + 0x100000000 - b.toUInt64 - c.toUInt64).toNat =
      a.toNat + UInt32.size - b.toNat - c.toNat := by
  have ha := a.toNat_lt
  have hb := b.toNat_lt
  have hl : (a.toUInt64 + 0x100000000).toNat = a.toNat + UInt32.size := by
    simp only [UInt64.toNat_add, UInt32.toNat_toUInt64, UInt64.reduceToNat, UInt32.size]
    omega
  have hbl : b.toUInt64 ≤ a.toUInt64 + 0x100000000 := by
    rw [UInt64.le_iff_toNat_le, hl, UInt32.toNat_toUInt64, UInt32.size]
    omega
  have hcl : c.toUInt64 ≤ a.toUInt64 + 0x100000000 - b.toUInt64 := by
    rw [UInt64.le_iff_toNat_le, UInt64.toNat_sub_of_le _ _ hbl, hl, UInt32.toNat_toUInt64,
      UInt32.toNat_toUInt64, UInt32.size]
    omega
  rw [UInt64.toNat_sub_of_le _ _ hcl, UInt64.toNat_sub_of_le _ _ hbl, hl,
    UInt32.toNat_toUInt64, UInt32.toNat_toUInt64]

theorem subBorrow_borrow : (subBorrow a b c).2.toNat ≤ 1 := by
  unfold subBorrow
  dsimp only
  split <;> decide

theorem subBorrow_value (a b : Word) (h : c.toNat ≤ 1) :
    (subBorrow a b c).1.toNat + b.toNat + c.toNat =
      a.toNat + UInt32.size * (subBorrow a b c).2.toNat := by
  have ha := a.toNat_lt
  have hb := b.toNat_lt
  have hd := toNat_wideDifference a b h
  have hz : (a.toUInt64 + 0x100000000 - b.toUInt64 - c.toUInt64) >>> 32 = 0 ↔
      a.toNat + UInt32.size - b.toNat - c.toNat < UInt32.size := by
    rw [← UInt64.toNat_inj, UInt64.toNat_shiftRight, hd, Nat.shiftRight_eq_div_pow]
    simp
  simp only [subBorrow, UInt64.toNat_toUInt32, hd, hz, UInt32.size]
  split <;> simp <;> omega

end Word

namespace Words.Chain
variable {op : Word → Word → Word → Word × Word}

@[simp] theorem run_nil : run op [] = start := rfl

@[simp] theorem run_concat (ps : List (Word × Word)) (p : Word × Word) :
    run op (ps ++ [p]) = step op (run op ps) p := by
  simp [run]

@[simp] theorem words_start : start.words = [] := rfl

@[simp] theorem carry_start : start.carry = 0 := rfl

@[simp] theorem words_step (c : Chain) (p : Word × Word) :
    (step op c p).words = c.words ++ [(op p.1 p.2 c.carry).1] := by
  simp [step, words]

@[simp] theorem carry_step (c : Chain) (p : Word × Word) :
    (step op c p).carry = (op p.1 p.2 c.carry).2 := rfl

@[simp] theorem length_words_run (ps : List (Word × Word)) :
    (run op ps).words.length = ps.length := by
  induction ps using List.reverseRecOn with
  | nil => rfl
  | append_singleton ps p ih => simp [ih]

theorem carry_run_addCarry (ps : List (Word × Word)) :
    (run Word.addCarry ps).carry.toNat ≤ 1 := by
  induction ps using List.reverseRecOn with
  | nil => simp
  | append_singleton ps p ih =>
    rw [run_concat, carry_step]
    exact Word.addCarry_carry ih

/-- The words formed and the carry out hold the sum of both columns. -/
theorem value_run_addCarry (ps : List (Word × Word)) :
    (run Word.addCarry ps).words.value +
        UInt32.size ^ ps.length * (run Word.addCarry ps).carry.toNat =
      value (ps.map Prod.fst) + value (ps.map Prod.snd) := by
  induction ps using List.reverseRecOn with
  | nil => simp
  | append_singleton ps p ih =>
    have hs := Word.addCarry_value p.1 p.2 (run Word.addCarry ps).carry
    simp only [run_concat, words_step, carry_step, List.map_append, List.map_cons, List.map_nil,
      value_concat, length_words_run, List.length_map, List.length_append, List.length_singleton,
      pow_succ]
    calc _ = (run Word.addCarry ps).words.value + UInt32.size ^ ps.length *
          ((Word.addCarry p.1 p.2 (run Word.addCarry ps).carry).1.toNat +
            UInt32.size * (Word.addCarry p.1 p.2 (run Word.addCarry ps).carry).2.toNat) := by ring
      _ = (run Word.addCarry ps).words.value + UInt32.size ^ ps.length *
          (run Word.addCarry ps).carry.toNat +
            UInt32.size ^ ps.length * (p.1.toNat + p.2.toNat) := by rw [hs]; ring
      _ = _ := by rw [ih]; ring

theorem borrow_run_subBorrow (ps : List (Word × Word)) :
    (run Word.subBorrow ps).carry.toNat ≤ 1 := by
  induction ps using List.reverseRecOn with
  | nil => simp
  | append_singleton ps p ih =>
    rw [run_concat, carry_step]
    exact Word.subBorrow_borrow

/-- The words formed hold the difference of the columns, lifted by the borrow out. -/
theorem value_run_subBorrow (ps : List (Word × Word)) :
    value (ps.map Prod.fst) +
        UInt32.size ^ ps.length * (run Word.subBorrow ps).carry.toNat =
      value (ps.map Prod.snd) + (run Word.subBorrow ps).words.value := by
  induction ps using List.reverseRecOn with
  | nil => simp
  | append_singleton ps p ih =>
    have hs := Word.subBorrow_value p.1 p.2 (borrow_run_subBorrow ps)
    simp only [run_concat, words_step, carry_step, List.map_append, List.map_cons, List.map_nil,
      value_concat, length_words_run, List.length_map, List.length_append, List.length_singleton,
      pow_succ]
    calc _ = value (ps.map Prod.fst) + UInt32.size ^ ps.length * (p.1.toNat +
          UInt32.size * (Word.subBorrow p.1 p.2 (run Word.subBorrow ps).carry).2.toNat) := by ring
      _ = value (ps.map Prod.fst) + UInt32.size ^ ps.length *
          (run Word.subBorrow ps).carry.toNat + UInt32.size ^ ps.length * (p.2.toNat +
            (Word.subBorrow p.1 p.2 (run Word.subBorrow ps).carry).1.toNat) := by
        rw [← hs]; ring
      _ = _ := by rw [ih]; ring

end Words.Chain

end LexCalc
