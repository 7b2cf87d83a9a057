import LexCalc.Proofs.Natural.Shift

/-! A number is the sum of the powers of two at its set bits, so shifted copies add up to the
product. -/
namespace LexCalc

/-- The powers of two at some places, added up. -/
def powerSum (places : List Nat) : Nat := (places.map (2 ^ ·)).sum

@[simp] theorem powerSum_nil : powerSum [] = 0 := rfl

@[simp] theorem powerSum_cons (n : Nat) (ns : List Nat) :
    powerSum (n :: ns) = 2 ^ n + powerSum ns := by
  simp [powerSum]

@[simp] theorem powerSum_append (ms ns : List Nat) :
    powerSum (ms ++ ns) = powerSum ms + powerSum ns := by
  simp [powerSum]

theorem powerSum_map_add (k : Nat) (ns : List Nat) :
    powerSum (ns.map (k + ·)) = 2 ^ k * powerSum ns := by
  induction ns with
  | nil => rfl
  | cons n ns ih =>
    rw [List.map_cons, powerSum_cons, powerSum_cons, ih, pow_add]
    ring

/-- The bits set below place `k` make up the number below `2 ^ k`. -/
theorem powerSum_testBit (n k : Nat) :
    powerSum ((List.range k).filter n.testBit) = n % 2 ^ k := by
  induction k with
  | zero => simp [Nat.mod_one]
  | succ k ih =>
    rw [List.range_succ, List.filter_append, powerSum_append, ih, Nat.mod_pow_succ,
      ← Nat.toNat_testBit]
    cases h : n.testBit k <;> simp [h]

theorem Word.powerSum_setBits (w : Word) : powerSum w.setBits = w.toNat := by
  rw [setBits, powerSum_testBit, Nat.mod_eq_of_lt w.toNat_lt]

namespace Words

theorem powerSum_setBits_zipIdx (ws : Words) (k : Nat) :
    powerSum ((ws.zipIdx k).flatMap fun (w, i) => w.setBits.map (32 * i + ·)) =
      2 ^ (32 * k) * ws.value := by
  induction ws generalizing k with
  | nil => rfl
  | cons w ws ih =>
    have hp : 2 ^ (32 * (k + 1)) = 2 ^ (32 * k) * UInt32.size := by
      rw [Nat.mul_succ, pow_add]
      rfl
    rw [List.zipIdx_cons, List.flatMap_cons, powerSum_append, powerSum_map_add,
      Word.powerSum_setBits, ih, hp, value_cons]
    ring

theorem powerSum_setBits (ws : Words) : powerSum ws.setBits = ws.value := by
  rw [setBits, powerSum_setBits_zipIdx]
  simp

/-- Shift-and-add over any places, from any sum formed before. -/
theorem value_foldl_add_shiftLeft (b c : Words) (places : List Nat) :
    (places.foldl (fun sum n => add sum (b.shiftLeft n)) c).value =
      c.value + powerSum places * b.value := by
  induction places generalizing c with
  | nil => simp
  | cons n places ih =>
    rw [List.foldl_cons, ih, value_add, value_shiftLeft, powerSum_cons]
    ring

/-- The product as a sum of shifted copies of `b`, one for each bit of `a` that is set. -/
def mul (a b : Words) : Words :=
  a.setBits.foldl (fun sum n => add sum (b.shiftLeft n)) []

theorem value_mul (a b : Words) : (mul a b).value = a.value * b.value := by
  rw [mul, value_foldl_add_shiftLeft, powerSum_setBits, value_nil, Nat.zero_add]

end Words

/-- The loop of a product goes through values that are marked like the sum it starts from. -/
theorem Flagged.foldl_add_ofWords (b : Words) (ns : List Nat) (sum : Words) :
    ns.foldl (fun sum n => sum.add ((ofWords b).shiftLeft n)) (ofWords sum) =
      ofWords (ns.foldl (fun sum n => sum.add (b.shiftLeft n)) sum) := by
  induction ns generalizing sum with
  | nil => rfl
  | cons n ns ih =>
    rw [List.foldl_cons, List.foldl_cons, shiftLeft_ofWords]
    exact ih _

theorem Flagged.mul_ofWords (as bs : Words) : (ofWords as).mul (ofWords bs) = ofWords (as.mul bs) :=
  foldl_add_ofWords bs as.setBits []

theorem Natural.mul_ofWords (as bs : Words) : (ofWords as).mul (ofWords bs) = ofWords (as.mul bs) :=
  eq_of_toFlagged (Flagged.mul_ofWords as bs)

end LexCalc
