import LexCalc.Proofs.Natural.Sum

/-! A left shift multiplies by a power of two, word by word. -/
namespace LexCalc

namespace Word
variable {c w : Word} {s : Nat}

theorem toNat_kept (w : Word) (hs : s < 32) :
    (kept s w).toNat = 2 ^ s * (w.toNat % 2 ^ (32 - s)) := by
  have hp : 2 ^ 32 = 2 ^ s * 2 ^ (32 - s) := by
    rw [← pow_add]
    congr 1
    omega
  rw [kept, UInt32.toNat_shiftLeft, UInt32.toNat_ofNat_of_lt' (by simp only [UInt32.size]; omega),
    Nat.mod_eq_of_lt hs, Nat.shiftLeft_eq, hp, mul_comm, Nat.mul_mod_mul_left]

theorem toNat_spilled (w : Word) (hs : s < 32) :
    (spilled s w).toNat = w.toNat / 2 ^ (32 - s) := by
  unfold spilled
  split
  · next h =>
    subst s
    exact (Nat.div_eq_of_lt w.toNat_lt).symm
  · rw [UInt32.toNat_shiftRight, UInt32.toNat_ofNat_of_lt' (by simp only [UInt32.size]; omega),
      Nat.mod_eq_of_lt (by omega), Nat.shiftRight_eq_div_pow]

theorem spilled_lt (w : Word) (hs : s < 32) : (spilled s w).toNat < 2 ^ s := by
  have hp : 2 ^ s * 2 ^ (32 - s) = 2 ^ 32 := by
    rw [← pow_add]
    congr 1
    omega
  rw [toNat_spilled w hs, Nat.div_lt_iff_lt_mul (Nat.two_pow_pos _), hp]
  exact w.toNat_lt

/-- Bits that come in from below fill the places that the word's own bits have left. -/
theorem kept_or_value (w : Word) (hs : s < 32) (hc : c.toNat < 2 ^ s) :
    (kept s w ||| c).toNat + UInt32.size * (spilled s w).toNat = w.toNat * 2 ^ s + c.toNat := by
  have hp : UInt32.size = 2 ^ s * 2 ^ (32 - s) := by
    rw [← pow_add, show s + (32 - s) = 32 by omega]
    rfl
  rw [UInt32.toNat_or, toNat_kept w hs, toNat_spilled w hs, ← Nat.two_pow_add_eq_or_of_lt hc, hp]
  calc _ = 2 ^ s * (w.toNat % 2 ^ (32 - s) + 2 ^ (32 - s) * (w.toNat / 2 ^ (32 - s))) + c.toNat := by
        ring
    _ = _ := by rw [Nat.mod_add_div, mul_comm]

end Word

namespace Words
variable {s : Nat}

theorem value_shiftWords (ws : Words) (n : Nat) :
    (ws.shiftWords n).value = ws.value * 2 ^ (32 * n) := by
  rw [shiftWords, value_append, value_zeros, length_zeros, Nat.zero_add, pow_mul, mul_comm]
  rfl

/-- Shifting by whole words and by the bits that are left is shifting by all of them. -/
theorem value_shiftWords_mul (ws : Words) (n : Nat) :
    (ws.shiftWords (n / 32)).value * 2 ^ (n % 32) = ws.value * 2 ^ n := by
  rw [value_shiftWords, mul_assoc, ← pow_add, Nat.div_add_mod]

@[simp] theorem length_shiftWords (ws : Words) (n : Nat) :
    (ws.shiftWords n).length = n + ws.length := by
  simp [shiftWords]

namespace Chain

/-- The chain that shifts all words by fewer than 32 bits. -/
def shift (s : Nat) (ws : Words) : Chain := ws.foldl (shiftStep s) start

@[simp] theorem shift_nil : shift s [] = start := rfl

@[simp] theorem shift_concat (ws : Words) (w : Word) :
    shift s (ws ++ [w]) = shiftStep s (shift s ws) w := by
  simp [shift]

@[simp] theorem words_shiftStep (c : Chain) (w : Word) :
    (shiftStep s c w).words = c.words ++ [Word.kept s w ||| c.carry] := by
  simp [shiftStep, words]

@[simp] theorem carry_shiftStep (c : Chain) (w : Word) :
    (shiftStep s c w).carry = Word.spilled s w := rfl

@[simp] theorem length_words_shift (ws : Words) : (shift s ws).words.length = ws.length := by
  induction ws using List.reverseRecOn with
  | nil => rfl
  | append_singleton ws w ih => simp [ih]

theorem carry_shift_lt (ws : Words) (hs : s < 32) : (shift s ws).carry.toNat < 2 ^ s := by
  induction ws using List.reverseRecOn with
  | nil => simp
  | append_singleton ws w ih =>
    rw [shift_concat, carry_shiftStep]
    exact Word.spilled_lt w hs

/-- The words formed and the bits spilled past them hold the shifted number. -/
theorem value_shift (ws : Words) (hs : s < 32) :
    (shift s ws).words.value + UInt32.size ^ ws.length * (shift s ws).carry.toNat =
      ws.value * 2 ^ s := by
  induction ws using List.reverseRecOn with
  | nil => simp
  | append_singleton ws w ih =>
    have hw := Word.kept_or_value w hs (carry_shift_lt ws hs)
    simp only [shift_concat, words_shiftStep, carry_shiftStep, value_concat, length_words_shift,
      List.length_append, List.length_singleton, pow_succ]
    calc _ = (shift s ws).words.value + UInt32.size ^ ws.length *
          ((Word.kept s w ||| (shift s ws).carry).toNat +
            UInt32.size * (Word.spilled s w).toNat) := by ring
      _ = (shift s ws).words.value + UInt32.size ^ ws.length * (shift s ws).carry.toNat +
          UInt32.size ^ ws.length * (w.toNat * 2 ^ s) := by rw [hw]; ring
      _ = _ := by rw [ih]; ring

end Chain

/-- Multiplies by `2 ^ n`: whole words first, then the bits that are left. Bits that spill past
the top word are added in the place above it. -/
def shiftLeft (ws : Words) (n : Nat) : Words :=
  let moved := ws.shiftWords (n / 32)
  let c := moved.foldl (Chain.shiftStep (n % 32)) .start
  if c.carry = 0 then c.words else add c.words (shiftWords [c.carry] moved.length)

theorem shiftLeft_eq (ws : Words) (n : Nat) :
    ws.shiftLeft n =
      if (Chain.shift (n % 32) (ws.shiftWords (n / 32))).carry = 0 then
        (Chain.shift (n % 32) (ws.shiftWords (n / 32))).words
      else add (Chain.shift (n % 32) (ws.shiftWords (n / 32))).words
        (shiftWords [(Chain.shift (n % 32) (ws.shiftWords (n / 32))).carry]
          (ws.shiftWords (n / 32)).length) := rfl

theorem value_shiftLeft (ws : Words) (n : Nat) : (ws.shiftLeft n).value = ws.value * 2 ^ n := by
  have hv := Chain.value_shift (ws.shiftWords (n / 32)) (Nat.mod_lt n (by decide : 0 < 32))
  rw [value_shiftWords_mul] at hv
  rw [shiftLeft_eq]
  split
  · next hc => simpa [hc] using hv
  · rw [value_add, value_shiftWords, ← hv, pow_mul]
    simp [mul_comm]

end Words

theorem Flagged.shiftLeft_ofWords (ws : Words) (n : Nat) :
    (Flagged.ofWords ws).shiftLeft n = .ofWords (ws.shiftLeft n) := by
  rw [Words.shiftLeft, apply_ite Flagged.ofWords]
  rfl

theorem Natural.shiftLeft_ofWords (ws : Words) (n : Nat) :
    (ofWords ws).shiftLeft n = ofWords (ws.shiftLeft n) :=
  eq_of_toFlagged (Flagged.shiftLeft_ofWords ws n)

end LexCalc
