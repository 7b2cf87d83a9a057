import LexCalc.Proofs.Natural.Digits
import LexCalc.Proofs.Natural.Expression
import Mathlib.Data.Nat.Size

/-! How many words and bits a number takes, and how many its shifts, products and sums take. -/
namespace LexCalc
variable {k m n : Nat}

/-! ### Bits of natural numbers -/

theorem natSize_eq_succ (hl : 2 ^ k ≤ n) (hu : n < 2 ^ (k + 1)) : n.size = k + 1 :=
  Nat.le_antisymm (Nat.size_le.mpr hu) (Nat.lt_size.mpr hl)

/-- A number that is not zero is between two powers of two. -/
theorem exists_natSize_eq (h : n ≠ 0) : ∃ k, n.size = k + 1 ∧ 2 ^ k ≤ n ∧ n < 2 ^ (k + 1) := by
  have hl := Nat.log2_self_le h
  have hu : n < 2 ^ (n.log2 + 1) := Nat.lt_log2_self
  exact ⟨n.log2, natSize_eq_succ hl hu, hl, hu⟩

/-- Bits below a place leave the highest one where it is. -/
theorem natSize_add_mul (hm : m < 2 ^ k) (hn : n ≠ 0) : (m + 2 ^ k * n).size = k + n.size := by
  obtain ⟨j, hj, hl, hu⟩ := exists_natSize_eq hn
  rw [hj]
  apply natSize_eq_succ
  · calc 2 ^ (k + j) = 2 ^ k * 2 ^ j := pow_add 2 k j
      _ ≤ 2 ^ k * n := Nat.mul_le_mul_left _ hl
      _ ≤ m + 2 ^ k * n := Nat.le_add_left _ _
  · calc m + 2 ^ k * n < 2 ^ k * (n + 1) := by rw [Nat.mul_succ]; omega
      _ ≤ 2 ^ k * 2 ^ (j + 1) := Nat.mul_le_mul_left _ hu
      _ = 2 ^ (k + j + 1) := by rw [← pow_add, Nat.add_assoc]

/-- A product takes the bits of both factors, or one fewer. -/
theorem natSize_mul (hm : m ≠ 0) (hn : n ≠ 0) :
    (m * n).size = m.size + n.size ∨ (m * n).size + 1 = m.size + n.size := by
  obtain ⟨i, hi, hil, hiu⟩ := exists_natSize_eq hm
  obtain ⟨j, hj, hjl, hju⟩ := exists_natSize_eq hn
  have hl : i + j < (m * n).size := by
    rw [Nat.lt_size, pow_add]
    exact Nat.mul_le_mul hil hjl
  have hu : (m * n).size ≤ i + 1 + (j + 1) := by
    rw [Nat.size_le, pow_add]
    exact Nat.mul_lt_mul'' hiu hju
  omega

/-- A sum takes the bits of the larger number, or one more. -/
theorem natSize_add (m n : Nat) :
    (m + n).size = max m.size n.size ∨ (m + n).size = max m.size n.size + 1 := by
  have hm : m.size ≤ (m + n).size := Nat.size_le_size (Nat.le_add_right m n)
  have hn : n.size ≤ (m + n).size := Nat.size_le_size (Nat.le_add_left n m)
  have hu : (m + n).size ≤ max m.size n.size + 1 := by
    have hmu : m < 2 ^ max m.size n.size := Nat.size_le.mp (Nat.le_max_left _ _)
    have hnu : n < 2 ^ max m.size n.size := Nat.size_le.mp (Nat.le_max_right _ _)
    rw [Nat.size_le, pow_succ]
    omega
  omega

/-! ### Bits of words -/

namespace Word

theorem bitLength_eq_size (w : Word) : w.bitLength = w.toNat.size := by
  unfold bitLength
  split
  · next h =>
    subst h
    rfl
  · next h =>
    have hw : w.toNat ≠ 0 := fun h0 => h (UInt32.toNat_inj.mp h0)
    exact (natSize_eq_succ (Nat.log2_self_le hw) Nat.lt_log2_self).symm

/-- The zeros above the highest bit are what is left of the word. -/
theorem bitLength_eq_sub_clz (w : Word) : w.bitLength = 32 - w.toBitVec.clz.toNat := by
  have hu : w.toNat < 2 ^ (32 - w.toBitVec.clz.toNat) := BitVec.toNat_lt_two_pow_sub_clz
  rw [bitLength_eq_size]
  apply Nat.le_antisymm (Nat.size_le.mpr hu)
  by_cases hw : w.toBitVec = 0#32
  · rw [hw]
    exact Nat.zero_le _
  · have hl : 2 ^ (31 - w.toBitVec.clz.toNat) ≤ w.toNat :=
      BitVec.two_pow_sub_clz_le_toNat_of_ne_zero (by decide) hw
    have hlt := Nat.lt_size.mpr hl
    omega

end Word

namespace Words
variable {ws as bs : Words}

/-- A number that is not zero has a top word, with nothing but zeros above it. -/
theorem exists_leading (h : ws.value ≠ 0) :
    ∃ low top n, ws = low ++ top :: zeros n ∧ top ≠ 0 ∧ ws.leading = top :: low.reverse := by
  cases hl : ws.leading with
  | nil =>
    have ht : ws.trimmed = [] := by rw [trimmed, hl, List.reverse_nil]
    exact absurd (trimmed_eq_nil.mp ht) h
  | cons top rest =>
    have ht : top ≠ 0 := by
      have hd := List.head?_dropWhile_not (· == (0 : Word)) ws.reverse
      rw [← leading, hl] at hd
      simpa using hd
    have hw : ws.reverse.takeWhile (· == 0) ++ top :: rest = ws.reverse := by
      rw [← hl, leading, List.takeWhile_append_dropWhile]
    have hz : ∀ w ∈ ws.reverse.takeWhile (· == 0), w = 0 := by
      intro w hw
      exact beq_iff_eq.mp (List.all_eq_true.mp List.all_takeWhile w hw)
    generalize ws.reverse.takeWhile (· == 0) = high at hw hz
    refine ⟨rest.reverse, top, high.length, ?_, ht, ?_⟩
    · rw [← List.reverse_reverse ws, ← hw, List.eq_replicate_of_mem hz]
      simp [zeros]
    · rw [List.reverse_reverse]

/-- The highest bit of the top word is that of the number. -/
theorem bitLength_eq_size (ws : Words) : ws.bitLength = ws.value.size := by
  by_cases h : ws.value = 0
  · have hl : ws.leading = [] := List.length_eq_zero_iff.mp (trimmedLength_eq_zero h)
    rw [bitLength, hl, h]
    rfl
  · obtain ⟨low, top, n, rfl, ht, hl⟩ := exists_leading h
    have hn : top.toNat ≠ 0 := fun h0 => ht (UInt32.toNat_inj.mp h0)
    have hlow : low.value < 2 ^ (32 * low.length) := by
      rw [← size_pow]
      exact value_lt low
    rw [value_append, value_cons, value_zeros, Nat.mul_zero, Nat.add_zero, size_pow,
      natSize_add_mul hlow hn, bitLength, hl]
    dsimp only
    rw [Word.bitLength_eq_size, List.length_reverse]

theorem isLeast_bitLength (ws : Words) : IsLeast {k | ws.value < 2 ^ k} ws.bitLength := by
  rw [bitLength_eq_size]
  exact ⟨Nat.lt_size_self _, fun k hk => Nat.size_le.mpr hk⟩

/-- The words that the bits fill, with the last of them counted when it is not full. -/
theorem trimmedLength_eq_div (ws : Words) : ws.trimmedLength = (ws.bitLength + 31) / 32 := by
  apply eq_of_forall_ge_iff
  intro k
  rw [trimmedLength_le_iff, ← Nat.size_le, ← bitLength_eq_size]
  omega

/-- A number that is not zero begins in its top word, at the highest bit of that. -/
theorem exists_top (h : ws.value ≠ 0) :
    ∃ low top n, ws = low ++ top :: zeros n ∧ top ≠ 0 ∧ ws.trimmedLength = low.length + 1 ∧
      ws.bitLength = 32 * low.length + (32 - top.toBitVec.clz.toNat) := by
  obtain ⟨low, top, n, hw, ht, hl⟩ := exists_leading h
  refine ⟨low, top, n, hw, ht, ?_, ?_⟩
  · rw [trimmedLength, hl, List.length_cons, List.length_reverse]
  · rw [bitLength, hl]
    dsimp only
    rw [Word.bitLength_eq_sub_clz, List.length_reverse]

theorem bitLength_shiftLeft (h : ws.value ≠ 0) (n : Nat) :
    (ws.shiftLeft n).bitLength = ws.bitLength + n := by
  rw [bitLength_eq_size, bitLength_eq_size, value_shiftLeft, ← Nat.shiftLeft_eq,
    Nat.size_shiftLeft h]

theorem bitLength_mul (ha : as.value ≠ 0) (hb : bs.value ≠ 0) :
    (as.mul bs).bitLength = as.bitLength + bs.bitLength ∨
      (as.mul bs).bitLength + 1 = as.bitLength + bs.bitLength := by
  simp only [bitLength_eq_size, value_mul]
  exact natSize_mul ha hb

theorem bitLength_add (as bs : Words) :
    (as.add bs).bitLength = max as.bitLength bs.bitLength ∨
      (as.add bs).bitLength = max as.bitLength bs.bitLength + 1 := by
  simp only [bitLength_eq_size, value_add]
  exact natSize_add _ _

theorem trimmedLength_append_zeros (ws : Words) (n : Nat) :
    (ws ++ zeros n).trimmedLength = ws.trimmedLength := by
  rw [← wordCount_value, ← wordCount_value, value_append_zeros]

theorem bitLength_append_zeros (ws : Words) (n : Nat) :
    (ws ++ zeros n).bitLength = ws.bitLength := by
  rw [bitLength_eq_size, bitLength_eq_size, value_append_zeros]

end Words

namespace Natural

theorem isZero_iff {a : Natural} : a.isZero = true ↔ a.toNat? = some 0 := by
  cases a with
  | invalid => simp [Flagged.isZero]
  | ofWords ws =>
    have hz : ws.trimmedLength = 0 ↔ ws.value = 0 := by
      rw [Words.trimmedLength_eq, List.length_eq_zero_iff, Words.trimmed_eq_nil]
    simp [Flagged.isZero, Flagged.trimmedLength, hz]

/-- Both lengths are the least that hold the number, which in bits is between two powers of two,
and high zero words show in neither. The bits of a number that is not zero are those below its top
word and those of the top word without the zeros above its highest bit. A shift adds as many bits as
it shifts by, a product has the bits of both factors or one fewer, a sum those of the larger number
or one more. -/
theorem lengths_exact :
    (∀ a : Natural,
      IsLeast {k | a.words.value < 2 ^ (32 * k)} a.trimmedLength ∧
      IsLeast {k | a.words.value < 2 ^ k} a.bitLength ∧
      (a.words.value = 0 → a.bitLength = 0) ∧
      (a.words.value ≠ 0 →
        (2 ^ (a.bitLength - 1) ≤ a.words.value ∧ a.words.value < 2 ^ a.bitLength) ∧
        ∃ low top n, a.words = low ++ top :: Words.zeros n ∧ top ≠ 0 ∧
          a.trimmedLength = low.length + 1 ∧
          a.bitLength = 32 * low.length + (32 - top.toBitVec.clz.toNat)) ∧
      a.trimmedLength = (a.bitLength + 31) / 32 ∧ a.trimmedLength ≤ a.length ∧
      (a.isZero = true ↔ a.toNat? = some 0)) ∧
    (∀ (ws : Words) (n : Nat),
      (ofWords (ws ++ Words.zeros n)).trimmedLength = (ofWords ws).trimmedLength ∧
      (ofWords (ws ++ Words.zeros n)).bitLength = (ofWords ws).bitLength) ∧
    ∀ (a b : Natural) (v w n : Nat), a.toNat? = some v → v ≠ 0 → b.toNat? = some w → w ≠ 0 →
      (a.shiftLeft n).bitLength = a.bitLength + n ∧
      ((a.mul b).bitLength = a.bitLength + b.bitLength ∨
        (a.mul b).bitLength + 1 = a.bitLength + b.bitLength) ∧
      ((a.add b).bitLength = max a.bitLength b.bitLength ∨
        (a.add b).bitLength = max a.bitLength b.bitLength + 1) := by
  refine ⟨?_, ?_, ?_⟩
  · intro a
    have hb : a.bitLength = a.words.value.size := Words.bitLength_eq_size a.words
    refine ⟨Words.isLeast_trimmedLength a.words, Words.isLeast_bitLength a.words, ?_, ?_,
      Words.trimmedLength_eq_div a.words, Words.trimmedLength_le a.words, isZero_iff⟩
    · intro h
      rw [hb, h, Nat.size_zero]
    · intro h
      obtain ⟨k, hk, hl, hu⟩ := exists_natSize_eq h
      refine ⟨?_, Words.exists_top h⟩
      rw [hb, hk]
      exact ⟨hl, hu⟩
  · intro ws n
    exact ⟨Words.trimmedLength_append_zeros ws n, Words.bitLength_append_zeros ws n⟩
  · intro a b v w n ha hv hb hw
    cases a with
    | invalid => cases ha
    | ofWords as =>
      cases b with
      | invalid => cases hb
      | ofWords bs =>
        cases ha
        cases hb
        rw [shiftLeft_ofWords, mul_ofWords]
        exact ⟨Words.bitLength_shiftLeft hv n, Words.bitLength_mul hv hw,
          Words.bitLength_add as bs⟩

/-- The lengths of a number with one bit in its top word and a zero word above that, and those of
zero words alone. -/
theorem lengths_exact_padded :
    (ofWords [0, 0]).words.value = 0 ∧ (ofWords [0, 0]).bitLength = 0 ∧
    (ofWords [7, 1, 0]).words.value ≠ 0 ∧
    (∃ low top n, [7, 1, 0] = low ++ top :: Words.zeros n ∧ top ≠ 0 ∧
      (ofWords [7, 1, 0]).trimmedLength = low.length + 1 ∧
      (ofWords [7, 1, 0]).bitLength = 32 * low.length + (32 - top.toBitVec.clz.toNat)) ∧
    (ofWords [0xffffffff]).toNat? = some 0xffffffff ∧
    ((ofWords [7, 1, 0]).shiftLeft 31).bitLength = 33 + 31 ∧
    (((ofWords [7, 1, 0]).mul (ofWords [0xffffffff])).bitLength = 33 + 32 ∨
      ((ofWords [7, 1, 0]).mul (ofWords [0xffffffff])).bitLength + 1 = 33 + 32) ∧
    (((ofWords [7, 1, 0]).add (ofWords [0xffffffff])).bitLength = max 33 32 ∨
      ((ofWords [7, 1, 0]).add (ofWords [0xffffffff])).bitLength = max 33 32 + 1) := by
  have h0 : (ofWords [0, 0]).words.value = 0 := by decide
  have hv : (ofWords [7, 1, 0]).words.value ≠ 0 := by decide
  have hzero := (lengths_exact.1 (ofWords [0, 0])).2.2.1 h0
  have htop := ((lengths_exact.1 (ofWords [7, 1, 0])).2.2.2.1 hv).2
  refine ⟨h0, hzero, hv, htop, rfl, ?_⟩
  exact lengths_exact.2.2 (ofWords [7, 1, 0]) (ofWords [0xffffffff]) _ _ 31 rfl hv rfl (by decide)

end Natural

end LexCalc
