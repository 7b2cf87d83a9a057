import LexCalc.Proofs.Natural.Chain

/-! Sums and differences of word lists of any lengths. -/
namespace LexCalc.Words
variable {a b : Words}

@[simp] theorem length_align (a b : Words) : (align a b).length = a.length := by
  simp [align]
  omega

@[simp] theorem map_fst_align (a b : Words) : (align a b).map Prod.fst = a := by
  apply List.map_fst_zip
  simp
  omega

theorem map_snd_align (a b : Words) :
    (align a b).map Prod.snd = (b ++ zeros (a.length - b.length)).take a.length := by
  have hl : a.length ≤ (b ++ zeros (a.length - b.length)).length := by
    simp
    omega
  rw [align, List.zip_eq_zip_take_min, Nat.min_eq_left hl, List.take_length]
  apply List.map_snd_zip
  rw [List.length_take]
  exact Nat.min_le_left _ _

/-- Words past the places that a number fills are zero. -/
theorem value_take {n : Nat} (h : a.value < UInt32.size ^ n) : value (a.take n) = a.value := by
  by_cases hn : a.length ≤ n
  · rw [List.take_of_length_le hn]
  · have hs := value_append (a.take n) (a.drop n)
    rw [List.take_append_drop, List.length_take, Nat.min_eq_left (by omega)] at hs
    have hz : value (a.drop n) = 0 := by
      by_contra hne
      have hp := Nat.le_mul_of_pos_right (UInt32.size ^ n) (Nat.pos_of_ne_zero hne)
      omega
    rw [hs, hz, Nat.mul_zero, Nat.add_zero]

theorem value_map_snd_align (h : b.value < UInt32.size ^ a.length) :
    value ((align a b).map Prod.snd) = b.value := by
  rw [map_snd_align, value_take] <;> simp [h]

theorem length_formed_run_align (a b : Words) :
    (Chain.run Word.addCarry (align a b)).formed.length = a.length := by
  have hl : (Chain.run Word.addCarry (align a b)).words.length = (align a b).length :=
    Chain.length_words_run (align a b)
  rwa [Chain.words, List.length_reverse, length_align] at hl

theorem value_run_align_addCarry (h : b.length ≤ a.length) :
    (Chain.run Word.addCarry (align a b)).words.value +
        UInt32.size ^ a.length * (Chain.run Word.addCarry (align a b)).carry.toNat =
      a.value + b.value := by
  have hb : b.value < UInt32.size ^ a.length :=
    Nat.lt_of_lt_of_le (value_lt b) (Nat.pow_le_pow_right (by decide) h)
  have hv := Chain.value_run_addCarry (align a b)
  rwa [map_fst_align, value_map_snd_align hb, length_align] at hv

theorem value_addShorter (h : b.length ≤ a.length) :
    (addShorter a b).value = a.value + b.value := by
  have hv := value_run_align_addCarry h
  unfold addShorter
  dsimp only
  split
  · next hc => simpa [hc] using hv
  · rw [List.reverse_cons, value_concat, List.length_reverse, length_formed_run_align, ← hv,
      Chain.words]

theorem value_add (a b : Words) : (add a b).value = a.value + b.value := by
  unfold add
  split
  · next h => exact value_addShorter h
  · next h => rw [value_addShorter (by omega), Nat.add_comm]

@[simp] theorem length_sub (a b : Words) : (sub a b).length = a.length := by
  simp [sub]

theorem value_run_align_subBorrow (h : b.value ≤ a.value) :
    a.value + UInt32.size ^ a.length * (Chain.run Word.subBorrow (align a b)).carry.toNat =
      b.value + (Chain.run Word.subBorrow (align a b)).words.value := by
  have hb := Nat.lt_of_le_of_lt h (value_lt a)
  have hv := Chain.value_run_subBorrow (align a b)
  rwa [map_fst_align, value_map_snd_align hb, length_align] at hv

/-- Nothing is left to borrow above the minuend when the subtrahend is not larger. -/
theorem borrow_eq_zero (h : b.value ≤ a.value) :
    (Chain.run Word.subBorrow (align a b)).carry = 0 := by
  have hv := value_run_align_subBorrow h
  have hr := value_lt (Chain.run Word.subBorrow (align a b)).words
  rw [Chain.length_words_run, length_align] at hr
  by_contra hc
  have hp := Word.le_mul_toNat hc (UInt32.size ^ a.length)
  omega

theorem value_sub (h : b.value ≤ a.value) : (sub a b).value = a.value - b.value := by
  have hv := value_run_align_subBorrow h
  rw [borrow_eq_zero h] at hv
  simp only [UInt32.toNat_zero, Nat.mul_zero, Nat.add_zero] at hv
  rw [sub]
  omega

end LexCalc.Words
