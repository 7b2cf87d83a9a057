import LexCalc.Proofs.Natural.Product
import Mathlib.Data.Nat.Digits.Lemmas
import Mathlib.Order.Bounds.Basic

/-! Results word by word: the digits of their numbers in the base of words, with zeros above them up
to a length that the operands decide. -/
namespace LexCalc.Words
variable {a b c ws : Words} {k len m n : Nat} {places : List Nat}

/-- How many words a number takes. -/
def wordCount (n : Nat) : Nat := (Nat.digits UInt32.size n).length

/-- The digits of a number, least significant first, and zeros above them up to a length. -/
def Spells (ws : Words) (len n : Nat) : Prop :=
  wordCount n ≤ len ∧
    ws.map UInt32.toNat = Nat.digits UInt32.size n ++ List.replicate (len - wordCount n) 0

theorem size_pow (k : Nat) : UInt32.size ^ k = 2 ^ (32 * k) := (pow_mul 2 32 k).symm

theorem wordCount_le_iff : wordCount n ≤ k ↔ n < UInt32.size ^ k :=
  Nat.digits_length_le_iff (by decide) n

theorem lt_wordCount_iff : k < wordCount n ↔ UInt32.size ^ k ≤ n :=
  Nat.lt_digits_length_iff (by decide) n

theorem wordCount_mono (h : m ≤ n) : wordCount m ≤ wordCount n :=
  Nat.le_length_digits_le UInt32.size m n h

theorem wordCount_le_length (ws : Words) : wordCount ws.value ≤ ws.length :=
  wordCount_le_iff.mpr (value_lt ws)

theorem trimmedLength_eq_zero (h : ws.value = 0) : ws.trimmedLength = 0 := by
  rw [trimmedLength_eq, trimmed_eq_nil.mpr h, List.length_nil]

/-- A number takes its significant words. -/
theorem wordCount_value (ws : Words) : wordCount ws.value = ws.trimmedLength := by
  have hle : wordCount ws.value ≤ ws.trimmedLength :=
    wordCount_le_iff.mpr (value_lt_pow_trimmedLength ws)
  by_cases h : ws.value = 0
  · have ht := trimmedLength_eq_zero h
    omega
  · have hlt : ws.trimmedLength - 1 < wordCount ws.value := lt_wordCount_iff.mpr (pow_le_value h)
    omega

theorem trimmedLength_le_iff : ws.trimmedLength ≤ k ↔ ws.value < 2 ^ (32 * k) := by
  rw [← wordCount_value, wordCount_le_iff, size_pow]

/-- Significant words are as few as can hold the number. -/
theorem isLeast_trimmedLength (ws : Words) :
    IsLeast {i | ws.value < 2 ^ (32 * i)} ws.trimmedLength :=
  ⟨trimmedLength_le_iff.mp le_rfl, fun _ hk => trimmedLength_le_iff.mpr hk⟩

theorem value_eq_ofDigits (ws : Words) :
    ws.value = Nat.ofDigits UInt32.size (ws.map UInt32.toNat) := by
  induction ws with
  | nil => rfl
  | cons w ws ih => rw [value_cons, ih, List.map_cons, Nat.ofDigits_cons]

/-- The words are known by how many they are and the number that they stand for. -/
theorem spells_iff : ws.Spells len n ↔ ws.length = len ∧ ws.value = n := by
  constructor
  · rintro ⟨hle, hw⟩
    have hl := congrArg List.length hw
    simp only [List.length_map, List.length_append, List.length_replicate] at hl
    change ws.length = wordCount n + (len - wordCount n) at hl
    refine ⟨by omega, ?_⟩
    rw [value_eq_ofDigits, hw, Nat.ofDigits_append_replicate_zero, Nat.ofDigits_digits]
  · rintro ⟨rfl, rfl⟩
    have hle := wordCount_le_length ws
    refine ⟨hle, ?_⟩
    -- Lists of digits with one length and one value are the same.
    apply Nat.ofDigits_inj_of_len_eq (by decide : 1 < UInt32.size)
    · rw [List.length_map, List.length_append, List.length_replicate]
      change ws.length = wordCount ws.value + (ws.length - wordCount ws.value)
      omega
    · intro d hd
      obtain ⟨w, -, rfl⟩ := List.mem_map.mp hd
      exact w.toNat_lt
    · intro d hd
      rcases List.mem_append.mp hd with hd | hd
      · exact Nat.digits_lt_base (by decide) hd
      · rw [List.eq_of_mem_replicate hd]
        decide
    · rw [← value_eq_ofDigits, Nat.ofDigits_append_replicate_zero, Nat.ofDigits_digits]

/-! ### Sums -/

/-- A carry out reaches the place above the top word. -/
theorem pow_le_add_of_carry (h : b.length ≤ a.length)
    (hc : (Chain.run Word.addCarry (align a b)).carry ≠ 0) :
    UInt32.size ^ a.length ≤ a.value + b.value := by
  have hv := value_run_align_addCarry h
  have hp := Word.le_mul_toNat hc (UInt32.size ^ a.length)
  omega

theorem length_addShorter (h : b.length ≤ a.length) :
    (addShorter a b).length = max a.length (wordCount (a.value + b.value)) := by
  have hw := wordCount_le_length (addShorter a b)
  rw [value_addShorter h] at hw
  have hf := length_formed_run_align a b
  by_cases hc : (Chain.run Word.addCarry (align a b)).carry = 0
  · have hl : (addShorter a b).length = a.length := by
      simp [addShorter, hc, Chain.words, hf]
    omega
  · have hl : (addShorter a b).length = a.length + 1 := by
      simp [addShorter, hc, hf]
    have hlt := lt_wordCount_iff.mpr (pow_le_add_of_carry h hc)
    omega

/-- A sum has the words of the longer operand, and one more only if it takes one more. -/
theorem length_add (a b : Words) :
    (add a b).length = max (max a.length b.length) (wordCount (a.value + b.value)) := by
  unfold add
  split
  · next h => rw [length_addShorter h, Nat.max_eq_left h]
  · next h =>
    have hle : a.length ≤ b.length := Nat.le_of_not_le h
    rw [length_addShorter hle, Nat.max_eq_right hle, Nat.add_comm]

/-- The order of the operands shows neither in the number nor in how many words it has. -/
protected theorem add_comm (a b : Words) : add a b = add b a := by
  apply eq_of_value_eq
  · rw [length_add, length_add, Nat.max_comm b.length, Nat.add_comm b.value]
  · rw [value_add, value_add, Nat.add_comm]

/-- No sum needs two words more than the longer operand has. -/
theorem wordCount_add_le (a b : Words) :
    wordCount (a.value + b.value) ≤ max a.length b.length + 1 := by
  have ha : a.value < UInt32.size ^ max a.length b.length :=
    Nat.lt_of_lt_of_le (value_lt a) (Nat.pow_le_pow_right (by decide) (Nat.le_max_left _ _))
  have hb : b.value < UInt32.size ^ max a.length b.length :=
    Nat.lt_of_lt_of_le (value_lt b) (Nat.pow_le_pow_right (by decide) (Nat.le_max_right _ _))
  rw [wordCount_le_iff, Nat.pow_succ, Nat.mul_comm]
  generalize UInt32.size ^ max a.length b.length = p at ha hb
  simp only [UInt32.size]
  omega

/-- A word is appended only to a sum that the longer operand has no room for. -/
theorem length_add_eq (a b : Words) :
    (add a b).length =
      if a.value + b.value < UInt32.size ^ max a.length b.length then max a.length b.length
      else max a.length b.length + 1 := by
  have hle := wordCount_add_le a b
  rw [length_add]
  split_ifs with h
  · exact Nat.max_eq_left (wordCount_le_iff.mpr h)
  · have hlt := lt_wordCount_iff.mpr (Nat.le_of_not_lt h)
    omega

/-! ### Shifts -/

/-- Bits that spill reach the place above the top word. -/
theorem pow_le_mul_of_carry {s : Nat} (hs : s < 32) (hc : (Chain.shift s ws).carry ≠ 0) :
    UInt32.size ^ ws.length ≤ ws.value * 2 ^ s := by
  have hv := Chain.value_shift ws hs
  have hp := Word.le_mul_toNat hc (UInt32.size ^ ws.length)
  omega

/-- A shift adds whole words, and one more only if bits spill into it. -/
theorem length_shiftLeft (ws : Words) (n : Nat) :
    (ws.shiftLeft n).length = max (ws.length + n / 32) (wordCount (ws.value * 2 ^ n)) := by
  have hs : n % 32 < 32 := Nat.mod_lt n (by decide)
  have hm : (ws.shiftWords (n / 32)).length = ws.length + n / 32 := by
    rw [length_shiftWords, Nat.add_comm]
  have hl : (Chain.shift (n % 32) (ws.shiftWords (n / 32))).words.length = ws.length + n / 32 := by
    rw [Chain.length_words_shift, hm]
  have hw := wordCount_le_length (ws.shiftLeft n)
  have hv := value_shiftLeft ws n
  rw [hv] at hw
  rw [shiftLeft_eq] at hv hw ⊢
  split_ifs at hv hw ⊢ with hc
  · omega
  · have hlt := lt_wordCount_iff.mpr (pow_le_mul_of_carry hs hc)
    rw [value_shiftWords_mul, hm] at hlt
    rw [value_add] at hv
    rw [length_add, hv, hl, length_shiftWords, hm, List.length_singleton]
    omega

/-! ### Products -/

theorem mem_setBits_zipIdx (ws : Words) :
    n ∈ ((ws.zipIdx k).flatMap fun (w, i) => w.setBits.map (32 * i + ·)) ↔
      32 * k ≤ n ∧ ws.value.testBit (n - 32 * k) = true := by
  -- The first word holds the 32 lowest bits, so the words after it count from the next place.
  induction ws generalizing k with
  | nil => simp
  | cons w ws ih =>
    have hw : w.toNat < 2 ^ 32 := w.toNat_lt
    have hv : value (w :: ws) = 2 ^ 32 * value ws + w.toNat := Nat.add_comm _ _
    rw [List.zipIdx_cons, List.flatMap_cons, List.mem_append, ih, hv,
      Nat.testBit_two_pow_mul_add _ hw]
    simp only [Word.setBits, List.mem_map, List.mem_filter, List.mem_range]
    constructor
    · rintro (⟨j, ⟨hj, hb⟩, rfl⟩ | ⟨hk, hb⟩)
      · refine ⟨Nat.le_add_right _ _, ?_⟩
        rw [Nat.add_sub_cancel_left, if_pos hj]
        exact hb
      · refine ⟨by omega, ?_⟩
        rw [if_neg (by omega), Nat.sub_sub]
        exact hb
    · rintro ⟨hk, hb⟩
      split_ifs at hb with hj
      · exact .inl ⟨n - 32 * k, ⟨hj, hb⟩, by omega⟩
      · rw [Nat.sub_sub] at hb
        exact .inr ⟨by omega, hb⟩

/-- The places of the bits that are set in the number. -/
theorem mem_setBits : n ∈ ws.setBits ↔ ws.value.testBit n = true := by
  have h := mem_setBits_zipIdx (k := 0) (n := n) ws
  simpa [setBits] using h

/-- No bit is set above the significant words. -/
theorem div_lt_trimmedLength (h : n ∈ ws.setBits) : n / 32 < ws.trimmedLength := by
  have hb : 2 ^ n ≤ ws.value := Nat.ge_two_pow_of_testBit (mem_setBits.mp h)
  have hv := value_lt_pow_trimmedLength ws
  rw [size_pow] at hv
  have hlt : n < 32 * ws.trimmedLength :=
    (Nat.pow_lt_pow_iff_right Nat.one_lt_two).mp (Nat.lt_of_le_of_lt hb hv)
  omega

/-- The highest bit that is set is in the top significant word. -/
theorem exists_mem_setBits (h : ws.value ≠ 0) :
    ∃ n ∈ ws.setBits, ws.trimmedLength - 1 ≤ n / 32 := by
  refine ⟨ws.value.log2, mem_setBits.mpr (Nat.testBit_log2 h), ?_⟩
  have hv := pow_le_value h
  rw [size_pow, ← Nat.le_log2 h] at hv
  omega

/-- What is added up never loses words, and has those of each copy. -/
theorem le_length_foldl (b c : Words) (places : List Nat) :
    c.length ≤ (places.foldl (fun sum n => add sum (b.shiftLeft n)) c).length ∧
      ∀ n ∈ places,
        b.length + n / 32 ≤ (places.foldl (fun sum n => add sum (b.shiftLeft n)) c).length := by
  induction places generalizing c with
  | nil => simp
  | cons m places ih =>
    obtain ⟨hc, hp⟩ := ih (add c (b.shiftLeft m))
    rw [length_add, length_shiftLeft] at hc
    rw [List.foldl_cons]
    refine ⟨by omega, ?_⟩
    intro n hn
    rcases List.mem_cons.mp hn with rfl | hn
    · omega
    · exact hp n hn

/-- Words are added only as the copies, or the number that they add up to, need them. -/
theorem length_foldl_le (hc : c.length ≤ len) (hp : ∀ n ∈ places, b.length + n / 32 ≤ len) :
    (places.foldl (fun sum n => add sum (b.shiftLeft n)) c).length ≤
      max len (wordCount (c.value + powerSum places * b.value)) := by
  induction places generalizing c len with
  | nil => exact le_max_of_le_left hc
  | cons m places ih =>
    have hm := hp m List.mem_cons_self
    have hv : c.value + powerSum (m :: places) * b.value =
        c.value + b.value * 2 ^ m + powerSum places * b.value := by
      rw [powerSum_cons]
      ring
    have hcopy : wordCount (b.value * 2 ^ m) ≤ wordCount (c.value + b.value * 2 ^ m) :=
      wordCount_mono (Nat.le_add_left _ _)
    have hsum : wordCount (c.value + b.value * 2 ^ m) ≤
        wordCount (c.value + powerSum (m :: places) * b.value) := by
      rw [hv]
      exact wordCount_mono (Nat.le_add_right _ _)
    -- The bound grows with the sum so far, which the whole sum takes words for too.
    have hcs : (add c (b.shiftLeft m)).length ≤
        max len (wordCount (c.value + b.value * 2 ^ m)) := by
      rw [length_add, length_shiftLeft, value_shiftLeft]
      omega
    have hps : ∀ n ∈ places,
        b.length + n / 32 ≤ max len (wordCount (c.value + b.value * 2 ^ m)) := by
      intro n hn
      exact le_max_of_le_left (hp n (List.mem_cons_of_mem _ hn))
    have hi := ih hcs hps
    rw [value_add, value_shiftLeft, ← hv] at hi
    rw [List.foldl_cons]
    omega

/-- A product has the words of the copy that is shifted furthest, and one more only if it takes one
more. -/
theorem length_mul (a b : Words) :
    (mul a b).length =
      if a.value = 0 then 0
      else max (b.length + a.trimmedLength - 1) (wordCount (a.value * b.value)) := by
  have hw := wordCount_le_length (mul a b)
  rw [value_mul] at hw
  split_ifs with h
  · have hn : a.setBits = [] := by
      rw [List.eq_nil_iff_forall_not_mem]
      intro n hn
      have hb := mem_setBits.mp hn
      rw [h, Nat.zero_testBit] at hb
      cases hb
    rw [mul, hn]
    rfl
  · obtain ⟨top, ht, hdiv⟩ := exists_mem_setBits h
    have hlt := div_lt_trimmedLength ht
    have hge : b.length + top / 32 ≤ (mul a b).length := (le_length_foldl b [] a.setBits).2 top ht
    have hle : (mul a b).length ≤
        max (b.length + a.trimmedLength - 1) (wordCount (a.value * b.value)) := by
      have hp : ∀ n ∈ a.setBits, b.length + n / 32 ≤ b.length + a.trimmedLength - 1 := by
        intro n hn
        have hlt := div_lt_trimmedLength hn
        omega
      have hl := length_foldl_le (c := []) (Nat.zero_le _) hp
      rwa [powerSum_setBits, value_nil, Nat.zero_add] at hl
    omega

end LexCalc.Words
