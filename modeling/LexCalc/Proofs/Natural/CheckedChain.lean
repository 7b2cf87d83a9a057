import LexCalc.Proofs.Natural.CountReader
import LexCalc.Proofs.Natural.Digits

/-! Sums and differences formed with a check at every 64-bit step, of every carry and borrow, and
behind the last place. No check fails, and after each place the words formed hold what was passed. -/
namespace LexCalc
namespace Word
variable {a b c : Word}

/-- The difference, unless it is below zero. -/
def minus? (m n : UInt64) : Option UInt64 := if n.toNat ≤ m.toNat then some (m - n) else none

/-- `a + b + carry`, unless a sum takes more than 64 bits. -/
def wideSum? (a b carry : Word) : Option UInt64 := do
  BitCount.add? (← BitCount.add? a.toUInt64 b.toUInt64) carry.toUInt64

/-- `a + 2 ^ 32 - b - borrow`, unless the sum takes more than 64 bits or a difference is below
zero. -/
def wideDifference? (a b borrow : Word) : Option UInt64 := do
  minus? (← minus? (← BitCount.add? a.toUInt64 0x100000000) b.toUInt64) borrow.toUInt64

def addCarry? (a b carry : Word) : Option (Word × Word) := do
  let sum ← wideSum? a b carry
  return (sum.toUInt32, (sum >>> 32).toUInt32)

def subBorrow? (a b borrow : Word) : Option (Word × Word) := do
  let diff ← wideDifference? a b borrow
  return (diff.toUInt32, if diff >>> 32 = 0 then 1 else 0)

theorem wideSum?_eq (a b c : Word) :
    wideSum? a b c = some (a.toUInt64 + b.toUInt64 + c.toUInt64) := by
  have ha := a.toNat_lt
  have hb := b.toNat_lt
  have hc := c.toNat_lt
  have hab : (a.toUInt64 + b.toUInt64).toNat = a.toNat + b.toNat := by
    simpa using toNat_wideSum a b 0
  have h1 : BitCount.add? a.toUInt64 b.toUInt64 = some (a.toUInt64 + b.toUInt64) := by
    apply if_pos
    rw [UInt32.toNat_toUInt64, UInt32.toNat_toUInt64, UInt64.size]
    omega
  have h2 : BitCount.add? (a.toUInt64 + b.toUInt64) c.toUInt64 =
      some (a.toUInt64 + b.toUInt64 + c.toUInt64) := by
    apply if_pos
    rw [hab, UInt32.toNat_toUInt64, UInt64.size]
    omega
  rw [wideSum?, h1, Option.bind_eq_bind, Option.bind_some, h2]

theorem wideDifference?_eq (a b : Word) (h : c.toNat ≤ 1) :
    wideDifference? a b c = some (a.toUInt64 + 0x100000000 - b.toUInt64 - c.toUInt64) := by
  have ha := a.toNat_lt
  have hb := b.toNat_lt
  have hl : (a.toUInt64 + 0x100000000).toNat = a.toNat + UInt32.size := by
    simpa using toNat_wideDifference (c := 0) a 0 (by decide)
  have hbl : (a.toUInt64 + 0x100000000 - b.toUInt64).toNat = a.toNat + UInt32.size - b.toNat := by
    simpa using toNat_wideDifference (c := 0) a b (by decide)
  have hlift : (0x100000000 : UInt64).toNat = UInt32.size := rfl
  have h1 : BitCount.add? a.toUInt64 0x100000000 = some (a.toUInt64 + 0x100000000) := by
    apply if_pos
    rw [UInt32.toNat_toUInt64, hlift, UInt32.size, UInt64.size]
    omega
  have h2 : minus? (a.toUInt64 + 0x100000000) b.toUInt64 =
      some (a.toUInt64 + 0x100000000 - b.toUInt64) := by
    apply if_pos
    rw [hl, UInt32.toNat_toUInt64, UInt32.size]
    omega
  have h3 : minus? (a.toUInt64 + 0x100000000 - b.toUInt64) c.toUInt64 =
      some (a.toUInt64 + 0x100000000 - b.toUInt64 - c.toUInt64) := by
    apply if_pos
    rw [hbl, UInt32.toNat_toUInt64, UInt32.size]
    omega
  rw [wideDifference?, h1, Option.bind_eq_bind, Option.bind_some, h2, Option.bind_some, h3]

theorem addCarry?_eq (a b c : Word) : addCarry? a b c = some (addCarry a b c) := by
  rw [addCarry?, wideSum?_eq]
  rfl

theorem subBorrow?_eq (a b : Word) (h : c.toNat ≤ 1) :
    subBorrow? a b c = some (subBorrow a b c) := by
  rw [subBorrow?, wideDifference?_eq a b h]
  rfl

theorem eq_zero_or_eq_one (h : c.toNat ≤ 1) : c = 0 ∨ c = 1 := by
  simp only [← UInt32.toNat_inj, UInt32.toNat_zero, UInt32.toNat_one]
  omega

end Word

namespace Words
variable {a b longer shorter : Words} {k : Nat}

namespace Chain
variable {op : Word → Word → Word → Word × Word} {op? : Word → Word → Word → Option (Word × Word)}

/-- One place of a chain, refused where `op?` refuses it or what goes in or out is not a bit. -/
def step? (op? : Word → Word → Word → Option (Word × Word)) (c : Chain) (place : Word × Word) :
    Option Chain := do
  guard (c.carry.toNat ≤ 1)
  let r ← op? place.1 place.2 c.carry
  guard (r.2.toNat ≤ 1)
  return ⟨r.1 :: c.formed, r.2⟩

def run? (op? : Word → Word → Word → Option (Word × Word)) (places : List (Word × Word)) :
    Option Chain :=
  places.foldlM (step? op?) start

theorem step?_eq {c : Chain} {p : Word × Word} (hc : c.carry.toNat ≤ 1)
    (ho : op? p.1 p.2 c.carry = some (op p.1 p.2 c.carry))
    (hs : (step op c p).carry.toNat ≤ 1) : step? op? c p = some (step op c p) := by
  rw [carry_step] at hs
  simp [step?, hc, ho, hs, guard, step]

/-- No place is refused if every carry is a bit and no operation on a bit is refused. -/
theorem run?_eq (hr : ∀ ps, (run op ps).carry.toNat ≤ 1)
    (ho : ∀ a b c : Word, c.toNat ≤ 1 → op? a b c = some (op a b c)) (ps : List (Word × Word)) :
    run? op? ps = some (run op ps) := by
  induction ps using List.reverseRecOn with
  | nil => rfl
  | append_singleton ps p ih =>
    have hs := hr (ps ++ [p])
    rw [run_concat] at hs
    rw [run?] at ih ⊢
    rw [List.foldlM_append, ih, run_concat, ← step?_eq (hr ps) (ho _ _ _ (hr ps)) hs]
    simp

theorem run?_addCarry? (ps : List (Word × Word)) :
    run? Word.addCarry? ps = some (run Word.addCarry ps) :=
  run?_eq carry_run_addCarry (fun a b c _ => Word.addCarry?_eq a b c) ps

theorem run?_subBorrow? (ps : List (Word × Word)) :
    run? Word.subBorrow? ps = some (run Word.subBorrow ps) :=
  run?_eq borrow_run_subBorrow (fun a b _ => Word.subBorrow?_eq a b) ps

end Chain

/-- The places of a sum: first those that both numbers have, then those of the longer one alone. -/
def sumPlaces (longer shorter : Words) : List (Word × Word) :=
  longer.zip shorter ++ (longer.drop shorter.length).map (·, 0)

/-- The places of a difference: each word of `a` and the word of `b` found under its index, or
zero. -/
def differencePlaces (a b : Words) : List (Word × Word) :=
  a.zipIdx.map fun (w, i) => (w, b[i]?.getD 0)

/-- The sum with all checks. -/
def add? (a b : Words) : Option Words := do
  let (longer, shorter) := if b.length ≤ a.length then (a, b) else (b, a)
  let c ← Chain.run? Word.addCarry? (sumPlaces longer shorter)
  return if c.carry = 0 then c.words else (c.carry :: c.formed).reverse

/-- The difference with all checks, also that nothing is left to borrow. -/
def sub? (a b : Words) : Option Words := do
  let c ← Chain.run? Word.subBorrow? (differencePlaces a b)
  guard (c.carry = 0)
  return c.words

theorem getElem?_align (a b : Words) (i : Nat) :
    (align a b)[i]? = a[i]?.map fun w => (w, b[i]?.getD 0) := by
  rw [align, List.zip_eq_zipWith, List.getElem?_zipWith]
  cases ha : a[i]? with
  | none => rfl
  | some w =>
    obtain ⟨hi, -⟩ := List.getElem?_eq_some_iff.mp ha
    rcases Nat.lt_or_ge i b.length with hb | hb
    · rw [List.getElem?_append_left hb, List.getElem?_eq_getElem hb]
      rfl
    · have hz : (zeros (a.length - b.length))[i - b.length]? = some 0 := by
        rw [zeros, List.getElem?_replicate, if_pos (by omega)]
      rw [List.getElem?_append_right hb, hz, List.getElem?_eq_none hb]
      rfl

/-- Both loops of a sum go through the places of the longer number. -/
theorem sumPlaces_eq (h : shorter.length ≤ longer.length) :
    sumPlaces longer shorter = align longer shorter := by
  apply List.ext_getElem?
  intro i
  have hl : (longer.zip shorter).length = shorter.length := by
    rw [List.length_zip, Nat.min_eq_right h]
  rw [getElem?_align, sumPlaces]
  rcases Nat.lt_or_ge i shorter.length with hi | hi
  · have ha : i < longer.length := Nat.lt_of_lt_of_le hi h
    rw [List.getElem?_append_left (hl.symm ▸ hi)]
    simp [ha, hi]
  · rw [List.getElem?_append_right (hl.symm ▸ hi), hl, List.getElem?_map, List.getElem?_drop,
      Nat.add_sub_cancel' hi, List.getElem?_eq_none hi]
    rfl

theorem differencePlaces_eq (a b : Words) : differencePlaces a b = align a b := by
  apply List.ext_getElem?
  intro i
  rw [getElem?_align, differencePlaces, List.getElem?_map, List.getElem?_zipIdx, Option.map_map,
    Nat.zero_add]
  rfl

/-- No check of a sum fails. -/
theorem add?_eq (a b : Words) : a.add? b = some (a.add b) := by
  by_cases h : b.length ≤ a.length
  · rw [add?, add, if_pos h, if_pos h]
    dsimp only
    rw [sumPlaces_eq h, Chain.run?_addCarry?]
    rfl
  · rw [add?, add, if_neg h, if_neg h]
    dsimp only
    rw [sumPlaces_eq (Nat.le_of_not_le h), Chain.run?_addCarry?]
    rfl

/-- No check of a difference fails if the number taken away is not the larger one. -/
theorem sub?_eq (h : b.value ≤ a.value) : a.sub? b = some (a.sub b) := by
  rw [sub?, differencePlaces_eq, Chain.run?_subBorrow?]
  simp [guard, borrow_eq_zero h, sub]

theorem map_fst_take_align (a b : Words) (k : Nat) :
    ((align a b).take k).map Prod.fst = a.take k := by
  rw [List.map_take, map_fst_align]

/-- The zeros in place of missing words do not show in the number of the low words. -/
theorem value_map_snd_take_align (hk : k ≤ a.length) :
    value (((align a b).take k).map Prod.snd) = value (b.take k) := by
  rw [List.map_take, map_snd_align, List.take_take, Nat.min_eq_left hk, List.take_append, zeros,
    List.take_replicate]
  exact value_append_zeros _ _

theorem length_take_align (hk : k ≤ a.length) : ((align a b).take k).length = k := by
  rw [List.length_take, length_align, Nat.min_eq_left hk]

/-- What an addition holds after `k` places. -/
theorem value_run_take_addCarry (hk : k ≤ a.length) :
    value (a.take k) + value (b.take k) =
      (Chain.run Word.addCarry ((align a b).take k)).words.value +
        (Chain.run Word.addCarry ((align a b).take k)).carry.toNat * 2 ^ (32 * k) := by
  have hv := Chain.value_run_addCarry ((align a b).take k)
  rw [map_fst_take_align, value_map_snd_take_align hk, length_take_align hk, size_pow,
    Nat.mul_comm] at hv
  exact hv.symm

/-- What a subtraction holds after `k` places. -/
theorem value_run_take_subBorrow (hk : k ≤ a.length) :
    value (a.take k) +
        (Chain.run Word.subBorrow ((align a b).take k)).carry.toNat * 2 ^ (32 * k) =
      value (b.take k) + (Chain.run Word.subBorrow ((align a b).take k)).words.value := by
  have hv := Chain.value_run_subBorrow ((align a b).take k)
  rwa [map_fst_take_align, value_map_snd_take_align hk, length_take_align hk, size_pow,
    Nat.mul_comm] at hv

/-- No step of a sum or a difference leaves its range: with a bit coming in, the 64-bit sums and
differences are the exact ones and a bit goes out. After `k` places the words formed and the carry
hold the sum of the low words, and the words formed and those taken away make up the low words and
the borrow. So the operations with all checks give what those without give. -/
theorem chains_in_range :
    (∀ a b c : Word, c.toNat ≤ 1 →
      (Word.wideSum? a b c).map UInt64.toNat = some (a.toNat + b.toNat + c.toNat) ∧
      (Word.wideDifference? a b c).map UInt64.toNat =
        some (a.toNat + 2 ^ 32 - b.toNat - c.toNat) ∧
      b.toNat + c.toNat ≤ a.toNat + 2 ^ 32) ∧
    (∀ longer shorter : Words, shorter.length ≤ longer.length → ∀ k ≤ longer.length,
      let c := Chain.run Word.addCarry ((align longer shorter).take k)
      Chain.run? Word.addCarry? ((sumPlaces longer shorter).take k) = some c ∧
      (c.carry = 0 ∨ c.carry = 1) ∧ c.words.length = k ∧
      value (longer.take k) + value (shorter.take k) =
        c.words.value + c.carry.toNat * 2 ^ (32 * k)) ∧
    (∀ a b : Words, ∀ k ≤ a.length,
      let c := Chain.run Word.subBorrow ((align a b).take k)
      Chain.run? Word.subBorrow? ((differencePlaces a b).take k) = some c ∧
      (c.carry = 0 ∨ c.carry = 1) ∧ c.words.length = k ∧
      value (a.take k) + c.carry.toNat * 2 ^ (32 * k) = value (b.take k) + c.words.value) ∧
    (∀ a b : Words, a.add? b = some (a.add b)) ∧
    ∀ a b : Words, b.value ≤ a.value → a.sub? b = some (a.sub b) := by
  refine ⟨?_, ?_, ?_, add?_eq, fun a b => sub?_eq⟩
  · intro a b c hc
    have hb := b.toNat_lt
    rw [Word.wideSum?_eq, Word.wideDifference?_eq a b hc]
    refine ⟨congrArg some (Word.toNat_wideSum a b c), ?_, by omega⟩
    exact congrArg some (Word.toNat_wideDifference a b hc)
  · intro longer shorter h k hk
    refine ⟨?_, ?_, ?_, value_run_take_addCarry hk⟩
    · rw [sumPlaces_eq h, Chain.run?_addCarry?]
    · exact Word.eq_zero_or_eq_one (Chain.carry_run_addCarry _)
    · rw [Chain.length_words_run, length_take_align hk]
  · intro a b k hk
    refine ⟨?_, ?_, ?_, value_run_take_subBorrow hk⟩
    · rw [differencePlaces_eq, Chain.run?_subBorrow?]
    · exact Word.eq_zero_or_eq_one (Chain.borrow_run_subBorrow _)
    · rw [Chain.length_words_run, length_take_align hk]

/-- A borrow and a carry go through words that are all ones, and through zeros. -/
theorem chains_in_range_ones :
    (Word.wideDifference? 0 0xffffffff 1).map UInt64.toNat = some (0 + 2 ^ 32 - 0xffffffff - 1) ∧
    (Chain.run Word.addCarry ((align [0xffffffff, 0xffffffff] [1]).take 2)).carry = 1 ∧
    Chain.run? Word.addCarry? ((sumPlaces [0xffffffff, 0xffffffff] [1]).take 2) =
      some (Chain.run Word.addCarry ((align [0xffffffff, 0xffffffff] [1]).take 2)) ∧
    (Chain.run Word.subBorrow ((align [0, 0, 1] [1]).take 2)).carry = 1 ∧
    Chain.run? Word.subBorrow? ((differencePlaces [0, 0, 1] [1]).take 2) =
      some (Chain.run Word.subBorrow ((align [0, 0, 1] [1]).take 2)) ∧
    sub? [0, 0, 1] [1] = some (sub [0, 0, 1] [1]) := by
  refine ⟨(chains_in_range.1 0 0xffffffff 1 (by decide)).2.1, by decide, ?_, by decide, ?_, ?_⟩
  · exact (chains_in_range.2.1 [0xffffffff, 0xffffffff] [1] (by decide) 2 (by decide)).1
  · exact (chains_in_range.2.2.1 [0, 0, 1] [1] 2 (by decide)).1
  · exact chains_in_range.2.2.2.2 [0, 0, 1] [1] (by decide)

end Words
end LexCalc
