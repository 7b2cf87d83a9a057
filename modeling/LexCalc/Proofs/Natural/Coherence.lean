import LexCalc.Proofs.Natural.Order

/-! Equality, order and hash tell the same values apart: numbers whatever their high zero words, and
what is marked, which is in order with no number. -/
namespace LexCalc.Flagged

/-- What callers can come by: the values that are given, and what is computed from such values. -/
inductive Built : Flagged → Prop
  | word (w : Word) : Built (ofWord w)
  | wide (n : UInt64) : Built (ofUInt64 n)
  | words (ws : Words) : Built (ofWords ws)
  | default : Built Inhabited.default
  | invalid : Built invalid
  | add {a b : Flagged} (ha : Built a) (hb : Built b) : Built (a.add b)
  | sub {a b : Flagged} (ha : Built a) (hb : Built b) : Built (a.sub b)
  | mul {a b : Flagged} (ha : Built a) (hb : Built b) : Built (a.mul b)
  | shiftLeft {a : Flagged} (n : Nat) (ha : Built a) : Built (a.shiftLeft n)
  | shiftWords {a : Flagged} (n : Nat) (ha : Built a) : Built (a.shiftWords n)
  | checkedSub {a b d : Flagged} (ha : Built a) (hb : Built b) (h : a.checkedSub b = .ok d) :
      Built d
  | toExcept {a d : Flagged} (ha : Built a) (h : a.toExcept = .ok d) : Built d

variable {a b : Flagged}

/-- No operation marks a value but by storing the one form of those that are marked. -/
theorem Built.canonical (h : Built a) : a.Canonical := by
  induction h with
  | word w => exact canonical_ofWords [w]
  | wide n => exact canonical_ofWords _
  | words ws => exact canonical_ofWords ws
  | default => exact canonical_default
  | invalid => exact canonical_invalid
  | add => exact canonical_add _ _
  | sub => exact canonical_sub _ _
  | mul => exact canonical_mul _ _
  | shiftLeft n => exact canonical_shiftLeft _ n
  | shiftWords n => exact canonical_shiftWords _ n
  | checkedSub _ _ h => exact canonical_checkedSub h
  | toExcept _ h ih => exact canonical_toExcept ih h

/-- Any words can be given, so nothing else is asked of what callers can come by. -/
theorem built_iff : Built a ↔ a.Canonical := by
  refine ⟨Built.canonical, ?_⟩
  intro h
  obtain ⟨ws, mark⟩ := a
  match mark with
  | false => exact .words ws
  | true =>
    have hw : ws = [0] := h rfl
    subst hw
    exact .invalid

/-- Values that are both marked or both not are in the order of what they store. The order of marked
ones does not look at their words, so this rests on their having the same. -/
theorem partialCmp_eq (ha : a.Canonical) (hb : b.Canonical) :
    a.partialCmp b =
      if a.isInvalid = b.isInvalid then some (compare a.words.value b.words.value) else none := by
  unfold partialCmp
  cases hma : a.isInvalid with
  | true =>
    cases hmb : b.isInvalid with
    | true => rw [ha hma, hb hmb, if_pos rfl, Nat.compare_eq_eq.mpr rfl]
    | false => rfl
  | false =>
    cases hmb : b.isInvalid with
    | true => rfl
    | false => exact congrArg some (Words.cmp_eq_compare a.words b.words)

/-- Equality asks for what a hash is taken of. -/
theorem beq_iff_hashKey : (a == b) = true ↔ a.hashKey = b.hashKey := by
  change ((a.hashKey == b.hashKey) = true) ↔ _
  exact beq_iff_eq

/-- Equal values are those of which neither is the larger one. -/
theorem hashKey_eq_iff (ha : a.Canonical) (hb : b.Canonical) :
    a.hashKey = b.hashKey ↔ a.partialCmp b = some .eq := by
  rw [hashKey, hashKey, Prod.mk.injEq, Words.trimmed_eq_iff, partialCmp_eq ha hb]
  split_ifs with h
  · simp [h]
  · simp [h]

/-- The comparisons of values that are in order are those of the natural numbers. -/
theorem compare_of_eq (ha : a.Canonical) (hb : b.Canonical) (h : a.isInvalid = b.isInvalid) :
    (a.lt b = true ↔ a.words.value < b.words.value) ∧
      (a.le b = true ↔ a.words.value ≤ b.words.value) ∧
      (a.gt b = true ↔ b.words.value < a.words.value) ∧
      (a.ge b = true ↔ b.words.value ≤ a.words.value) := by
  simp only [lt, le, gt, ge, partialCmp_eq ha hb, if_pos h, Option.any_some]
  refine ⟨?_, ?_, ?_, ?_⟩
  · exact Ordering.isLT_iff_eq_lt.trans Nat.compare_eq_lt
  · exact Nat.isLE_compare
  · exact Ordering.isGT_iff_eq_gt.trans Nat.compare_eq_gt
  · exact Nat.isGE_compare

/-- Where there is no order, every comparison fails. -/
theorem compare_of_none (h : a.partialCmp b = none) :
    a.lt b = false ∧ a.le b = false ∧ a.gt b = false ∧ a.ge b = false := by
  simp [lt, le, gt, ge, h]

theorem lt_ofWords (as bs : Words) : (ofWords as).lt (ofWords bs) = true ↔ as.value < bs.value :=
  (compare_of_eq (canonical_ofWords as) (canonical_ofWords bs) rfl).1

/-- Of all that callers can come by, what is marked is stored in one form. Two values are equal
exactly if neither is the larger one, and exactly if a hash is taken of the same data. Two numbers
are in the order of the natural numbers, a number and what is marked in none. -/
theorem eq_cmp_hash_coherent {a b : Flagged} (ha : Built a) (hb : Built b) :
    (a.isInvalid = true → a.words = [0]) ∧
    ((a == b) = true ↔ a.partialCmp b = some .eq) ∧
    ((a == b) = true ↔ (a.isInvalid, a.words.trimmed) = (b.isInvalid, b.words.trimmed)) ∧
    (a.isInvalid = false → b.isInvalid = false →
      a.partialCmp b = some (compare a.words.value b.words.value) ∧
        (a.lt b = true ↔ a.words.value < b.words.value) ∧
        (a.le b = true ↔ a.words.value ≤ b.words.value) ∧
        (a.gt b = true ↔ b.words.value < a.words.value) ∧
        (a.ge b = true ↔ b.words.value ≤ a.words.value)) ∧
    (a.isInvalid ≠ b.isInvalid →
      a.partialCmp b = none ∧ (a == b) = false ∧
        a.lt b = false ∧ a.le b = false ∧ a.gt b = false ∧ a.ge b = false) ∧
    (a.isInvalid = true → b.isInvalid = true → (a == b) = true) := by
  have hca := ha.canonical
  have hcb := hb.canonical
  have heq : (a == b) = true ↔ a.partialCmp b = some .eq :=
    beq_iff_hashKey.trans (hashKey_eq_iff hca hcb)
  refine ⟨hca, heq, beq_iff_hashKey, ?_, ?_, ?_⟩
  · intro hma hmb
    have h : a.isInvalid = b.isInvalid := hma.trans hmb.symm
    exact ⟨by rw [partialCmp_eq hca hcb, if_pos h], compare_of_eq hca hcb h⟩
  · intro h
    have hn : a.partialCmp b = none := by rw [partialCmp_eq hca hcb, if_neg h]
    refine ⟨hn, ?_, compare_of_none hn⟩
    rw [← Bool.not_eq_true, heq, hn]
    simp
  · intro hma hmb
    rw [heq, partialCmp_eq hca hcb, if_pos (hma.trans hmb.symm), hca hma, hcb hmb,
      Nat.compare_eq_eq.mpr rfl]

/-- A difference below zero and what is computed from one are equal, whatever words were computed
with. Zero words do not show in the order of numbers. -/
theorem eq_cmp_hash_coherent_shortfall :
    (((ofWord 1).sub (ofWords [2, 7])).isInvalid = true ∧
      ((ofWord 1).sub (ofWords [2, 7])).words = [0] ∧
      ((ofWord 1).sub (ofWords [2, 7]) == ((ofWord 5).sub (ofWord 6)).mul (ofWord 3)) = true) ∧
    ((ofWords [2, 0]).lt (ofWords [1, 1]) = true ↔ Words.value [2, 0] < Words.value [1, 1]) := by
  have hlow : Built ((ofWord 1).sub (ofWords [2, 7])) := .sub (.word 1) (.words [2, 7])
  have hmul : Built (((ofWord 5).sub (ofWord 6)).mul (ofWord 3)) :=
    .mul (.sub (.word 5) (.word 6)) (.word 3)
  have hm : ((ofWord 1).sub (ofWords [2, 7])).isInvalid = true := by decide
  refine ⟨⟨hm, (eq_cmp_hash_coherent hlow hmul).1 hm, ?_⟩, ?_⟩
  · exact (eq_cmp_hash_coherent hlow hmul).2.2.2.2.2 hm (by decide)
  · exact ((eq_cmp_hash_coherent (.words [2, 0]) (.words [1, 1])).2.2.2.1 rfl rfl).2.1

end LexCalc.Flagged
