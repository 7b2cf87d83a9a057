import LexCalc.Proofs.Natural.Coherence
import LexCalc.Proofs.Natural.Digits
import LexCalc.Proofs.Natural.Expression

/-! What sums, products and differences are, to the word: their values, how many words they have, and
when there is none. -/
namespace LexCalc.Natural
variable {a b d : Natural} {as bs : Words} {j k : Nat}

/-- Both are numbers, and the first is the smaller one. -/
def Below (a b : Natural) : Prop := ∃ m n, a.toNat? = some m ∧ b.toNat? = some n ∧ m < n

theorem below_ofWords : (ofWords as).Below (ofWords bs) ↔ as.value < bs.value := by
  constructor
  · rintro ⟨m, n, hm, hn, h⟩
    cases hm
    cases hn
    exact h
  · intro h
    exact ⟨as.value, bs.value, rfl, rfl, h⟩

theorem not_below_of_isInvalid (h : a.isInvalid = true ∨ b.isInvalid = true) : ¬ a.Below b := by
  rintro ⟨m, n, hm, hn, -⟩
  rw [isInvalid_eq, isInvalid_eq, hm, hn] at h
  simp at h

/-! ### Sums -/

theorem add_comm_words (a b : Natural) : (a.add b).words = (b.add a).words := by
  cases a with
  | invalid => cases b <;> rfl
  | ofWords as =>
    cases b with
    | invalid => rfl
    | ofWords bs => exact Words.add_comm as bs

/-- A sum of numbers is a number, and its words are the digits of the sum: as many as the longer
operand has, and one more exactly if the sum does not fit into these. The order of the operands does
not show in any word. -/
theorem add_spells :
    (∀ as bs : Words, ∃ ws, (ofWords as).add (ofWords bs) = ofWords ws ∧
      ws.Spells (max (max as.length bs.length) (Words.wordCount (as.value + bs.value)))
        (as.value + bs.value) ∧
      ws.length =
        if as.value + bs.value < UInt32.size ^ max as.length bs.length
        then max as.length bs.length else max as.length bs.length + 1) ∧
    ∀ a b : Natural, (a.add b).words = (b.add a).words := by
  refine ⟨?_, add_comm_words⟩
  intro as bs
  refine ⟨Words.add as bs, rfl, ?_, Words.length_add_eq as bs⟩
  exact Words.spells_iff.mpr ⟨Words.length_add as bs, Words.value_add as bs⟩

/-- A carry passes through words that are all ones above the shorter operand. -/
example : (ofWords [1]).add (ofWords [0xffffffff, 0xffffffff]) = ofWords [0, 0, 1] := rfl

/-! ### Products -/

theorem mul_of_isInvalid (h : a.isInvalid = true ∨ b.isInvalid = true) : a.mul b = invalid := by
  cases a with
  | invalid => rfl
  | ofWords as =>
    cases b with
    | invalid => rfl
    | ofWords bs => rcases h with h | h <;> cases h

/-- A product of numbers is a number, and its words are the digits of the product: none if the first
number is zero, else those of the second one moved to the top word of the first, or as many as the
product takes. The order of the numbers does not show in the value, but it does in the words. -/
theorem mul_spells :
    (∀ as bs : Words, ∃ ws, (ofWords as).mul (ofWords bs) = ofWords ws ∧
      ws.Spells
        (if as.value = 0 then 0
          else max (bs.length + as.trimmedLength - 1) (Words.wordCount (as.value * bs.value)))
        (as.value * bs.value)) ∧
    (∀ a b : Natural, (a.mul b == b.mul a) = true) ∧
    (∃ a b : Natural, (a.mul b).length ≠ (b.mul a).length) ∧
    ∀ a b : Natural, a.isInvalid = true ∨ b.isInvalid = true → a.mul b = invalid := by
  refine ⟨?_, mul_comm_beq, ?_, fun a b => mul_of_isInvalid⟩
  · intro as bs
    refine ⟨Words.mul as bs, mul_ofWords as bs, ?_⟩
    exact Words.spells_iff.mpr ⟨Words.length_mul as bs, Words.value_mul as bs⟩
  · exact ⟨ofWords [1], ofWords [1, 0], by decide⟩

/-- A zero word above the first number adds nothing to the product, one above the second does. -/
theorem mul_spells_padded :
    (∃ ws, (ofWords [2, 0]).mul (ofWords [3, 0]) = ofWords ws ∧
      ws.Spells 2 (Words.value [2, 0] * Words.value [3, 0])) ∧
    invalid.isInvalid = true ∧ (ofWords [3]).mul invalid = invalid :=
  ⟨mul_spells.1 [2, 0] [3, 0], rfl, mul_spells.2.2.2 (ofWords [3]) invalid (.inr rfl)⟩

/-! ### Differences -/

/-- What is logged where the second number is the larger one. -/
def shortfall (a b : Natural) : Log.Line :=
  .warn ("bigint subtraction creates a negative number " ++
    s!"({a.trimmedLength} words - {b.trimmedLength} words)")

/-- All that a subtraction and its checked form can come to. -/
theorem sub_cases (a b : Natural) :
    ((a.isInvalid = true ∨ b.isInvalid = true) ∧ a.sub b = invalid ∧ a.subLog b = [] ∧
      a.checkedSub b = .error .invalidValue) ∨
    (a.Below b ∧ a.sub b = invalid ∧ a.subLog b = [a.shortfall b] ∧
      a.checkedSub b = .error (.negativeDifference a.trimmedLength b.trimmedLength)) ∨
    (∃ as bs, a = ofWords as ∧ b = ofWords bs ∧ bs.value ≤ as.value ∧
      a.sub b = ofWords (as.sub bs) ∧ a.subLog b = [] ∧ a.checkedSub b = .ok (a.sub b)) := by
  cases a with
  | invalid => exact .inl ⟨.inl rfl, rfl, rfl, rfl⟩
  | ofWords as =>
    cases b with
    | invalid => exact .inl ⟨.inr rfl, rfl, rfl, rfl⟩
    | ofWords bs =>
      rcases Nat.lt_or_ge as.value bs.value with h | h
      · have hl : (Flagged.ofWords as).lt (.ofWords bs) = true := (Flagged.lt_ofWords as bs).mpr h
        refine .inr (.inl ⟨below_ofWords.mpr h, ?_, if_pos hl, ?_⟩)
        · rw [sub_ofWords, if_pos h]
        · rw [checkedSub_ofWords, if_pos h]
          rfl
      · have hn : ¬ as.value < bs.value := Nat.not_lt.mpr h
        have hl := mt (Flagged.lt_ofWords as bs).mp hn
        refine .inr (.inr ⟨as, bs, rfl, rfl, h, ?_, if_neg hl, ?_⟩)
        · rw [sub_ofWords, if_neg hn]
        · rw [checkedSub_ofWords, if_neg hn]

theorem sub_eq_invalid_iff :
    a.sub b = invalid ↔ a.isInvalid = true ∨ b.isInvalid = true ∨ a.Below b := by
  rcases sub_cases a b with ⟨hi, hs, -⟩ | ⟨hb, hs, -⟩ | ⟨as, bs, rfl, rfl, h, hs, -⟩
  · exact iff_of_true hs (or_assoc.mp (.inl hi))
  · exact iff_of_true hs (.inr (.inr hb))
  · rw [hs, below_ofWords]
    simp [h]

theorem subLog_of_below (h : a.Below b) : a.subLog b = [a.shortfall b] := by
  rcases sub_cases a b with ⟨hi, -⟩ | ⟨-, -, hl, -⟩ | ⟨as, bs, rfl, rfl, hle, -⟩
  · exact absurd h (not_below_of_isInvalid hi)
  · exact hl
  · exact absurd (below_ofWords.mp h) (Nat.not_lt.mpr hle)

theorem subLog_of_not_below (h : ¬ a.Below b) : a.subLog b = [] := by
  rcases sub_cases a b with ⟨-, -, hl, -⟩ | ⟨hb, -⟩ | ⟨as, bs, rfl, rfl, -, -, hl, -⟩
  · exact hl
  · exact absurd hb h
  · exact hl

theorem checkedSub_eq_invalidValue_iff :
    a.checkedSub b = .error .invalidValue ↔ a.isInvalid = true ∨ b.isInvalid = true := by
  rcases sub_cases a b with ⟨hi, -, -, hc⟩ | ⟨hb, -, -, hc⟩ | ⟨as, bs, rfl, rfl, -, -, -, hc⟩
  · exact iff_of_true hc hi
  · rw [hc]
    exact iff_of_false (by simp) fun hi => not_below_of_isInvalid hi hb
  · rw [hc]
    simp

theorem checkedSub_eq_negativeDifference_iff :
    a.checkedSub b = .error (.negativeDifference j k) ↔
      a.Below b ∧ j = a.trimmedLength ∧ k = b.trimmedLength := by
  rcases sub_cases a b with ⟨hi, -, -, hc⟩ | ⟨hb, -, -, hc⟩ | ⟨as, bs, rfl, rfl, h, -, -, hc⟩
  · rw [hc]
    exact iff_of_false (by simp) fun h => not_below_of_isInvalid hi h.1
  · rw [hc]
    simp [hb, eq_comm]
  · rw [hc, below_ofWords]
    simp [h]

theorem checkedSub_eq_ok_iff :
    a.checkedSub b = .ok d ↔
      a.isInvalid = false ∧ b.isInvalid = false ∧ ¬ a.Below b ∧ d = a.sub b := by
  rcases sub_cases a b with ⟨hi, -, -, hc⟩ | ⟨hb, -, -, hc⟩ | ⟨as, bs, rfl, rfl, h, -, -, hc⟩
  · rw [hc]
    refine iff_of_false (by simp) ?_
    rintro ⟨ha, hb, -⟩
    simp [ha, hb] at hi
  · rw [hc]
    exact iff_of_false (by simp) fun h => h.2.2.1 hb
  · rw [hc, below_ofWords]
    simp [h, eq_comm]

/-- A difference of numbers is a number if the second one is not larger. Its words are the digits of
the difference, as many as the first number has, and nothing is left to borrow. Otherwise there is
no difference, which is logged, and the checked form says why. -/
theorem sub_spells :
    (∀ as bs : Words, bs.value ≤ as.value → ∃ ws, (ofWords as).sub (ofWords bs) = ofWords ws ∧
      ws.Spells as.length (as.value - bs.value)) ∧
    (∀ as bs : Words, (ofWords as).lt (ofWords bs) = false →
      (Words.Chain.run Word.subBorrow (Words.align as bs)).carry = 0) ∧
    ∀ a b : Natural,
      (a.sub b = invalid ↔ a.isInvalid = true ∨ b.isInvalid = true ∨ a.Below b) ∧
      (a.Below b → a.subLog b =
        [.warn ("bigint subtraction creates a negative number " ++
          s!"({a.trimmedLength} words - {b.trimmedLength} words)")]) ∧
      (¬ a.Below b → a.subLog b = []) ∧
      (a.checkedSub b = .error .invalidValue ↔ a.isInvalid = true ∨ b.isInvalid = true) ∧
      (∀ j k, a.checkedSub b = .error (.negativeDifference j k) ↔
        a.Below b ∧ j = a.trimmedLength ∧ k = b.trimmedLength) ∧
      ∀ d, a.checkedSub b = .ok d ↔
        a.isInvalid = false ∧ b.isInvalid = false ∧ ¬ a.Below b ∧ d = a.sub b := by
  refine ⟨?_, ?_, ?_⟩
  · intro as bs h
    refine ⟨as.sub bs, by rw [sub_ofWords, if_neg (Nat.not_lt.mpr h)], ?_⟩
    exact Words.spells_iff.mpr ⟨Words.length_sub as bs, Words.value_sub h⟩
  · intro as bs h
    have hlt := (Flagged.lt_ofWords as bs).not.mp (Bool.eq_false_iff.mp h)
    exact Words.borrow_eq_zero (Nat.not_lt.mp hlt)
  · intro a b
    exact ⟨sub_eq_invalid_iff, subLog_of_below, subLog_of_not_below,
      checkedSub_eq_invalidValue_iff, fun j k => checkedSub_eq_negativeDifference_iff,
      fun d => checkedSub_eq_ok_iff⟩

/-- Zero words of the second number above those of the first one do not matter, and other words
there do. -/
theorem sub_spells_padded :
    Words.value [3, 0, 0] ≤ Words.value [5, 1] ∧
    (∃ ws, (ofWords [5, 1]).sub (ofWords [3, 0, 0]) = ofWords ws ∧
      ws.Spells 2 (Words.value [5, 1] - Words.value [3, 0, 0])) ∧
    (Words.Chain.run Word.subBorrow (Words.align [5, 1] [3, 0, 0])).carry = 0 ∧
    (ofWords [5, 1]).subLog (ofWords [3, 0, 0]) = [] ∧
    (ofWords [5, 1]).subLog (ofWords [3, 0, 1]) =
      [(ofWords [5, 1]).shortfall (ofWords [3, 0, 1])] := by
  refine ⟨by decide, sub_spells.1 [5, 1] [3, 0, 0] (by decide),
    sub_spells.2.1 [5, 1] [3, 0, 0] (by decide), ?_, ?_⟩
  · have hb : ¬ (ofWords [5, 1]).Below (ofWords [3, 0, 0]) := by
      rw [below_ofWords]
      decide
    exact (sub_spells.2.2 (ofWords [5, 1]) (ofWords [3, 0, 0])).2.2.1 hb
  · have hb : (ofWords [5, 1]).Below (ofWords [3, 0, 1]) := below_ofWords.mpr (by decide)
    exact (sub_spells.2.2 (ofWords [5, 1]) (ofWords [3, 0, 1])).2.1 hb

end LexCalc.Natural
