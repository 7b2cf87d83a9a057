import LexCalc.Calculation
import LexCalc.Proofs.Natural.BitCount

/-! Which bit counts are read, and why the others are refused. Beside the reader stands one that
goes through the digits with a 64-bit number and stops where it has no room for the next digit. -/
namespace LexCalc
namespace BitCount
variable {text t digits rest : Text} {c : Char} {n : UInt64}

/-- The product, unless it takes more than 64 bits. -/
def mul? (a b : UInt64) : Option UInt64 :=
  if a.toNat * b.toNat < UInt64.size then some (a * b) else none

/-- The sum, unless it takes more than 64 bits. -/
def add? (a b : UInt64) : Option UInt64 :=
  if a.toNat + b.toNat < UInt64.size then some (a + b) else none

/-- The number with one more digit at its end. -/
def pushDigit? (n : UInt64) (c : Char) : Option UInt64 := do
  add? (← mul? 10 n) (UInt64.ofNat (c.toNat - '0'.toNat))

/-- Reads what is left of `text` digit by digit, when `n` has been read so far. -/
def readDigits (text : Text) (n : UInt64) : Text → Except BitCountError UInt64
  | [] => .ok n
  | c :: t =>
    if c.isDigit then
      match pushDigit? n c with
      | some m => readDigits text m t
      | none => .error (.tooLarge text)
    else .error (.invalidDigit text)

/-- Reads a count as `ofText` does, but never holds a number of more than 64 bits. -/
def ofTextByDigits (text : Text) : Except BitCountError Nat :=
  if text = [] then .error .empty
  else if text = ['+'] then .error (.invalidDigit text)
  else
    match readDigits text 0 (withoutSign text) with
    | .error e => .error e
    | .ok n => if maximum < n.toNat then .error (.aboveMaximum n.toNat) else .ok n.toNat

/-- The number that digits come to when `n` has been read before them. -/
def valueFrom (n : Nat) (digits : Text) : Nat :=
  digits.foldl (fun n c => 10 * n + (c.toNat - '0'.toNat)) n

theorem valueFrom_cons (m : Nat) (c : Char) (t : Text) :
    valueFrom m (c :: t) = valueFrom (10 * m + (c.toNat - '0'.toNat)) t := by
  rw [valueFrom, valueFrom, List.foldl_cons]

/-- More digits never make a number smaller. -/
theorem le_valueFrom (m : Nat) (t : Text) : m ≤ valueFrom m t := by
  induction t generalizing m with
  | nil => exact Nat.le_refl m
  | cons c t ih =>
    have := ih (10 * m + (c.toNat - '0'.toNat))
    rw [valueFrom_cons]
    omega

/-- One more digit is refused exactly if there is no room for it. -/
theorem pushDigit?_eq (hc : c.isDigit = true) (n : UInt64) :
    pushDigit? n c =
      if 2 ^ 64 ≤ 10 * n.toNat + (c.toNat - '0'.toNat) then none
      else some (UInt64.ofNat (10 * n.toNat + (c.toNat - '0'.toNat))) := by
  have hd := (digitOf_decimal hc).1
  have hsize : UInt64.size = 2 ^ 64 := rfl
  rw [pushDigit?]
  generalize c.toNat - '0'.toNat = d at hd
  have hdn : (UInt64.ofNat d).toNat = d := UInt64.toNat_ofNat_of_lt' (Nat.lt_trans hd (by decide))
  by_cases hm : 10 * n.toNat < UInt64.size
  · have hmul : mul? 10 n = some (10 * n) := if_pos hm
    have hmn : (10 * n).toNat = 10 * n.toNat := by
      rw [UInt64.toNat_mul]
      exact Nat.mod_eq_of_lt hm
    rw [hmul, Option.bind_eq_bind, Option.bind_some, add?, hmn, hdn]
    split_ifs with h1 h2
    · omega
    · rw [UInt64.ofNat_add, UInt64.ofNat_mul, UInt64.ofNat_toNat]
      rfl
    · rfl
    · omega
  · have hmul : mul? 10 n = none := if_neg hm
    rw [hmul, if_pos (by omega)]
    rfl

/-- Reading fails at the first digit for which there is no room, or else at the first character that
is no digit. -/
theorem readDigits_append (hd : ∀ c ∈ digits, c.isDigit = true)
    (hr : ∀ c ∈ rest.head?, c.isDigit = false) (n : UInt64) :
    readDigits text n (digits ++ rest) =
      if 2 ^ 64 ≤ valueFrom n.toNat digits then .error (.tooLarge text)
      else if rest ≠ [] then .error (.invalidDigit text)
      else .ok (UInt64.ofNat (valueFrom n.toNat digits)) := by
  induction digits generalizing n with
  | nil =>
    have hn : ¬ 2 ^ 64 ≤ valueFrom n.toNat [] := Nat.not_le.mpr n.toNat_lt
    rw [if_neg hn]
    cases rest with
    | nil => simp [readDigits, valueFrom]
    | cons c rest => simp [readDigits, hr c rfl]
  | cons c digits ih =>
    rw [List.forall_mem_cons] at hd
    rw [List.cons_append, readDigits, if_pos hd.1, pushDigit?_eq hd.1, valueFrom_cons]
    by_cases hlt : 2 ^ 64 ≤ 10 * n.toNat + (c.toNat - '0'.toNat)
    · rw [if_pos hlt, if_pos (Nat.le_trans hlt (le_valueFrom _ digits))]
    · have hm := UInt64.toNat_ofNat_of_lt' (Nat.lt_of_not_le hlt)
      rw [if_neg hlt]
      dsimp only
      rw [ih hd.2, hm]

/-- Without digits something else follows the sign, unless that is all. -/
theorem rest_ne_nil_of_parts (h : CountParts t digits rest) (h0 : t ≠ []) (hs : t ≠ ['+']) :
    digits = [] ∨ rest ≠ [] ↔ rest ≠ [] := by
  refine ⟨?_, .inr⟩
  rintro (rfl | hr)
  · rintro rfl
    rcases h.text_eq with rfl | ⟨rfl, -⟩
    · exact hs rfl
    · exact h0 rfl
  · exact hr

/-- The two readers agree, so no number on the way is cut down to 64 bits. -/
theorem ofTextByDigits_eq (t : Text) : ofTextByDigits t = ofText t := by
  obtain ⟨digits, rest, h⟩ := exists_countParts t
  have hn := numeral_decimalValue h.isDigit
  have hread : readDigits t 0 (digits ++ rest) =
      if 2 ^ 64 ≤ Text.decimalValue digits then .error (.tooLarge t)
      else if rest ≠ [] then .error (.invalidDigit t)
      else .ok (UInt64.ofNat (Text.decimalValue digits)) :=
    readDigits_append h.isDigit h.isDigit_rest 0
  rw [ofText_of_parts h hn, ofTextByDigits]
  by_cases h0 : t = []
  · rw [if_pos h0, if_pos h0]
  rw [if_neg h0, if_neg h0]
  by_cases hs : t = ['+']
  · subst hs
    have hp : CountParts ['+'] [] [] := ⟨.inl rfl, by simp, by simp⟩
    obtain ⟨rfl, rfl⟩ := countParts_unique h hp
    rfl
  rw [if_neg hs, withoutSign_eq_iff.mpr h.text_eq, hread]
  simp only [rest_ne_nil_of_parts h h0 hs]
  generalize Text.decimalValue digits = v
  by_cases hv : 2 ^ 64 ≤ v
  · rw [if_pos hv, if_pos hv]
  rw [if_neg hv, if_neg hv]
  by_cases hr : rest ≠ []
  · rw [if_pos hr, if_pos hr]
  · rw [if_neg hr, if_neg hr]
    simp only [UInt64.toNat_ofNat_of_lt' (Nat.lt_of_not_le hv)]
    rfl

-- Zeros in front take no room, and the digit without room comes before the `-`.
example : ofTextByDigits ('+' :: List.replicate 30 '0' ++ ['6', '4']) = .ok 64 := rfl

example : ofTextByDigits ("18446744073709551616-".toList) =
    .error (.tooLarge "18446744073709551616-".toList) := rfl

end BitCount

namespace Calculation
variable {t : Text} {n : Nat}

theorem bitCount_eq_ok_iff : bitCount t = .ok n ↔ BitCount.ofText t = .ok n := by
  unfold bitCount
  cases BitCount.ofText t with
  | ok m => simp
  | error e => simp

theorem bitCount_of_error {e : BitCountError} (h : BitCount.ofText t = .error e) :
    bitCount t = .error (.validation e.message) := by rw [bitCount, h]

/-- A count is read exactly if it is an optional `+` and decimal digits, and the number that they
denote is at most `2 ^ 24`. Any other number below `2 ^ 64` is named together with the maximum. Else
the text is quoted: it is empty, its first digits denote `2 ^ 64` or more, or something in it is no
digit. A reader that goes digit by digit in 64 bits comes to the same. -/
theorem bitCount_grammar (t : Text) :
    (∀ n, bitCount t = .ok n ↔ CountOperand t n ∧ n ≤ 2 ^ 24) ∧
    (∀ n, CountOperand t n → 2 ^ 24 < n → n < 2 ^ 64 → bitCount t =
      .error (.validation s!"Invalid bit count {n}: exceeds the maximum of {16777216}")) ∧
    (t = [] → bitCount t =
      .error (.validation "Invalid bit count \"\": cannot parse integer from empty string")) ∧
    (t ≠ [] → (¬ ∃ n < 2 ^ 64, CountOperand t n) →
      ∃ digits rest n, CountParts t digits rest ∧ Numeral 10 digits n ∧
        (2 ^ 64 ≤ n → bitCount t =
          .error (.validation ("Invalid bit count " ++ String.ofList t.quoted ++
            ": " ++ "number too large to fit in target type"))) ∧
        (n < 2 ^ 64 → bitCount t =
          .error (.validation ("Invalid bit count " ++ String.ofList t.quoted ++
            ": " ++ "invalid digit found in string")))) ∧
    BitCount.ofTextByDigits t = BitCount.ofText t := by
  refine ⟨fun n => bitCount_eq_ok_iff.trans BitCount.ofText_eq_ok_iff, ?_, ?_, ?_,
    BitCount.ofTextByDigits_eq t⟩
  · intro n hn hlt hsize
    obtain ⟨digits, h, hne, hd⟩ := BitCount.countOperand_iff.mp hn
    have ht : BitCount.ofText t = .error (.aboveMaximum n) := by
      rw [BitCount.ofText_of_parts h hd, if_neg (BitCount.ne_nil_of_parts h hne),
        if_neg (Nat.not_le.mpr hsize), if_neg (by simp [hne]), if_pos hlt]
    exact bitCount_of_error ht
  · rintro rfl
    rfl
  · intro h0 hnone
    obtain ⟨digits, rest, h⟩ := BitCount.exists_countParts t
    obtain ⟨n, hn⟩ := BitCount.exists_numeral h
    have ht := BitCount.ofText_of_parts h hn
    rw [if_neg h0] at ht
    refine ⟨digits, rest, n, h, hn, ?_, ?_⟩
    · intro hsize
      rw [if_pos hsize] at ht
      exact bitCount_of_error ht
    · intro hlt
      have hp : digits = [] ∨ rest ≠ [] := by
        by_contra hc
        rw [not_or, not_not] at hc
        exact hnone ⟨n, hlt, (BitCount.countOperand_iff_of_parts h hn).mpr ⟨hc.1, hc.2, rfl⟩⟩
      rw [if_neg (Nat.not_le.mpr hlt), if_pos hp] at ht
      exact bitCount_of_error ht

end Calculation
end LexCalc
