import LexCalc.Text.Basic
import Mathlib.Data.List.Forall2
import Mathlib.Data.Nat.Digits.Defs
import Mathlib.Tactic.Ring

/-! Numerals apart from their readers and writers: what a digit is worth, and what number a text of
digits denotes. -/
namespace LexCalc
variable {base : Nat} {c : Char} {s t : Text} {m n : Nat}

/-- The digits of a base are those that core writes, letters of either case. -/
def DigitOf (base : Nat) (c : Char) (n : Nat) : Prop :=
  n < base ∧ (c = n.digitChar ∨ c = n.digitChar.toUpper)

/-- Digits, the most significant one first, denote a number in a base. -/
def Numeral (base : Nat) (t : Text) (n : Nat) : Prop :=
  ∃ ds : List Nat, List.Forall₂ (DigitOf base) t ds ∧ n = Nat.ofDigits base ds.reverse

/-- A reader of single digits makes the number out of the values that it finds. -/
theorem numeral_of_digit {value : Char → Nat} (h : ∀ c ∈ t, DigitOf base c (value c)) :
    Numeral base t (Nat.ofDigits base (t.reverse.map value)) := by
  refine ⟨t.map value, ?_, by rw [List.map_reverse]⟩
  rw [List.forall₂_map_right_iff]
  exact List.forall₂_same.mpr h

theorem digitOf_decimal (hc : c.isDigit) : DigitOf 10 c (c.toNat - '0'.toNat) := by
  have hd : ∀ m < 128, 48 ≤ m → m ≤ 57 → Char.ofNat m = (m - 48).digitChar := by decide
  obtain ⟨hl, hu⟩ : 48 ≤ c.toNat ∧ c.toNat ≤ 57 := by
    simpa [Char.isDigit, UInt32.le_iff_toNat_le] using hc
  refine ⟨?_, .inl ?_⟩
  · change c.toNat - 48 < 10
    omega
  · rw [← Char.ofNat_toNat c]
    simpa using hd c.toNat (by omega) hl hu

/-- A decimal digit is worth one number only. -/
theorem eq_of_digitOf_decimal (h : DigitOf 10 c n) :
    c.isDigit = true ∧ c.toNat - '0'.toNat = n := by
  have hd : ∀ m < 10, m.digitChar.toUpper = m.digitChar ∧ m.digitChar.isDigit = true ∧
      m.digitChar.toNat - '0'.toNat = m := by decide
  obtain ⟨hu, hn⟩ := hd n h.1
  rcases h.2 with rfl | rfl
  · exact hn
  · rw [hu]
    exact hn

/-- Reading from the left is summing up by places. -/
theorem foldl_eq_ofDigits (value : Char → Nat) (t : Text) :
    t.foldl (fun n c => base * n + value c) 0 = Nat.ofDigits base (t.reverse.map value) := by
  rw [← List.foldr_reverse]
  induction t.reverse with
  | nil => rfl
  | cons c t ih =>
    rw [List.foldr_cons, ih, List.map_cons, Nat.ofDigits_cons, Nat.add_comm]

theorem numeral_decimalValue (h : ∀ c ∈ t, c.isDigit) : Numeral 10 t (Text.decimalValue t) := by
  rw [Text.decimalValue, foldl_eq_ofDigits]
  exact numeral_of_digit fun c hc => digitOf_decimal (h c hc)

theorem numeral_decimal_iff :
    Numeral 10 t n ↔ (∀ c ∈ t, c.isDigit = true) ∧ n = Text.decimalValue t := by
  constructor
  · rintro ⟨ds, hf, rfl⟩
    obtain ⟨hd, hv⟩ := (List.forall₂_and_left t ds).mp (hf.imp fun _ _ => eq_of_digitOf_decimal)
    rw [← List.forall₂_map_left_iff, List.forall₂_eq_eq_eq] at hv
    rw [Text.decimalValue, foldl_eq_ofDigits, List.map_reverse, hv]
    exact ⟨hd, rfl⟩
  · rintro ⟨hd, rfl⟩
    exact numeral_decimalValue hd

/-- No numeral but that of zero starts with a zero. -/
theorem head?_toDigits (hb : 1 < base) (hn : n ≠ 0) : (Nat.toDigits base n).head? ≠ some '0' := by
  induction n using Nat.strongRecOn with
  | ind n ih =>
    by_cases hlt : n < base
    · rw [Nat.toDigits_of_lt_base hlt]
      intro h
      exact hn (Nat.digitChar_eq_zero.mp (Option.some.inj h))
    · have hq : 0 < n / base := Nat.div_pos (by omega) (by omega)
      rw [Nat.toDigits_of_base_le hb (by omega), List.head?_append_of_ne_nil _ Nat.toDigits_ne_nil]
      exact ih _ (Nat.div_lt_self (by omega) hb) (by omega)

theorem ne_of_isDigit {d : Char} (hc : c.isDigit = true) (hd : d.isDigit = false) : c ≠ d := by
  rintro rfl
  rw [hc] at hd
  cases hd

theorem isDigit_of_mem_decimal (h : c ∈ Text.decimal n) : c.isDigit = true :=
  Nat.isDigit_of_mem_toDigits (by decide) (by decide) h

/-- A numeral starts with a digit. -/
theorem exists_decimal (n : Nat) : ∃ c t, Text.decimal n = c :: t ∧ c.isDigit = true := by
  obtain ⟨c, t, h⟩ := List.exists_cons_of_ne_nil (Nat.toDigits_ne_nil (n := n) (b := 10))
  refine ⟨c, t, h, isDigit_of_mem_decimal (n := n) ?_⟩
  rw [Text.decimal, h]
  exact List.mem_cons_self

theorem decimalValue_decimal (n : Nat) : Text.decimalValue (Text.decimal n) = n := by
  rw [Text.decimalValue, ← Nat.ofDigitChars_eq_foldl]
  exact Nat.ofDigitChars_ten_toDigits

/-- Below another numeral, a number fills all the places that it has. -/
theorem toDigits_mul_pow_add {k : Nat} (hb : 1 < base) (hn : 0 < n) (hk : 0 < k)
    (hm : m < base ^ k) :
    Nat.toDigits base (n * base ^ k + m) =
      Nat.toDigits base n ++
        (List.replicate (k - (Nat.toDigits base m).length) '0' ++ Nat.toDigits base m) := by
  induction k, hk using Nat.le_induction generalizing m with
  | base =>
    rw [Nat.pow_one] at hm
    rw [Nat.pow_one, mul_comm, ← Nat.toDigits_append_toDigits hb hn hm, Nat.toDigits_of_lt_base hm]
    rfl
  | succ k hk ih =>
    have hq : m / base < base ^ k := Nat.div_lt_of_lt_mul (by rwa [← pow_succ'])
    have hd : m % base < base := Nat.mod_lt m (by omega)
    have hs : n * base ^ (k + 1) + m = base * (n * base ^ k + m / base) + m % base := by
      rw [Nat.mul_add, Nat.add_assoc, Nat.div_add_mod]
      ring
    rw [hs, ← Nat.toDigits_append_toDigits hb (by positivity) hd, ih hq]
    by_cases hz : m / base = 0
    · have hlt : m < base := (Nat.div_eq_zero_iff_lt (by omega)).mp hz
      obtain ⟨j, rfl⟩ : ∃ j, k = j + 1 := ⟨k - 1, by omega⟩
      rw [hz, Nat.mod_eq_of_lt hlt, Nat.toDigits_of_lt_base hlt, Nat.toDigits_zero]
      simp [List.replicate_succ']
    · have hm' := Nat.toDigits_append_toDigits hb (Nat.pos_of_ne_zero hz) hd
      rw [Nat.div_add_mod] at hm'
      rw [← hm', List.length_append, Nat.toDigits_of_lt_base hd, List.length_singleton,
        Nat.add_sub_add_right]
      simp

end LexCalc
