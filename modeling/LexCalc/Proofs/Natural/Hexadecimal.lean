import LexCalc.Natural.Hexadecimal
import LexCalc.Proofs.Natural.Value
import LexCalc.Proofs.Text.Numeral

/-! Operands are read as the numbers that they denote, and numbers are written as their numerals,
whatever the boundaries between words. -/
namespace LexCalc

/-- Digits with any `_` among them, after an optional `0x`, and the number that they denote. -/
def HexOperand (t : Text) (n : Nat) : Prop :=
  ∃ front body, front ∈ [[], ['0', 'x'], ['0', 'X']] ∧ t = front ++ body ∧
    body.filter (· ≠ '_') ≠ [] ∧ Numeral 16 (body.filter (· ≠ '_')) n

namespace Natural
variable {c : Char} {t ds : Text} {n : Nat}

/-- What a digit is worth, where there is one. -/
def hexDigit (c : Char) : Nat := (hexValue? c).getD 0

theorem digitOf_hexDigit (hc : (hexValue? c).isSome) : DigitOf 16 c (hexDigit c) := by
  have hd : ∀ m < 128, (hexValue? (Char.ofNat m)).isSome →
      hexDigit (Char.ofNat m) < 16 ∧ (Char.ofNat m = (hexDigit (Char.ofNat m)).digitChar ∨
        Char.ofNat m = (hexDigit (Char.ofNat m)).digitChar.toUpper) := by decide
  have hlt : c.toNat < 128 := by
    have hle : ∀ d : Char, d.toNat < 128 → c ≤ d → c.toNat < 128 :=
      fun d hd hc => Nat.lt_of_le_of_lt (UInt32.le_iff_toNat_le.mp hc) hd
    unfold hexValue? at hc
    split at hc
    · next h => exact hle '9' (by decide) h.2
    split at hc
    · next h => exact hle 'f' (by decide) h.2
    split at hc
    · next h => exact hle 'F' (by decide) h.2
    · simp at hc
  have hm := hd c.toNat hlt
  rw [Char.ofNat_toNat] at hm
  exact hm hc

theorem hexDigit_lt (c : Char) : hexDigit c < 16 := by
  unfold hexDigit
  cases h : hexValue? c with
  | none => simp
  | some n =>
    have hd := (digitOf_hexDigit (c := c) (by simp [h])).1
    rwa [hexDigit, h] at hd

/-- The number of digits that are least significant first, as they are cut into words. -/
def hexNumber (ds : Text) : Nat := Nat.ofDigits 16 (ds.map hexDigit)

theorem hexNumber_lt (ds : Text) : hexNumber ds < 16 ^ ds.length := by
  have h := Nat.ofDigits_lt_base_pow_length (b := 16) (l := ds.map hexDigit) (by decide) (by
    intro x hx
    obtain ⟨c, -, rfl⟩ := List.mem_map.mp hx
    exact hexDigit_lt c)
  rwa [List.length_map] at h

theorem toNat_wordOfHex (h : ds.length ≤ 8) : (wordOfHex ds).toNat = hexNumber ds := by
  induction ds with
  | nil => rfl
  | cons c ds ih =>
    have hl : ds.length ≤ 7 := Nat.le_of_succ_le_succ h
    have hd := hexDigit_lt c
    have hn : hexNumber ds < 16 ^ 7 :=
      Nat.lt_of_lt_of_le (hexNumber_lt ds) (Nat.pow_le_pow_right (by decide) hl)
    have hi : (wordOfHex ds).toNat = hexNumber ds := ih (by omega)
    have hs : (wordOfHex (c :: ds)).toNat =
        (UInt32.ofNat (hexDigit c) + 16 * wordOfHex ds).toNat := rfl
    have hc : hexNumber (c :: ds) = hexDigit c + 16 * hexNumber ds := Nat.ofDigits_cons
    rw [hs, UInt32.toNat_add, UInt32.toNat_mul, hi, hc, UInt32.toNat_ofNat_of_lt' (by
      simp only [UInt32.size]; omega)]
    simp only [UInt32.reduceToNat, Nat.reducePow] at hn ⊢
    omega

/-- Cutting digits into words keeps the number: only the last word may have fewer than eight. -/
theorem value_wordsOfHex (formed : List Word) (ds : Text) :
    (wordsOfHex ds formed).value =
      Words.value formed.reverse + UInt32.size ^ formed.length * hexNumber ds := by
  fun_induction wordsOfHex ds formed with
  | case1 formed => simp [hexNumber]
  | case2 formed c ds ih =>
    have hw : (wordOfHex (c :: ds.take 7)).toNat = hexNumber (c :: ds.take 7) :=
      toNat_wordOfHex (by simp)
    have hs : hexNumber (c :: ds) =
        hexNumber (c :: ds.take 7) + UInt32.size * hexNumber (ds.drop 7) := by
      have ha : hexNumber (c :: ds) = hexNumber (c :: ds.take 7 ++ ds.drop 7) := by
        rw [List.cons_append, List.take_append_drop]
      rw [ha, hexNumber, List.map_append, Nat.ofDigits_append, List.length_map]
      by_cases hl : ds.length ≤ 7
      · simp [List.drop_of_length_le hl, hexNumber]
      · have h8 : (c :: ds.take 7).length = 8 := by
          simp only [List.length_cons, List.length_take]
          omega
        rw [h8]
        rfl
    rw [ih, List.reverse_cons, Words.value_concat, List.length_reverse, List.length_cons, hw, hs]
    ring

theorem exists_append_hexBody (t : Text) :
    ∃ front, front ∈ [[], ['0', 'x'], ['0', 'X']] ∧ t = front ++ hexBody t := by
  unfold hexBody
  split
  · exact ⟨['0', 'x'], by simp, rfl⟩
  · exact ⟨['0', 'X'], by simp, rfl⟩
  · exact ⟨[], by simp, rfl⟩

/-- What is read is what is left without the prefix and the `_`, if it is all digits and not
nothing. -/
theorem ofHex_eq_ok_iff {a : Natural} :
    ofHex t = .ok a ↔ (hexBody t).filter (· ≠ '_') ≠ [] ∧
      (∀ c ∈ (hexBody t).filter (· ≠ '_'), (hexValue? c).isSome) ∧
      a = .ofWords (wordsOfHex ((hexBody t).filter (· ≠ '_')).reverse []) := by
  rw [ofHex]
  generalize (hexBody t).filter (· ≠ '_') = digits
  simp only [List.isEmpty_iff]
  split_ifs with hn
  · simp [hn]
  cases hd : digits.find? fun c => (hexValue? c).isNone with
  | some c =>
    have hc := List.find?_some hd
    have hm := List.mem_of_find?_eq_some hd
    constructor
    · intro h
      cases h
    · rintro ⟨-, hall, -⟩
      have hs := hall c hm
      rw [Option.isNone_iff_eq_none.mp hc] at hs
      cases hs
  | none =>
    have hall : ∀ c ∈ digits, (hexValue? c).isSome := by
      intro c hc
      have := List.find?_eq_none.mp hd c hc
      simpa [Option.isSome_iff_ne_none] using this
    constructor
    · intro h
      cases h
      exact ⟨hn, hall, rfl⟩
    · rintro ⟨-, -, rfl⟩
      rfl

/-- An operand that is read is a number, and the one that its text denotes. -/
theorem hexOperand_of_ofHex {a : Natural} (h : ofHex t = .ok a) :
    ∃ n, HexOperand t n ∧ a.toNat? = some n := by
  obtain ⟨front, hf, ht⟩ := exists_append_hexBody t
  obtain ⟨hn, hd, rfl⟩ := ofHex_eq_ok_iff.mp h
  have hc : ∀ c ∈ (hexBody t).filter (· ≠ '_'), DigitOf 16 c (hexDigit c) :=
    fun c hc => digitOf_hexDigit (hd c hc)
  refine ⟨_, ⟨front, hexBody t, hf, ht, hn, numeral_of_digit hc⟩, ?_⟩
  simp [value_wordsOfHex, hexNumber]

/-- Words below the top one are as wide as eight digits. -/
theorem toDigits_value_reverse {top : Word} (ht : top ≠ 0) (rest : List Word) :
    Nat.toDigits 16 (Words.value (top :: rest).reverse) =
      Nat.toDigits 16 top.toNat ++ rest.flatMap hexOfWord := by
  induction rest using List.reverseRecOn with
  | nil => simp
  | append_singleton rest w ih =>
    have hp : 0 < Words.value (top :: rest).reverse := by
      have hn : top.toNat ≠ 0 := fun h0 => ht (UInt32.toNat_inj.mp h0)
      rw [List.reverse_cons, Words.value_concat]
      have := Nat.mul_pos (Nat.pow_pos (n := rest.reverse.length) (by decide : 0 < UInt32.size))
        (Nat.pos_of_ne_zero hn)
      omega
    have hv : Words.value (top :: (rest ++ [w])).reverse =
        Words.value (top :: rest).reverse * 16 ^ 8 + w.toNat := by
      rw [← List.cons_append, List.reverse_append, List.reverse_singleton, List.singleton_append,
        Words.value_cons, UInt32.size]
      ring
    have hw : w.toNat < 16 ^ 8 := w.toNat_lt
    rw [hv, toDigits_mul_pow_add (by decide) hp (by decide) hw, ih, List.flatMap_append,
      List.append_assoc, List.flatMap_singleton]
    rfl

theorem hexOfWords_eq (ws : Words) : hexOfWords ws = Nat.toDigits 16 ws.value := by
  have hv : Words.value ws.leading.reverse = ws.value := Words.value_trimmed ws
  unfold hexOfWords
  split
  · next hl =>
    rw [hl] at hv
    rw [← hv]
    rfl
  · next top rest hl =>
    have ht : top ≠ 0 := by
      have hn := List.head?_dropWhile_not (· == (0 : Word)) ws.reverse
      rw [show ws.reverse.dropWhile (· == 0) = top :: rest from hl] at hn
      simpa using hn
    rw [← hv, hl, toDigits_value_reverse ht]

/-- A number is written as its one numeral without leading zeros. -/
theorem toHex_eq {a : Natural} (uppercase : Bool) (h : a.toNat? = some n) :
    a.toHex uppercase =
      '0' :: 'x' :: if uppercase then (Nat.toDigits 16 n).map Char.toUpper
        else Nat.toDigits 16 n := by
  cases a with
  | invalid => cases h
  | ofWords ws =>
    obtain rfl : ws.value = n := Option.some.inj h
    rw [← hexOfWords_eq]
    rfl

end Natural

end LexCalc
