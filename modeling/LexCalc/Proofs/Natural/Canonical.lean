import LexCalc.Proofs.Natural.Hexadecimal
import LexCalc.Proofs.Natural.Order

/-! Every number has one written form, and what is read of it are its significant words. Digits are
written from the top word down and read from the last digit up. -/
namespace LexCalc

/-- A letter in one of the two cases. -/
def Text.letterCase (uppercase : Bool) (c : Char) : Char := if uppercase then c.toUpper else c.toLower

/-- Digits without the zeros in front. One of them stays if there is nothing else. -/
def Text.withoutZeros (digits : Text) : Text :=
  match digits.dropWhile (· = '0') with
  | [] => ['0']
  | ds => ds

namespace Natural
variable {c : Char} {t ds : Text} {d n : Nat}
open Text (letterCase withoutZeros)

/-- A digit in a given case is known by its value. -/
theorem letterCase_of_digitOf (uppercase : Bool) (h : DigitOf 16 c d) :
    letterCase uppercase c = letterCase uppercase d.digitChar := by
  have hd : ∀ d < 16, ∀ u, letterCase u d.digitChar.toUpper = letterCase u d.digitChar := by decide
  obtain ⟨hlt, rfl | rfl⟩ := h
  · rfl
  · exact hd d hlt uppercase

theorem hexValue?_letterCase (uppercase : Bool) (h : d < 16) :
    hexValue? (letterCase uppercase d.digitChar) = some d := by
  have hd : ∀ d < 16, ∀ u, hexValue? (letterCase u d.digitChar) = some d := by decide
  exact hd d h uppercase

/-- The last digit of a numeral, and the numeral in front of it. -/
theorem toDigits_induction {motive : Nat → Prop} (digit : ∀ n < 16, motive n)
    (more : ∀ n d, 0 < n → d < 16 → motive n → motive (16 * n + d)) (n : Nat) : motive n := by
  induction n using Nat.strongRecOn with
  | ind n ih =>
    by_cases hn : n < 16
    · exact digit n hn
    · have hm := more (n / 16) (n % 16) (by omega) (by omega) (ih (n / 16) (by omega))
      rwa [Nat.div_add_mod] at hm

theorem toDigits_mul_add (hn : 0 < n) (hd : d < 16) :
    Nat.toDigits 16 (16 * n + d) = Nat.toDigits 16 n ++ [d.digitChar] := by
  rw [← Nat.toDigits_append_toDigits (by decide) hn hd, Nat.toDigits_of_lt_base hd]

theorem exists_of_mem_toDigits (h : c ∈ Nat.toDigits 16 n) : ∃ d < 16, c = d.digitChar := by
  induction n using toDigits_induction with
  | digit n hn =>
    rw [Nat.toDigits_of_lt_base hn, List.mem_singleton] at h
    exact ⟨n, hn, h⟩
  | more n d hn hd ih =>
    rw [toDigits_mul_add hn hd, List.mem_append, List.mem_singleton] at h
    rcases h with h | h
    · exact ih h
    · exact ⟨d, hd, h⟩

/-- Core writes digits in lower case. -/
theorem map_letterCase_toDigits (n : Nat) :
    (Nat.toDigits 16 n).map (letterCase false) = Nat.toDigits 16 n := by
  have hd : ∀ d < 16, letterCase false d.digitChar = d.digitChar := by decide
  have hc : ∀ c ∈ Nat.toDigits 16 n, letterCase false c = id c := by
    intro c hc
    obtain ⟨d, hlt, rfl⟩ := exists_of_mem_toDigits hc
    exact hd d hlt
  rw [List.map_congr_left hc, List.map_id]

theorem hexNumber_toDigits (uppercase : Bool) (n : Nat) :
    hexNumber ((Nat.toDigits 16 n).map (letterCase uppercase)).reverse = n := by
  have hc : ∀ d < 16, hexDigit (letterCase uppercase d.digitChar) = d := by
    intro d hd
    rw [hexDigit, hexValue?_letterCase uppercase hd, Option.getD_some]
  induction n using toDigits_induction with
  | digit n hn =>
    rw [Nat.toDigits_of_lt_base hn]
    simp [hexNumber, hc n hn]
  | more n d hn hd ih =>
    have hl : hexNumber ((Nat.toDigits 16 n ++ [d.digitChar]).map (letterCase uppercase)).reverse =
        hexDigit (letterCase uppercase d.digitChar) +
          16 * hexNumber ((Nat.toDigits 16 n).map (letterCase uppercase)).reverse := by
      rw [List.map_append, List.reverse_append]
      exact Nat.ofDigits_cons
    rw [toDigits_mul_add hn hd, hl, hc d hd, ih]
    omega

theorem isSome_of_mem_map_toDigits {uppercase : Bool}
    (h : c ∈ (Nat.toDigits 16 n).map (letterCase uppercase)) : (hexValue? c).isSome := by
  obtain ⟨c, hc, rfl⟩ := List.mem_map.mp h
  obtain ⟨d, hd, rfl⟩ := exists_of_mem_toDigits hc
  rw [hexValue?_letterCase uppercase hd]
  rfl

theorem toHex_ofWords (uppercase : Bool) (ws : Words) :
    (ofWords ws).toHex uppercase =
      '0' :: 'x' :: (Nat.toDigits 16 ws.value).map (letterCase uppercase) := by
  rw [toHex_eq uppercase rfl]
  cases uppercase with
  | true => rfl
  | false =>
    rw [map_letterCase_toDigits]
    rfl

/-- Every eight digits make a word, and so do the digits that are left. -/
theorem length_wordsOfHex (ds : Text) (formed : List Word) :
    (wordsOfHex ds formed).length = formed.length + (ds.length + 7) / 8 := by
  fun_induction wordsOfHex ds formed with
  | case1 formed => simp
  | case2 formed c ds ih =>
    rw [ih, List.length_cons, List.length_drop, List.length_cons]
    omega

/-- A numeral has digits for its significant words and no more. -/
theorem length_toDigits_value {ws : Words} (h : ws.value ≠ 0) :
    ((Nat.toDigits 16 ws.value).length + 7) / 8 = ws.trimmedLength := by
  have hp (k : Nat) : UInt32.size ^ k = 16 ^ (8 * k) := by
    rw [Nat.pow_mul]
  have hk : 0 < ws.trimmedLength := by
    rw [Words.trimmedLength_eq, List.length_pos_iff]
    exact fun hn => h (Words.trimmed_eq_nil.mp hn)
  have hle : (Nat.toDigits 16 ws.value).length ≤ 8 * ws.trimmedLength := by
    rw [Nat.length_toDigits_le_iff (by decide) (by omega), ← hp]
    exact Words.value_lt_pow_trimmedLength ws
  have hlt : 8 * (ws.trimmedLength - 1) < (Nat.toDigits 16 ws.value).length := by
    -- No numeral is empty, so a single word needs no bound from below.
    by_cases h1 : ws.trimmedLength = 1
    · rw [h1]
      exact Nat.length_toDigits_pos
    · rw [← Nat.not_le, Nat.length_toDigits_le_iff (by decide) (by omega), ← hp, Nat.not_lt]
      exact Words.pow_le_value h
  omega

/-- The words of a numeral are the significant ones, or a single zero. -/
theorem wordsOfHex_toDigits (uppercase : Bool) (ws : Words) :
    wordsOfHex ((Nat.toDigits 16 ws.value).map (letterCase uppercase)).reverse [] =
      if ws.value = 0 then [0] else ws.trimmed := by
  have hl := length_wordsOfHex ((Nat.toDigits 16 ws.value).map (letterCase uppercase)).reverse []
  have hv := value_wordsOfHex [] ((Nat.toDigits 16 ws.value).map (letterCase uppercase)).reverse
  simp only [List.length_reverse, List.length_map, List.length_nil, Nat.zero_add] at hl
  simp only [hexNumber_toDigits, List.reverse_nil, Words.value_nil, List.length_nil, Nat.pow_zero,
    Nat.one_mul, Nat.zero_add] at hv
  -- Zero has a digit but no significant word.
  split_ifs with h0
  · apply Words.eq_of_value_eq
    · rw [hl, h0]
      rfl
    · rw [hv, h0]
      rfl
  · apply Words.eq_of_value_eq
    · rw [hl, length_toDigits_value h0, Words.trimmedLength_eq]
    · rw [hv, Words.value_trimmed]

/-- What is written is read as the words that matter. -/
theorem ofHex_toHex (uppercase : Bool) (ws : Words) :
    ofHex ((ofWords ws).toHex uppercase) =
      .ok (.ofWords (if ws.value = 0 then [0] else ws.trimmed)) := by
  have hd : ∀ c ∈ (Nat.toDigits 16 ws.value).map (letterCase uppercase), (hexValue? c).isSome :=
    fun c hc => isSome_of_mem_map_toDigits hc
  have hf : ((Nat.toDigits 16 ws.value).map (letterCase uppercase)).filter (· ≠ '_') =
      (Nat.toDigits 16 ws.value).map (letterCase uppercase) := by
    rw [List.filter_eq_self]
    intro c hc
    have hs := hd c hc
    rw [decide_eq_true_iff]
    rintro rfl
    exact absurd hs (by decide)
  rw [toHex_ofWords, ofHex_eq_ok_iff, hexBody, hf, wordsOfHex_toDigits]
  refine ⟨?_, hd, rfl⟩
  rw [Ne, List.map_eq_nil_iff]
  exact List.length_pos_iff.mp Nat.length_toDigits_pos

/-- Digits that are read after a number are written after it. -/
theorem toDigits_foldl (uppercase : Bool) (hn : 0 < n) (hd : ∀ c ∈ ds, (hexValue? c).isSome) :
    (Nat.toDigits 16 (ds.foldl (fun n c => 16 * n + hexDigit c) n)).map (letterCase uppercase) =
      (Nat.toDigits 16 n ++ ds).map (letterCase uppercase) := by
  induction ds generalizing n with
  | nil => simp
  | cons c ds ih =>
    have hc := digitOf_hexDigit (hd c List.mem_cons_self)
    rw [List.foldl_cons, ih (by omega) fun c hc => hd c (List.mem_cons_of_mem _ hc),
      toDigits_mul_add hn hc.1]
    simp [letterCase_of_digitOf uppercase hc]

/-- Zeros in front are read as nothing. -/
theorem toDigits_foldl_zero (uppercase : Bool) (hd : ∀ c ∈ ds, (hexValue? c).isSome) :
    (Nat.toDigits 16 (ds.foldl (fun n c => 16 * n + hexDigit c) 0)).map (letterCase uppercase) =
      (withoutZeros ds).map (letterCase uppercase) := by
  induction ds with
  | nil => rfl
  | cons c ds ih =>
    have hds : ∀ c ∈ ds, (hexValue? c).isSome := fun c hc => hd c (List.mem_cons_of_mem _ hc)
    -- The numeral starts at the first digit that is not zero.
    by_cases h0 : c = '0'
    · subst h0
      exact ih hds
    · have hc := digitOf_hexDigit (hd c List.mem_cons_self)
      have hpos : 0 < hexDigit c := by
        rw [Nat.pos_iff_ne_zero]
        intro hz
        rw [hz] at hc
        exact h0 (hc.2.elim id id)
      have hw : withoutZeros (c :: ds) = c :: ds := by
        simp [withoutZeros, h0]
      rw [List.foldl_cons, Nat.mul_zero, Nat.zero_add, toDigits_foldl uppercase hpos hds, hw,
        Nat.toDigits_of_lt_base hc.1]
      simp [letterCase_of_digitOf uppercase hc]

/-- An operand is written as it was read, without its prefix, its `_` and its leading zeros. -/
theorem toHex_of_ofHex {a : Natural} (uppercase : Bool) (h : ofHex t = .ok a) :
    ∃ front body, front ∈ [[], ['0', 'x'], ['0', 'X']] ∧ t = front ++ body ∧
      (∀ c ∈ body, c ≠ '_' → ∃ d, DigitOf 16 c d) ∧
      a.toHex uppercase =
        '0' :: 'x' :: (withoutZeros (body.filter (· ≠ '_'))).map (letterCase uppercase) := by
  obtain ⟨front, hf, ht⟩ := exists_append_hexBody t
  obtain ⟨-, hd, rfl⟩ := ofHex_eq_ok_iff.mp h
  refine ⟨front, hexBody t, hf, ht, ?_, ?_⟩
  · intro c hc hu
    have hm : c ∈ (hexBody t).filter (· ≠ '_') := by simp [hc, hu]
    exact ⟨_, digitOf_hexDigit (hd c hm)⟩
  · have hv : (wordsOfHex ((hexBody t).filter (· ≠ '_')).reverse []).value =
        ((hexBody t).filter (· ≠ '_')).foldl (fun n c => 16 * n + hexDigit c) 0 := by
      rw [value_wordsOfHex, foldl_eq_ofDigits hexDigit]
      simp [hexNumber]
    rw [toHex_ofWords, hv, toDigits_foldl_zero uppercase hd]

/-- The invalid value is written as no number is. -/
theorem toHex_ofWords_ne (uppercase other : Bool) (ws : Words) :
    (ofWords ws).toHex uppercase ≠ invalid.toHex other := by
  rw [toHex_ofWords]
  intro h
  exact absurd (List.cons.inj h).1 (by decide)

/-- Two values are written alike exactly if they are equal. -/
theorem toHex_eq_iff (uppercase : Bool) (a b : Natural) :
    a.toHex uppercase = b.toHex uppercase ↔ (a == b) = true := by
  rw [beq_iff]
  cases a with
  | invalid =>
    cases b with
    | invalid => simp
    | ofWords bs => simp [(toHex_ofWords_ne uppercase uppercase bs).symm]
  | ofWords as =>
    cases b with
    | invalid => simp [toHex_ofWords_ne uppercase uppercase as]
    | ofWords bs =>
      rw [toHex_ofWords, toHex_ofWords]
      constructor
      · intro h
        have hd := List.tail_eq_of_cons_eq (List.tail_eq_of_cons_eq h)
        have hv : as.value = bs.value := by
          rw [← hexNumber_toDigits uppercase as.value, hd, hexNumber_toDigits]
        exact congrArg some hv
      · intro h
        have hv : as.value = bs.value := Option.some.inj h
        rw [hv]

/-- A number is written as its numeral without leading zeros, the invalid value as no number is, and
two values alike exactly if they are equal. Reading what was written gives the significant words.
Writing what was read gives the digits that were read, without leading zeros. -/
theorem toHex_canonical (uppercase : Bool) :
    (∀ ws : Words,
      (ofWords ws).toHex uppercase =
          '0' :: 'x' :: (Nat.toDigits 16 ws.value).map (letterCase uppercase) ∧
        (ws.value ≠ 0 → (Nat.toDigits 16 ws.value).head? ≠ some '0') ∧
        (ws.value = 0 → Nat.toDigits 16 ws.value = ['0']) ∧
        (∀ other, (ofWords ws).toHex uppercase ≠ invalid.toHex other) ∧
        ofHex ((ofWords ws).toHex uppercase) =
          .ok (.ofWords (if ws.value = 0 then [0] else ws.trimmed))) ∧
    (∀ a b : Natural, a.toHex uppercase = b.toHex uppercase ↔ (a == b) = true) ∧
    (∀ t a, ofHex t = .ok a →
      ∃ front body, front ∈ [[], ['0', 'x'], ['0', 'X']] ∧ t = front ++ body ∧
        (∀ c ∈ body, c ≠ '_' → ∃ d, DigitOf 16 c d) ∧
        a.toHex uppercase =
          '0' :: 'x' :: (withoutZeros (body.filter (· ≠ '_'))).map (letterCase uppercase)) := by
  refine ⟨?_, toHex_eq_iff uppercase, fun t a => toHex_of_ofHex uppercase⟩
  intro ws
  refine ⟨toHex_ofWords uppercase ws, head?_toDigits (by decide), ?_, ?_,
    ofHex_toHex uppercase ws⟩
  · intro h
    rw [h]
    rfl
  · exact fun other => toHex_ofWords_ne uppercase other ws

end Natural

end LexCalc
