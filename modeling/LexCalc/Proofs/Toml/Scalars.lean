import LexCalc.Config.Basic
import LexCalc.Toml.Document
import LexCalc.Proofs.Text.Numeral
import LexCalc.Proofs.Text.Runs

/-! Values as they are written on one line, and what is read there: truth values, plain words in
quotes, and integers. -/
namespace LexCalc.Toml
variable {c d : Char} {s t digits rest : Text} {v : Value} {k lo hi n : Nat}

/-- At the end of a line all of the text is read as the value. No blank is passed over before it. -/
def Writes (t : Text) (v : Value) : Prop :=
  (∀ c ∈ t.head?, isBlank c = false) ∧ t ≠ [] ∧
    ∀ depth rest, value? depth (t ++ '\n' :: rest) = some (v, '\n' :: rest)

theorem isBlank_of_isDigit (h : c.isDigit = true) : isBlank c = false := by
  have hs : c ≠ ' ' := ne_of_isDigit h rfl
  have ht : c ≠ '\t' := ne_of_isDigit h rfl
  simp [isBlank, hs, ht]

/-- What opens neither an array nor a table in braces is a value that holds no other. -/
theorem value?_of_head (depth : Nat) (hb : c ≠ '[') (hc : c ≠ '\x7b') (t : Text) :
    value? depth (c :: t) = scalar? (c :: t) := by
  rw [value?.eq_def]
  split
  · next heq => exact absurd (List.cons.inj heq).1 hb
  · next heq => exact absurd (List.cons.inj heq).1 hc
  · rfl

/-! ### Truth values and words -/

theorem writes_boolean (b : Bool) : Writes (Config.writeBool b) (.boolean b) := by
  cases b with
  | false =>
    refine ⟨by simp [Config.writeBool, isBlank], by simp [Config.writeBool], ?_⟩
    intro depth rest
    exact value?_of_head depth (by decide) (by decide) _
  | true =>
    refine ⟨by simp [Config.writeBool, isBlank], by simp [Config.writeBool], ?_⟩
    intro depth rest
    exact value?_of_head depth (by decide) (by decide) _

/-- Characters that stand for themselves are read up to the closing quote. -/
theorem basicString_append (hs : ∀ c ∈ s, isBasicChar c = true) (read rest : Text) :
    basicString read (s ++ '"' :: rest) = some (read.reverse ++ s, rest) := by
  induction s generalizing read with
  | nil => simp [basicString]
  | cons c s ih =>
    rw [List.forall_mem_cons] at hs
    have hq : c ≠ '"' := by
      rintro rfl
      exact absurd hs.1 (by decide)
    have he : c ≠ '\\' := by
      rintro rfl
      exact absurd hs.1 (by decide)
    rw [List.cons_append, basicString]
    · rw [if_pos hs.1, ih hs.2]
      simp
    · exact hq
    · exact fun h => absurd h he

theorem writes_string (hs : ∀ c ∈ s, isBasicChar c = true) (hne : s ≠ []) :
    Writes ('"' :: (s ++ ['"'])) (.string s) := by
  refine ⟨by simp [isBlank], by simp, ?_⟩
  intro depth rest
  obtain ⟨c, s, rfl⟩ := List.exists_cons_of_ne_nil hne
  have hq : c ≠ '"' := by
    rintro rfl
    exact absurd (hs _ List.mem_cons_self) (by decide)
  have hb := basicString_append hs [] ('\n' :: rest)
  have hr : string? ('"' :: (c :: s ++ '"' :: '\n' :: rest)) = some (c :: s, '\n' :: rest) := by
    rw [List.cons_append] at hb
    simpa [string?, hq] using hb
  have hw : '"' :: (c :: s ++ ['"']) ++ '\n' :: rest = '"' :: (c :: s ++ '"' :: '\n' :: rest) := by
    simp
  rw [hw, value?_of_head depth (by decide) (by decide), scalar?.eq_def]
  simp only [hr]
  rfl

/-! ### Integers -/

/-- A numeral is taken up to the first character that is neither a digit nor `_`. -/
theorem moreDigits_append (hs : ∀ c ∈ s, c.isDigit = true) (hd : d.isDigit = false) (hu : d ≠ '_')
    (read : Text) :
    moreDigits Char.isDigit read (s ++ d :: rest) = some (read.reverse ++ s, d :: rest) := by
  induction s generalizing read with
  | nil => simp [moreDigits, hd, hu]
  | cons c s ih =>
    rw [List.forall_mem_cons] at hs
    have hc : c ≠ '_' := ne_of_isDigit hs.1 rfl
    simp [moreDigits, hc, hs.1, ih hs.2]

/-- The numeral of a number that is not zero is digits, and the first one is not a zero. -/
theorem exists_decimal_of_ne_zero (hn : n ≠ 0) :
    ∃ c s, Text.decimal n = c :: s ∧ c ≠ '0' ∧ c.isDigit = true ∧ ∀ e ∈ s, e.isDigit = true := by
  obtain ⟨c, s, hs, hc⟩ := exists_decimal n
  refine ⟨c, s, hs, ?_, hc, ?_⟩
  · rintro rfl
    have hh := head?_toDigits (by decide : 1 < 10) hn
    rw [← Text.decimal, hs] at hh
    exact hh rfl
  · intro e he
    apply isDigit_of_mem_decimal (n := n)
    rw [hs]
    exact List.mem_cons_of_mem c he

/-- Nothing follows a leading zero in a numeral. -/
theorem wholeDigits?_decimal (n : Nat) (hd : d.isDigit = false) (hu : d ≠ '_') (rest : Text) :
    wholeDigits? (Text.decimal n ++ d :: rest) = some (Text.decimal n, d :: rest) := by
  by_cases hn : n = 0
  · subst hn
    rfl
  · obtain ⟨c, s, hs, hz, hc, hall⟩ := exists_decimal_of_ne_zero hn
    rw [hs, List.cons_append]
    simp [wholeDigits?, hz, digits?, hc, moreDigits_append hall hd hu]

theorem char?_eq_some (h : char? c t = some rest) : t = c :: rest := by
  cases t with
  | nil => cases h
  | cons d t =>
    rw [char?] at h
    split_ifs at h with hd
    rw [hd, Option.some.inj h]

theorem exists_of_field? (h : field? k lo hi t = some (n, rest)) :
    ∃ digits, t = digits ++ rest ∧ ∀ c ∈ digits, c.isDigit = true := by
  simp only [field?] at h
  split_ifs at h with hc
  obtain ⟨-, rfl⟩ := Prod.mk.inj (Option.some.inj h)
  refine ⟨t.take k, (List.take_append_drop k t).symm, ?_⟩
  simp only [Bool.and_eq_true, List.all_eq_true] at hc
  exact hc.1.1.2

/-- Digits with some other character behind them are not a field that a given one ends. -/
theorem field?_bind_char? (hs : ∀ c ∈ s, c.isDigit = true) (hd : d.isDigit = false)
    (hc : c.isDigit = false) (hne : d ≠ c) (k lo hi : Nat) (rest : Text) :
    ((field? k lo hi (s ++ d :: rest)).bind fun (_, t) => char? c t) = none := by
  rw [Option.bind_eq_none_iff]
  rintro ⟨v, t⟩ hf
  obtain ⟨digits, ht, hdigits⟩ := exists_of_field? hf
  rw [Option.eq_none_iff_forall_ne_some]
  intro r hr
  obtain rfl := char?_eq_some hr
  -- The field may have fewer digits than there are, but then no digit ends it.
  have he (c : Char) (t : Text) (h : c.isDigit = false) :
      ∀ e ∈ (c :: t).head?, e.isDigit = false := by
    simpa using h
  have hl := dropWhile_append_eq hs (he d rest hd)
  rw [ht, dropWhile_append_eq hdigits (he c r hc)] at hl
  exact hne (List.cons.inj hl).1.symm

theorem numberOrDate?_decimal (n : Nat) (rest : Text) :
    numberOrDate? (Text.decimal n ++ '\n' :: rest) = number? (Text.decimal n ++ '\n' :: rest) := by
  have hn : ∀ c ∈ Text.decimal n, c.isDigit = true := fun c => isDigit_of_mem_decimal
  have hdate : startsDate (Text.decimal n ++ '\n' :: rest) = false := by
    rw [startsDate, field?_bind_char? hn rfl rfl (by decide)]
    rfl
  have htime : startsTime (Text.decimal n ++ '\n' :: rest) = false := by
    rw [startsTime, field?_bind_char? hn rfl rfl (by decide)]
    rfl
  simp [numberOrDate?, hdate, htime]

theorem decimalNumber?_decimal (h : n ≤ largestInteger) (rest : Text) :
    decimalNumber? false (Text.decimal n ++ '\n' :: rest) = some (.integer n, '\n' :: rest) := by
  have hw := wholeDigits?_decimal n (d := '\n') rfl (by decide) rest
  have hi : integer? (n : Int) = some (.integer n) := by
    rw [integer?, if_pos ⟨by omega, by omega⟩]
  simp [decimalNumber?, hw, decimalValue_decimal, hi]

theorem number?_decimal (h : n ≤ largestInteger) (rest : Text) :
    number? (Text.decimal n ++ '\n' :: rest) = some (.integer n, '\n' :: rest) := by
  have hd := decimalNumber?_decimal h rest
  by_cases hn : n = 0
  · subst hn
    exact hd
  · obtain ⟨c, s, hs, hz, hc, -⟩ := exists_decimal_of_ne_zero hn
    have hplus : c ≠ '+' := ne_of_isDigit hc rfl
    have hminus : c ≠ '-' := ne_of_isDigit hc rfl
    have hinf : c ≠ 'i' := ne_of_isDigit hc rfl
    have hnan : c ≠ 'n' := ne_of_isDigit hc rfl
    rw [hs, List.cons_append] at hd ⊢
    simp [number?, Decimal.splitSign, hz, hplus, hminus, hinf, hnan, hd]

theorem writes_integer (h : n ≤ largestInteger) : Writes (Text.decimal n) (.integer n) := by
  obtain ⟨c, s, hs, hc⟩ := exists_decimal n
  have hr (rest : Text) := (numberOrDate?_decimal n rest).trans (number?_decimal h rest)
  rw [hs] at hr ⊢
  refine ⟨by simpa using isBlank_of_isDigit hc, List.cons_ne_nil c s, ?_⟩
  intro depth rest
  have ht : c ≠ 't' := ne_of_isDigit hc rfl
  have hf : c ≠ 'f' := ne_of_isDigit hc rfl
  have hq : c ≠ '"' := ne_of_isDigit hc rfl
  have ha : c ≠ '\x27' := ne_of_isDigit hc rfl
  rw [List.cons_append, value?_of_head depth (ne_of_isDigit hc rfl) (ne_of_isDigit hc rfl),
    ← hr rest, List.cons_append]
  simp [scalar?, ht, hf, hq, ha]

end LexCalc.Toml
