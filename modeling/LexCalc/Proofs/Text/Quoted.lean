import LexCalc.Proofs.Natural.Canonical
import LexCalc.Proofs.Text.Runs
import LexCalc.Text.Quoted

/-! A quoted text can be read back, and where it ends can be seen. -/
namespace LexCalc.Text
variable {quote c : Char} {s t u x y : Text}

/-- A printed character of ASCII that has no meaning of its own between two `quote` characters. -/
def Plain (quote c : Char) : Prop :=
  0x20 ≤ c.toNat ∧ c.toNat < 0x7f ∧ c ≠ '\\' ∧ c ≠ quote

/-- The ways to write a character between two `quote` characters. One that is plain has no other way
than to stand there itself. -/
inductive Spells (quote : Char) : Char → Text → Prop
  | named {c d : Char} (h : (c, d) ∈ [('\x00', '0'), ('\t', 't'), ('\n', 'n'), ('\r', 'r'),
      ('\\', '\\'), (quote, quote)]) : Spells quote c ['\\', d]
  | code {c : Char} (h : ¬ Plain quote c) :
      Spells quote c (['\\', 'u', '{'] ++ Nat.toDigits 16 c.toNat ++ ['}'])
  | self {c : Char} (hb : c ≠ '\\') (hq : c ≠ quote) (hc : 0x20 ≤ c.toNat) : Spells quote c [c]

/-- A text with each of its characters written so that it can stand between two `quote`
characters. -/
inductive Spelling (quote : Char) : Text → Text → Prop
  | nil : Spelling quote [] []
  | cons {c : Char} {t u x : Text} (h : Spells quote c u) (ht : Spelling quote t x) :
      Spelling quote (c :: t) (u ++ x)

/-- The character whose escape, or which itself, is at the front. -/
def unescape? : Text → Option (Char × Text)
  | '\\' :: '0' :: t => some ('\x00', t)
  | '\\' :: 't' :: t => some ('\t', t)
  | '\\' :: 'n' :: t => some ('\n', t)
  | '\\' :: 'r' :: t => some ('\r', t)
  | '\\' :: 'u' :: '{' :: t =>
    some (Char.ofNat (Natural.hexNumber (t.takeWhile (· ≠ '}')).reverse),
      (t.dropWhile (· ≠ '}')).tail)
  | '\\' :: c :: t => some (c, t)
  | c :: t => some (c, t)
  | [] => none

theorem unescape?_code (c : Char) (t : Text) :
    unescape? (['\\', 'u', '{'] ++ Nat.toDigits 16 c.toNat ++ ['}'] ++ t) = some (c, t) := by
  have hd : ∀ d ∈ Nat.toDigits 16 c.toNat, decide (d ≠ '}') = true := by
    intro d hd
    obtain ⟨n, hn, rfl⟩ := Natural.exists_of_mem_toDigits hd
    have hne : ∀ n < 16, n.digitChar ≠ '}' := by decide
    exact decide_eq_true (hne n hn)
  have he : ∀ d ∈ ('}' :: t).head?, decide (d ≠ '}') = false := by simp
  have hn := Natural.hexNumber_toDigits false c.toNat
  rw [Natural.map_letterCase_toDigits] at hn
  have ht : ['\\', 'u', '{'] ++ Nat.toDigits 16 c.toNat ++ ['}'] ++ t =
      '\\' :: 'u' :: '{' :: (Nat.toDigits 16 c.toNat ++ '}' :: t) := by simp
  rw [ht, unescape?, takeWhile_append_eq hd he, dropWhile_append_eq hd he, hn, Char.ofNat_toNat,
    List.tail_cons]

/-- A written character is told from what follows it. -/
theorem unescape?_spells (hq : quote = '"' ∨ quote = '\x27') (h : Spells quote c u) (t : Text) :
    unescape? (u ++ t) = some (c, t) := by
  cases h with
  | named h =>
    simp only [List.mem_cons, List.not_mem_nil, or_false, Prod.mk.injEq] at h
    rcases hq with rfl | rfl <;>
      rcases h with ⟨rfl, rfl⟩ | ⟨rfl, rfl⟩ | ⟨rfl, rfl⟩ | ⟨rfl, rfl⟩ | ⟨rfl, rfl⟩ | ⟨rfl, rfl⟩ <;>
        rfl
  | code => exact unescape?_code c t
  | self hb =>
    rw [List.singleton_append, unescape?]
    all_goals simp_all

/-- Of the characters up to `~` the tables hold those before the space. -/
theorem isUnprintable_iff (h : c.toNat < 0x7f) : isUnprintable c = true ↔ c.toNat < 0x20 := by
  have hr : ∀ part ∈ Unprintable.ranges, ∀ r ∈ part, r.2 < 0x20 ∨ 0x7f ≤ r.1 := by
    decide +kernel
  simp only [isUnprintable, List.any_eq_true, Bool.and_eq_true, decide_eq_true_eq]
  constructor
  · rintro ⟨part, hpart, r, hm, hlo, hhi⟩
    have := hr part hpart r hm
    omega
  · intro hc
    exact ⟨Unprintable.belowKana, List.mem_cons_self, (0x0, 0x1f), List.mem_cons_self, Nat.zero_le _,
      Nat.le_of_lt_succ hc⟩

theorem isGraphemeExtend_eq_false (h : c.toNat < 0x7f) : isGraphemeExtend c = false := by
  have hb : ∀ r ∈ GraphemeExtend.basicPlane, 0x7f ≤ r.1 := by decide +kernel
  have ho : ∀ r ∈ GraphemeExtend.otherPlanes, 0x7f ≤ r.1 := by decide +kernel
  rw [isGraphemeExtend, Bool.or_eq_false_iff, List.any_eq_false, List.any_eq_false]
  refine ⟨fun r hr => ?_, fun r hr => ?_⟩
  · have := hb r hr
    simp only [Bool.and_eq_true, decide_eq_true_eq]
    omega
  · have := ho r hr
    simp only [Bool.and_eq_true, decide_eq_true_eq]
    omega

theorem needsCode_iff (h : c.toNat < 0x7f) : needsCode c = true ↔ c.toNat < 0x20 := by
  have hf : isFiller c = false := by
    have ha : ∀ d ∈ ['\u115f', '\u1160', '\u3164', '\uffa0'], 0x7f ≤ d.toNat := by simp
    rw [isFiller, ← Bool.not_eq_true, List.contains_iff_mem]
    exact fun hm => Nat.not_lt.mpr (ha c hm) h
  rw [needsCode, hf, isGraphemeExtend_eq_false h, Bool.false_or, Bool.false_and, Bool.or_false,
    isUnprintable_iff h]

theorem spells_escape (quote c : Char) : Spells quote c (escape quote c) := by
  rw [escape]
  split_ifs with h1 h2 h3 h4 h5 h6 h7
  · exact .named (by simp [h1])
  · exact .named (by simp [h2])
  · exact .named (by simp [h3])
  · exact .named (by simp [h4])
  · exact .named (by simp [h5])
  · exact .named (by simp [h6])
  · refine .code fun ⟨hlo, hhi, _⟩ => ?_
    exact Nat.not_lt.mpr hlo ((needsCode_iff hhi).mp h7)
  · refine .self h5 h6 (Nat.not_lt.mp fun hc => h7 ?_)
    exact (needsCode_iff (Nat.lt_trans hc (by decide))).mpr hc

theorem spelling_escape (quote : Char) (t : Text) :
    Spelling quote t (t.flatMap (escape quote)) := by
  induction t with
  | nil => exact .nil
  | cons c t ih => exact .cons (spells_escape quote c) ih

theorem ofList_quoted (t : Text) : String.ofList t.quoted =
    "\"" ++ String.ofList (t.flatMap (escape '"')) ++ "\"" := by
  rw [quoted, ← String.toList_inj]
  simp only [String.toList_append, String.toList_ofList]
  rfl

theorem ofList_quotedChar (c : Char) : String.ofList (quotedChar c) =
    "'" ++ String.ofList (escape '\x27' c) ++ "'" := by
  rw [quotedChar, ← String.toList_inj]
  simp only [String.toList_append, String.toList_ofList]
  rfl

/-- What is written between quotes can be read back in one way only. -/
theorem Spelling.unique (hq : quote = '"' ∨ quote = '\x27') (hs : Spelling quote s x)
    (ht : Spelling quote t x) : s = t := by
  induction hs generalizing t with
  | nil =>
    generalize hx : ([] : Text) = x at ht
    cases ht with
    | nil => rfl
    | @cons d t v y hd ht =>
      have hu := unescape?_spells hq hd y
      rw [← hx] at hu
      cases hu
  | @cons c s u x hc _ ih =>
    generalize hx : u ++ x = w at ht
    have hu := unescape?_spells hq hc x
    cases ht with
    | nil =>
      rw [hx] at hu
      cases hu
    | @cons d t v y hd ht =>
      rw [hx, unescape?_spells hq hd y] at hu
      cases hu
      rw [ih ht]

/-- Plain characters stand between quotes as they are. -/
theorem Spelling.eq_of_plain (hs : ∀ c ∈ s, Plain quote c) (h : Spelling quote s x) : x = s := by
  induction h with
  | nil => rfl
  | @cons c t u x hc _ ih =>
    rw [List.forall_mem_cons] at hs
    obtain ⟨hp, ht⟩ := hs
    rw [ih ht]
    cases hc with
    | named h =>
      simp only [List.mem_cons, List.not_mem_nil, or_false, Prod.mk.injEq] at h
      obtain ⟨hlo, hhi, hb, hq⟩ := hp
      rcases h with ⟨rfl, -⟩ | ⟨rfl, -⟩ | ⟨rfl, -⟩ | ⟨rfl, -⟩ | ⟨rfl, -⟩ | ⟨rfl, -⟩
      all_goals first
        | exact absurd rfl hb
        | exact absurd rfl hq
        | exact absurd hlo (by decide)
    | code h => exact absurd hp h
    | self => rfl

theorem quoted_of_plain (h : ∀ c ∈ t, Plain '"' c) : quoted t = '"' :: (t ++ ['"']) := by
  rw [quoted, (spelling_escape '"' t).eq_of_plain h]

theorem quotedChar_of_plain (h : Plain '\x27' c) : quotedChar c = ['\x27', c, '\x27'] := by
  have he := (spelling_escape '\x27' [c]).eq_of_plain (by simpa using h)
  rw [List.flatMap_singleton] at he
  rw [quotedChar, he]
  rfl

theorem unescape?_escape (c : Char) (t : Text) : unescape? (escape '"' c ++ t) = some (c, t) :=
  unescape?_spells (.inl rfl) (spells_escape '"' c) t

/-- No escape starts like the closing quote. -/
theorem exists_escape (c : Char) : ∃ d u, escape '"' c = d :: u ∧ '"' ≠ d := by
  rw [escape]
  split_ifs with h1 h2 h3 h4 h5 h6 h7
  all_goals first
    | exact ⟨_, _, rfl, by decide⟩
    | exact ⟨_, _, rfl, Ne.symm h6⟩

theorem newline_notMem_escape (c : Char) : '\n' ∉ escape '"' c := by
  have hd : '\n' ∉ Nat.toDigits 16 c.toNat := by
    intro h
    obtain ⟨n, hn, he⟩ := Natural.exists_of_mem_toDigits h
    have hne : ∀ n < 16, '\n' ≠ n.digitChar := by decide
    exact hne n hn he
  rw [escape]
  split_ifs with h1 h2 h3 h4 h5 h6 h7
  all_goals first
    | decide
    | exact fun h => h3 (List.mem_singleton.mp h).symm
    | simp [hd]

/-- A quoted text stands on one line. -/
theorem newline_notMem_quoted (t : Text) : '\n' ∉ quoted t := by
  simp [quoted, newline_notMem_escape]

/-- The first quote that no escape has is the closing one. -/
theorem escaped_append_inj
    (h : s.flatMap (escape '"') ++ '"' :: x = t.flatMap (escape '"') ++ '"' :: y) :
    s = t ∧ x = y := by
  induction s generalizing t with
  | nil =>
    cases t with
    | nil => exact ⟨rfl, (List.cons.inj h).2⟩
    | cons c t =>
      obtain ⟨d, u, he, hd⟩ := exists_escape c
      rw [List.flatMap_cons, he] at h
      exact absurd (List.cons.inj h).1 hd
  | cons c s ih =>
    cases t with
    | nil =>
      obtain ⟨d, u, he, hd⟩ := exists_escape c
      rw [List.flatMap_cons, he] at h
      exact absurd (List.cons.inj h).1.symm hd
    | cons d t =>
      have hu := congrArg unescape? h
      rw [List.flatMap_cons, List.flatMap_cons, List.append_assoc, List.append_assoc,
        unescape?_escape, unescape?_escape, Option.some.injEq, Prod.mk.injEq] at hu
      obtain ⟨rfl, hr⟩ := hu
      obtain ⟨rfl, rfl⟩ := ih hr
      exact ⟨rfl, rfl⟩

theorem quoted_append_inj (h : quoted s ++ x = quoted t ++ y) : s = t ∧ x = y := by
  apply escaped_append_inj
  simpa [quoted] using h

end LexCalc.Text
