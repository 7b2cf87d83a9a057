import LexCalc.Proofs.Text.Runs
import LexCalc.Proofs.Token.Grammar

/-! The scanner finds the trivia and the token that the grammar asks for, and nothing else. -/
namespace LexCalc
variable {c : Char} {s t : Text} {n : Nat}

namespace Trivia

theorem le_of_blockLength? {m : Nat} (h : blockLength? n t = some m) : n + 2 ≤ m := by
  fun_induction blockLength? n t with
  | case1 => exact Nat.le_of_eq (Option.some.inj h)
  | case2 n c t _ ih => exact Nat.le_trans (Nat.succ_le_succ (Nat.le_succ _)) (ih h)
  | case3 => cases h

theorem blockLength?_eq_none : blockLength? n t = none ↔ ¬ ['*', '/'] <:+: t := by
  fun_induction blockLength? n t with
  | case1 n t => simp [List.infix_cons_iff]
  | case2 n c t hc ih =>
    have hp : ¬ ['*', '/'] <+: c :: t := by
      rintro ⟨t', ht⟩
      cases ht
      exact hc t' rfl rfl
    rw [ih, List.infix_cons_iff]
    simp [hp]
  | case3 => simp

/-- A piece of trivia is cut off unless there is none. -/
theorem pieceLength_eq_zero : pieceLength t = 0 ↔ Clear t := by
  unfold pieceLength
  split
  · next t =>
    constructor
    · intro h
      simp at h
    · intro h
      exact absurd ⟨t, rfl⟩ h.line
  · next t =>
    have hb : (blockLength? 2 t).getD 0 = 0 ↔ blockLength? 2 t = none := by
      cases h : blockLength? 2 t with
      | none => simp
      | some m =>
        have := le_of_blockLength? h
        simp
        omega
    rw [hb, blockLength?_eq_none]
    constructor
    · intro h
      refine ⟨by simp [Blank], by simp, ?_⟩
      rintro body hbody
      cases hbody
      exact h
    · intro h
      exact h.block t rfl
  · next hl hc =>
    have hb : (t.takeWhile isSpace).length = 0 ↔ ∀ c ∈ t.head?, ¬ Blank c := by
      cases t with
      | nil => simp
      | cons d t =>
        by_cases hd : isSpace d = true <;>
          simp [hd, ← isSpace_iff]
    rw [hb]
    constructor
    · intro h
      refine ⟨h, ?_, ?_⟩
      · rintro ⟨t', rfl⟩
        exact hl t' rfl
      · rintro body rfl
        exact (hc body rfl).elim
    · exact Clear.blank

theorem clear_nil : Clear [] := ⟨by simp, by simp, by simp⟩

theorem clear_cons (hb : ¬ Blank c) (h : c = '/' → ∀ d ∈ t.head?, d ≠ '/' ∧ d ≠ '*') :
    Clear (c :: t) := by
  refine ⟨by simpa using hb, ?_, ?_⟩
  · rintro ⟨t', ht⟩
    cases ht
    exact (h rfl '/' rfl).1 rfl
  · rintro body ht
    cases ht
    exact ((h rfl '*' rfl).2 rfl).elim

/-- Behind a slash that opens no block comment, nothing makes a comment of it. -/
theorem second_of_clear (h : Clear (c :: t)) (hc : ¬ (c = '/' ∧ ∃ body, t = '*' :: body)) :
    c = '/' → ∀ d ∈ t.head?, d ≠ '/' ∧ d ≠ '*' := by
  rintro rfl d hd
  obtain ⟨t', rfl⟩ := List.head?_eq_some_iff.mp hd
  constructor
  · rintro rfl
    exact h.line ⟨t', rfl⟩
  · rintro rfl
    exact hc ⟨rfl, t', rfl⟩

theorem skip_of_clear (skipped : Text) (h : Clear t) : skip skipped t = (skipped.reverse, t) := by
  rw [skip, if_pos (Or.inl (pieceLength_eq_zero.mpr h))]

theorem skip_of_not_clear (skipped : Text) (h : ¬ Clear t) :
    skip skipped t =
      skip ((t.take (pieceLength t)).reverseAux skipped) (t.drop (pieceLength t)) := by
  have hn : ¬ (pieceLength t = 0 ∨ t = []) := by
    rintro (hp | rfl)
    · exact h (pieceLength_eq_zero.mp hp)
    · exact h clear_nil
  rw [skip, if_neg hn]

/-- Cutting off one piece after another comes to a clear text. -/
theorem piece_induction {motive : Text → Prop} (clear : ∀ t, Clear t → motive t)
    (piece : ∀ t, ¬ Clear t → motive (t.drop (pieceLength t)) → motive t) (t : Text) :
    motive t := by
  by_cases h : Clear t
  · exact clear t h
  · have hn : pieceLength t ≠ 0 := fun hp => h (pieceLength_eq_zero.mp hp)
    have ht : 0 < t.length := by
      apply List.length_pos_iff.mpr
      rintro rfl
      exact h clear_nil
    exact piece t h (piece_induction clear piece (t.drop (pieceLength t)))
termination_by t.length
decreasing_by
  rw [List.length_drop]
  omega

/-- What is cut off already only stands in front of what is still to be cut off. -/
theorem skip_eq (skipped t : Text) :
    skip skipped t = (skipped.reverse ++ (split t).1, (split t).2) := by
  unfold split
  induction t using piece_induction generalizing skipped with
  | clear t h =>
    rw [skip_of_clear skipped h, skip_of_clear [] h]
    simp
  | piece t h ih =>
    rw [skip_of_not_clear skipped h, skip_of_not_clear [] h, ih,
      ih ((t.take (pieceLength t)).reverseAux [])]
    simp

theorem split_of_clear (h : Clear t) : split t = ([], t) := skip_of_clear [] h

theorem split_of_not_clear (h : ¬ Clear t) :
    split t = (t.take (pieceLength t) ++ (split (t.drop (pieceLength t))).1,
      (split (t.drop (pieceLength t))).2) := by
  rw [split, skip_of_not_clear [] h, skip_eq]
  simp

theorem split_append (t : Text) : (split t).1 ++ (split t).2 = t := by
  induction t using piece_induction with
  | clear t h =>
    rw [split_of_clear h]
    rfl
  | piece t h ih => rw [split_of_not_clear h, List.append_assoc, ih, List.take_append_drop]

theorem clear_split (t : Text) : Clear (split t).2 := by
  induction t using piece_induction with
  | clear t h =>
    rw [split_of_clear h]
    exact h
  | piece t h ih =>
    rw [split_of_not_clear h]
    exact ih

theorem pieceLength_of_blank (hc : Blank c) (t : Text) :
    pieceLength (c :: t) = ((c :: t).takeWhile isSpace).length := by
  unfold pieceLength
  split
  · next h =>
    cases h
    simp [Blank] at hc
  · next h =>
    cases h
    simp [Blank] at hc
  · rfl

end Trivia

theorem not_wordStart_of_blank (h : Blank c) : ¬ WordStart c := by
  simp only [Blank, List.mem_cons, List.not_mem_nil, or_false] at h
  rcases h with rfl | rfl | rfl | rfl | rfl | rfl <;> decide

theorem not_digit_of_blank (h : Blank c) : ¬ Digit c := by
  simp only [Blank, List.mem_cons, List.not_mem_nil, or_false] at h
  rcases h with rfl | rfl | rfl | rfl | rfl | rfl <;> decide

theorem not_wordPart_of_blank (h : Blank c) : ¬ WordPart c := by
  rintro (hw | hd)
  · exact not_wordStart_of_blank h hw
  · exact not_digit_of_blank h hd

theorem not_pair_of_blank {d : Char} (h : Blank d) (c : Char) (k : Kind) :
    ((c, d), k) ∉ Kind.pairs := by
  have hp : ∀ p ∈ Kind.pairs, ¬ Blank p.1.2 := by decide
  exact fun hk => hp _ hk h

theorem not_comment_of_blank {d : Char} (h : Blank d) : d ≠ '/' ∧ d ≠ '*' := by
  constructor
  · rintro rfl
    exact absurd h (by decide)
  · rintro rfl
    exact absurd h (by decide)

theorem not_wordStart_of_digit (h : Digit c) : ¬ WordStart c := by
  simp only [Digit, WordStart, Char.le_def, UInt32.le_iff_toNat_le, ← Char.toNat_inj] at *
  have := h
  simp at *
  omega

namespace Value

/-- The token is told by the class of its first character, unless it is a comment. -/
theorem split_cons (hc : ∀ body, c = '/' → t ≠ '*' :: body) :
    split (c :: t) =
      if isWordStart c then
        (wordKind (c :: t.takeWhile isWordPart), c :: t.takeWhile isWordPart,
          t.dropWhile isWordPart)
      else if c.isDigit then
        (.numericLiteral, c :: t.takeWhile Char.isDigit, t.dropWhile Char.isDigit)
      else if c = '"' then splitString t
      else splitOperator c t := split.eq_3 _ _ hc

theorem split_word (hc : WordStart c) (t : Text) :
    split (c :: t) =
      (wordKind (c :: t.takeWhile isWordPart), c :: t.takeWhile isWordPart,
        t.dropWhile isWordPart) := by
  rw [split_cons, if_pos (isWordStart_iff.mpr hc)]
  rintro body rfl
  exact absurd hc (by decide)

theorem split_number (hc : Digit c) (t : Text) :
    split (c :: t) =
      (.numericLiteral, c :: t.takeWhile Char.isDigit, t.dropWhile Char.isDigit) := by
  have hw := mt isWordStart_iff.mp (not_wordStart_of_digit hc)
  rw [split_cons, if_neg hw, if_pos (isDigit_iff.mpr hc)]
  rintro body rfl
  exact absurd hc (by decide)

theorem split_quote (t : Text) : split ('"' :: t) = splitString t := by
  rw [split_cons]
  · rfl
  · exact fun body h => absurd h (by decide)

theorem split_operator (hc : ∀ body, c = '/' → t ≠ '*' :: body) (hw : ¬ WordStart c)
    (hd : ¬ Digit c) (hq : c ≠ '"') : split (c :: t) = splitOperator c t := by
  rw [split_cons hc, if_neg (mt isWordStart_iff.mp hw), if_neg (mt isDigit_iff.mp hd), if_neg hq]

theorem splitOperator_pair {d : Char} {kind : Kind} (hk : ((c, d), kind) ∈ Kind.pairs)
    (t : Text) : splitOperator c (d :: t) = (kind, [c, d], t) := by
  simp [splitOperator, ofPair?_eq_some_iff.mpr hk]

theorem splitOperator_single (ht : ∀ d ∈ t.head?, ∀ k, ((c, d), k) ∉ Kind.pairs) :
    splitOperator c t = ((Kind.ofSingle? c).getD .invalid, [c], t) := by
  cases t with
  | nil => rfl
  | cons d t =>
    have hp : Kind.ofPair? c d = none := ofPair?_eq_none_iff.mpr (ht d rfl)
    simp [splitOperator, hp]

/-- An operator starts no token of another class. -/
theorem class_of_single {kind : Kind} (hk : (c, kind) ∈ Kind.singles) :
    ¬ Blank c ∧ ¬ WordStart c ∧ ¬ Digit c ∧ c ≠ '"' := by
  have h : ∀ p ∈ Kind.singles, ¬ Blank p.1 ∧ ¬ WordStart p.1 ∧ ¬ Digit p.1 ∧ p.1 ≠ '"' := by
    decide
  exact h _ hk

theorem single_of_pair {d : Char} {kind : Kind} (hk : ((c, d), kind) ∈ Kind.pairs) :
    ∃ k, (c, k) ∈ Kind.singles := by
  have h : ∀ p ∈ Kind.pairs, p.1.1 ∈ Kind.singles.map Prod.fst := by decide
  obtain ⟨⟨c', k⟩, hm, rfl⟩ := List.mem_map.mp (h _ hk)
  exact ⟨k, hm⟩

theorem second_of_pair {d : Char} {kind : Kind} (hk : ((c, d), kind) ∈ Kind.pairs) :
    c = '/' → d ≠ '/' ∧ d ≠ '*' := by
  have h : ∀ p ∈ Kind.pairs, p.1.1 = '/' → p.1.2 ≠ '/' ∧ p.1.2 ≠ '*' := by decide
  exact h _ hk

theorem lexeme_splitString (t : Text) :
    Lexeme (splitString t).1 (splitString t).2.1 (splitString t).2.2 := by
  have hb : '"' ∉ t.takeWhile (· ≠ '"') := fun h => by simpa using of_mem_takeWhile h
  unfold splitString
  split
  · next quote rest hr =>
    have hq : quote = '"' := by
      have h := of_mem_head?_dropWhile (c := quote) (t := t) (p := (· ≠ '"')) (by rw [hr]; rfl)
      simpa using h
    subst hq
    exact .string hb
  · next hr =>
    have ht := List.takeWhile_append_dropWhile (p := (· ≠ '"')) (l := t)
    rw [hr, List.append_nil] at ht
    rw [ht] at hb
    exact .openString hb

/-- Without trivia in front, the scanner cuts off a token of the grammar. -/
theorem lexeme_split (h : Clear t) : Lexeme (split t).1 (split t).2.1 (split t).2.2 := by
  cases t with
  | nil => exact .eof
  | cons c t =>
    by_cases hcom : c = '/' ∧ ∃ body, t = '*' :: body
    · obtain ⟨rfl, body, rfl⟩ := hcom
      exact .openComment (h.block body rfl)
    by_cases hw : WordStart c
    · rw [split_word hw]
      refine .word hw ?_ (wordKind_eq_iff.mp rfl) ?_
      · intro d hd
        exact isWordPart_iff.mp (of_mem_takeWhile hd)
      · intro d hd
        rw [← isWordPart_iff, of_mem_head?_dropWhile hd]
        exact Bool.false_ne_true
    by_cases hd : Digit c
    · rw [split_number hd]
      refine .number hd ?_ ?_
      · intro d hd
        exact isDigit_iff.mp (of_mem_takeWhile hd)
      · intro d hd
        rw [← isDigit_iff, of_mem_head?_dropWhile hd]
        exact Bool.false_ne_true
    by_cases hq : c = '"'
    · subst hq
      rw [split_quote]
      exact lexeme_splitString t
    rw [split_operator (fun body hc ht => hcom ⟨hc, body, ht⟩) hw hd hq]
    by_cases hp : ∃ d ∈ t.head?, ∃ k, ((c, d), k) ∈ Kind.pairs
    · obtain ⟨d, hd, k, hk⟩ := hp
      obtain ⟨t', rfl⟩ := List.head?_eq_some_iff.mp hd
      rw [splitOperator_pair hk]
      exact .pair hk
    have hn : ∀ d ∈ t.head?, ∀ k, ((c, d), k) ∉ Kind.pairs :=
      fun d hd k hk => hp ⟨d, hd, k, hk⟩
    rw [splitOperator_single hn]
    cases hs : Kind.ofSingle? c with
    | none => exact .invalid (h.blank c rfl) hw hd hq (ofSingle?_eq_none_iff.mp hs)
    | some k =>
      exact .single (ofSingle?_eq_some_iff.mp hs) hn (Trivia.second_of_clear h hcom)

theorem split_lexeme {kind : Kind} {value rest : Text} (h : Lexeme kind value rest) :
    split (value ++ rest) = (kind, value, rest) := by
  cases h with
  | eof => rfl
  | @word c w _ _ hc hw hk hr =>
    have hw' : ∀ d ∈ w, isWordPart d = true := fun d hd => isWordPart_iff.mpr (hw d hd)
    have hr' : ∀ d ∈ rest.head?, isWordPart d = false := by
      intro d hd
      rw [← Bool.not_eq_true, isWordPart_iff]
      exact hr d hd
    rw [List.cons_append, split_word hc, takeWhile_append_eq hw' hr', dropWhile_append_eq hw' hr',
      wordKind_eq_iff.mpr hk]
  | @number c w _ hc hw hr =>
    have hw' : ∀ d ∈ w, d.isDigit = true := fun d hd => isDigit_iff.mpr (hw d hd)
    have hr' : ∀ d ∈ rest.head?, d.isDigit = false := by
      intro d hd
      rw [← Bool.not_eq_true, isDigit_iff]
      exact hr d hd
    rw [List.cons_append, split_number hc, takeWhile_append_eq hw' hr',
      dropWhile_append_eq hw' hr']
  | @string body _ hb =>
    have hb' : ∀ d ∈ body, decide (d ≠ '"') = true := by
      intro d hd
      exact decide_eq_true (fun he => hb (he ▸ hd))
    rw [List.cons_append, split_quote, List.append_assoc, splitString,
      takeWhile_append_eq hb' (by simp), dropWhile_append_eq hb' (by simp)]
    rfl
  | @openString body hb =>
    have hb' : body.dropWhile (· ≠ '"') = [] := by
      have h := dropWhile_append_eq (s := body) (t := []) (p := (· ≠ '"'))
        (fun d hd => decide_eq_true (fun he => hb (he ▸ hd))) (by simp)
      rwa [List.append_nil] at h
    rw [List.append_nil, split_quote, splitString, hb']
  | openComment hb => rw [List.append_nil]; rfl
  | pair hk =>
    obtain ⟨k, hs⟩ := single_of_pair hk
    obtain ⟨-, hw, hd, hq⟩ := class_of_single hs
    rw [List.cons_append, split_operator _ hw hd hq]
    · exact splitOperator_pair hk rest
    · intro body hc ht
      exact (second_of_pair hk hc).2 (List.cons.inj ht).1
  | single hk hp hs =>
    obtain ⟨-, hw, hd, hq⟩ := class_of_single hk
    rw [List.cons_append, List.nil_append, split_operator _ hw hd hq, splitOperator_single hp,
      ofSingle?_eq_some_iff.mpr hk]
    · rfl
    · rintro body hc rfl
      exact (hs hc '*' rfl).2 rfl
  | @invalid c _ hb hw hd hq hs =>
    have hp : ∀ d ∈ rest.head?, ∀ k, ((c, d), k) ∉ Kind.pairs := by
      intro d _ k hk
      obtain ⟨k', hk'⟩ := single_of_pair hk
      exact hs k' hk'
    have hn : Kind.ofSingle? c = none := ofSingle?_eq_none_iff.mpr hs
    rw [List.cons_append, List.nil_append, split_operator _ hw hd hq, splitOperator_single hp, hn]
    · rfl
    · rintro body rfl
      exact (hs .slash (by decide)).elim

/-- A token of the grammar does not start with trivia. -/
theorem clear_of_lexeme {kind : Kind} {value rest : Text} (h : Lexeme kind value rest) :
    Clear (value ++ rest) := by
  cases h with
  | eof => exact Trivia.clear_nil
  | word hc =>
    apply Trivia.clear_cons
    · exact fun hb => not_wordStart_of_blank hb hc
    · rintro rfl
      exact absurd hc (by decide)
  | number hc =>
    apply Trivia.clear_cons
    · exact fun hb => not_digit_of_blank hb hc
    · rintro rfl
      exact absurd hc (by decide)
  | string => exact Trivia.clear_cons (by decide) (by simp)
  | openString => exact Trivia.clear_cons (by decide) (by simp)
  | openComment hb =>
    rw [List.append_nil]
    refine ⟨by simp [Blank], by simp, ?_⟩
    rintro body hbody
    cases hbody
    exact hb
  | pair hk =>
    obtain ⟨k, hs⟩ := single_of_pair hk
    apply Trivia.clear_cons (class_of_single hs).1
    rintro rfl d hd
    cases hd
    exact second_of_pair hk rfl
  | single hk _ hs => exact Trivia.clear_cons (class_of_single hk).1 hs
  | invalid hb _ _ _ hs =>
    apply Trivia.clear_cons hb
    rintro rfl
    exact (hs .slash (by decide)).elim

theorem splitString_append (t : Text) :
    (splitString t).2.1 ++ (splitString t).2.2 = '"' :: t := by
  have ht := List.takeWhile_append_dropWhile (p := (· ≠ '"')) (l := t)
  unfold splitString
  split
  · next quote rest hr =>
    rw [hr] at ht
    simpa using ht
  · exact List.append_nil _

theorem splitOperator_append (c : Char) (t : Text) :
    (splitOperator c t).2.1 ++ (splitOperator c t).2.2 = c :: t := by
  unfold splitOperator
  split
  · split <;> rfl
  · rfl

theorem split_append (t : Text) : (split t).2.1 ++ (split t).2.2 = t := by
  unfold split
  split
  · rfl
  · exact List.append_nil _
  · next c t _ =>
    split
    · simp [List.takeWhile_append_dropWhile]
    · split
      · simp [List.takeWhile_append_dropWhile]
      · split
        · next hq =>
          rw [hq]
          exact splitString_append t
        · exact splitOperator_append c t

end Value

namespace Scan

theorem lexeme_ofText (t : Text) : Lexeme (ofText t).kind (ofText t).value (ofText t).rest :=
  Value.lexeme_split (Trivia.clear_split t)

/-- Trivia, token and rest are the whole text. -/
theorem ofText_append (t : Text) :
    (ofText t).trivia ++ ((ofText t).value ++ (ofText t).rest) = t := by
  change (Trivia.split t).1 ++ ((Value.split (Trivia.split t).2).2.1 ++
    (Value.split (Trivia.split t).2).2.2) = t
  rw [Value.split_append, Trivia.split_append]

end Scan

end LexCalc
