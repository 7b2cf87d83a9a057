import LexCalc.Proofs.Token.Reading

/-! A scanner of single characters that knows only whether it stands in code, in a comment or in a
string. It finds the malformed tokens that the lexer finds. -/
namespace LexCalc
variable {c d : Char} {s t rest value : Text} {kind : Kind} {b n : Nat}

/-- Where the scanner stands. Block comments and strings remember the byte where they start. -/
inductive Mode where
  | code
  | line
  | block (start : Nat)
  | str (start : Nat)
  deriving DecidableEq

/-- A character that no token but a malformed one holds outside of strings. -/
def Bad (c : Char) : Prop := ¬ Blank c ∧ ¬ WordPart c ∧ c ∉ Kind.singles.map Prod.fst

instance : DecidablePred Bad := fun _ => inferInstanceAs (Decidable (_ ∧ _))

/-- Goes over a text that starts at byte `n`: the mode at its end, and the number of bad
characters in code. -/
def survey : Mode → Nat → Text → Mode × Nat
  | mode, _, [] => (mode, 0)
  | .code, n, '/' :: '/' :: t => survey .line (n + 2) t
  | .code, n, '/' :: '*' :: t => survey (.block n) (n + 2) t
  | .code, n, '"' :: t => survey (.str n) (n + 1) t
  | .code, n, c :: t =>
    let (mode, bad) := survey .code (n + c.utf8Size) t
    (mode, bad + if Bad c then 1 else 0)
  | .line, n, c :: t => survey (if c = '\n' then .code else .line) (n + c.utf8Size) t
  | .block _, n, '*' :: '/' :: t => survey .code (n + 2) t
  | .block b, n, c :: t => survey (.block b) (n + c.utf8Size) t
  | .str b, n, c :: t => survey (if c = '"' then .code else .str b) (n + c.utf8Size) t

/-- What is left open in a mode: the kind of token, and where it starts. -/
def Mode.opened : Mode → Option (Kind × Nat)
  | .code | .line => none
  | .block b => some (.unterminatedComment, b)
  | .str b => some (.unterminatedStringLiteral, b)

namespace Survey
open Value

theorem code_line (n : Nat) (t : Text) :
    survey .code n ('/' :: '/' :: t) = survey .line (n + 2) t := rfl

theorem code_block (n : Nat) (t : Text) :
    survey .code n ('/' :: '*' :: t) = survey (.block n) (n + 2) t := rfl

theorem code_quote (n : Nat) (t : Text) :
    survey .code n ('"' :: t) = survey (.str n) (n + 1) t := rfl

theorem line_cons (n : Nat) (c : Char) (t : Text) :
    survey .line n (c :: t) = survey (if c = '\n' then .code else .line) (n + c.utf8Size) t := by
  rw [survey]

theorem str_cons (b n : Nat) (c : Char) (t : Text) :
    survey (.str b) n (c :: t) =
      survey (if c = '"' then .code else .str b) (n + c.utf8Size) t := by
  rw [survey]

theorem code_cons (hq : c ≠ '"') (hs : c = '/' → ∀ d ∈ t.head?, d ≠ '/' ∧ d ≠ '*') :
    survey .code n (c :: t) =
      ((survey .code (n + c.utf8Size) t).1,
        (survey .code (n + c.utf8Size) t).2 + if Bad c then 1 else 0) := by
  rw [survey.eq_5]
  · rintro t' rfl rfl
    exact (hs rfl '/' rfl).1 rfl
  · rintro t' rfl rfl
    exact (hs rfl '*' rfl).2 rfl
  · exact hq

/-- Characters that the scanner passes over in code without a change. -/
theorem code_append (hs : ∀ c ∈ s, c ≠ '"' ∧ c ≠ '/' ∧ ¬ Bad c) :
    survey .code n (s ++ t) = survey .code (n + s.size) t := by
  induction s generalizing n with
  | nil => rfl
  | cons c s ih =>
    rw [List.forall_mem_cons] at hs
    obtain ⟨⟨hq, hc, hb⟩, hs⟩ := hs
    rw [List.cons_append, code_cons hq (fun h => absurd h hc), ih hs, if_neg hb, Text.size_cons,
      Nat.add_assoc]
    rfl

theorem line_append (hs : '\n' ∉ s) : survey .line n (s ++ t) = survey .line (n + s.size) t := by
  induction s generalizing n with
  | nil => rfl
  | cons c s ih =>
    rw [List.mem_cons, not_or] at hs
    rw [List.cons_append, line_cons, if_neg (Ne.symm hs.1), ih hs.2, Text.size_cons, Nat.add_assoc]

theorem str_append (hs : '"' ∉ s) :
    survey (.str b) n (s ++ t) = survey (.str b) (n + s.size) t := by
  induction s generalizing n with
  | nil => rfl
  | cons c s ih =>
    rw [List.mem_cons, not_or] at hs
    rw [List.cons_append, str_cons, if_neg (Ne.symm hs.1), ih hs.2, Text.size_cons, Nat.add_assoc]

theorem block_cons (h : ¬ ['*', '/'] <+: c :: t) :
    survey (.block b) n (c :: t) = survey (.block b) (n + c.utf8Size) t := by
  rw [survey.eq_8]
  rintro t' rfl rfl
  exact h ⟨t', rfl⟩

/-- Without an end, a comment goes on to the end of the text. -/
theorem block_of_open (hs : ¬ ['*', '/'] <:+: s) : survey (.block b) n s = (.block b, 0) := by
  induction s generalizing n with
  | nil => rfl
  | cons c s ih =>
    rw [List.infix_cons_iff, not_or] at hs
    rw [block_cons hs.1, ih hs.2]

example : survey .code 0 ['/', '*', '/'] = (.block 0, 0) := by decide

theorem block_append (hs : ¬ ['*', '/'] <:+: s) :
    survey (.block b) n (s ++ '*' :: '/' :: t) = survey .code (n + s.size + 2) t := by
  induction s generalizing n with
  | nil => rfl
  | cons c s ih =>
    rw [List.infix_cons_iff, not_or] at hs
    have hc : ¬ ['*', '/'] <+: c :: (s ++ '*' :: '/' :: t) := not_pair_append hs.1 (by simp)
    rw [List.cons_append, block_cons hc, ih hs.2, Text.size_cons, Nat.add_assoc n]

theorem quiet_of_blank (h : Blank c) : c ≠ '"' ∧ c ≠ '/' ∧ ¬ Bad c := by
  refine ⟨?_, (not_comment_of_blank h).1, fun hb => hb.1 h⟩
  rintro rfl
  exact absurd h (by decide)

theorem quiet_of_wordPart (h : WordPart c) : c ≠ '"' ∧ c ≠ '/' ∧ ¬ Bad c := by
  refine ⟨?_, ?_, fun hb => hb.2.1 h⟩
  · rintro rfl
    exact absurd h (by decide)
  · rintro rfl
    exact absurd h (by decide)

theorem not_bad_of_single (h : (c, kind) ∈ Kind.singles) : ¬ Bad c :=
  fun hb => hb.2.2 (List.mem_map.mpr ⟨(c, kind), h, rfl⟩)

/-- The second character of an operator opens nothing either. -/
theorem quiet_of_pair (h : ((c, d), kind) ∈ Kind.pairs) : d ≠ '"' ∧ d ≠ '/' ∧ ¬ Bad d := by
  have hp : ∀ p ∈ Kind.pairs, p.1.2 ≠ '"' ∧ p.1.2 ≠ '/' ∧ ¬ Bad p.1.2 := by decide
  exact hp _ h

/-- A token is passed over from code to code, and a malformed character is a bad one. -/
theorem code_lexeme (h : Lexeme kind value rest) (ho : ¬ kind.isOpen) :
    survey .code n (value ++ rest) =
      ((survey .code (n + value.size) rest).1,
        (survey .code (n + value.size) rest).2 + if kind = .invalid then 1 else 0) := by
  cases h with
  | eof => rfl
  | word hc hw hk hr =>
    have hi : kind ≠ .invalid := by
      rintro rfl
      cases form_of_wordKind hk
    rw [if_neg hi]
    refine code_append fun d hd => quiet_of_wordPart ?_
    rcases List.mem_cons.mp hd with rfl | hd
    · exact .inl hc
    · exact hw d hd
  | number hc hw hr =>
    refine code_append fun d hd => quiet_of_wordPart (.inr ?_)
    rcases List.mem_cons.mp hd with rfl | hd
    · exact hc
    · exact hw d hd
  | @string body _ hb =>
    have hs : survey .code n ('"' :: (body ++ ['"']) ++ rest) =
        survey (.str n) (n + 1) (body ++ '"' :: rest) := by
      rw [List.cons_append, code_quote, List.append_assoc]
      rfl
    rw [hs, str_append hb, str_cons, if_pos rfl, Text.size_cons, Text.size_append, ← Nat.add_assoc,
      ← Nat.add_assoc]
    rfl
  | openString => exact absurd rfl ho
  | openComment => exact absurd rfl ho
  | @pair c d _ _ hk =>
    have hi : kind ≠ .invalid := by
      rintro rfl
      cases form_of_pair hk
    obtain ⟨k, hc⟩ := single_of_pair hk
    have hd : ∀ x ∈ [d], x ≠ '"' ∧ x ≠ '/' ∧ ¬ Bad x := by
      simpa using quiet_of_pair hk
    have hs : c = '/' → ∀ x ∈ ([d] ++ rest).head?, x ≠ '/' ∧ x ≠ '*' := by
      rintro hc x hx
      cases hx
      exact second_of_pair hk hc
    rw [if_neg hi, List.cons_append, code_cons (class_of_single hc).2.2.2 hs,
      if_neg (not_bad_of_single hc), code_append hd, Nat.add_assoc]
    rfl
  | single hk hp hs =>
    have hi : kind ≠ .invalid := by
      rintro rfl
      cases form_of_single hk
    rw [if_neg hi, List.cons_append, List.nil_append, code_cons (class_of_single hk).2.2.2 hs,
      if_neg (not_bad_of_single hk)]
    rfl
  | @invalid c _ hb hw hd hq hs =>
    have hbad : Bad c := by
      refine ⟨hb, not_or.mpr ⟨hw, hd⟩, fun hm => ?_⟩
      obtain ⟨⟨c', k⟩, hk, rfl⟩ := List.mem_map.mp hm
      exact hs k hk
    have hc : c = '/' → ∀ d ∈ ([] ++ rest).head?, d ≠ '/' ∧ d ≠ '*' := by
      rintro rfl
      exact absurd (by decide) (hs .slash)
    rw [List.cons_append, code_cons hq hc, if_pos hbad]
    rfl

/-- A token without an end of its own is where the scanner is left. -/
theorem opened_lexeme (h : Lexeme kind value rest) (ho : kind.isOpen) :
    (survey .code n (value ++ rest)).1.opened = some (kind, n) ∧
      (survey .code n (value ++ rest)).2 = 0 := by
  obtain rfl | rfl := Kind.isOpen_iff.mp ho
  · obtain ⟨body, rfl, hb, rfl⟩ := conforms_of_lexeme h
    rw [List.append_nil, code_block, block_of_open hb]
    exact ⟨rfl, rfl⟩
  · obtain ⟨body, rfl, hb, rfl⟩ := conforms_of_lexeme h
    rw [List.cons_append, code_quote, str_append hb]
    exact ⟨rfl, rfl⟩

/-- Where a line comment ends, it does not matter that there was one. -/
theorem opened_line (ht : ∀ d ∈ t.head?, d = '\n') :
    (survey .line n t).1.opened = (survey .code n t).1.opened ∧
      (survey .line n t).2 = (survey .code n t).2 := by
  cases t with
  | nil => exact ⟨rfl, rfl⟩
  | cons c t =>
    obtain rfl := ht c rfl
    have hc : survey .code n (['\n'] ++ t) = survey .code (n + 1) t := by
      apply code_append
      rw [List.forall_mem_singleton]
      decide
    have hl : survey .line n ('\n' :: t) = survey .code n ('\n' :: t) := by
      rw [show '\n' :: t = ['\n'] ++ t from rfl, hc]
      rfl
    rw [hl]
    exact ⟨rfl, rfl⟩

/-- Trivia are passed over from code to code, but for a line comment that the text ends with. -/
theorem opened_gap (h : Gap rest s) :
    (survey .code n (s ++ rest)).1.opened = (survey .code (n + s.size) rest).1.opened ∧
      (survey .code n (s ++ rest)).2 = (survey .code (n + s.size) rest).2 := by
  induction h generalizing n with
  | nil => exact ⟨rfl, rfl⟩
  | @blank c s hc _ ih =>
    have hq : ∀ x ∈ [c], x ≠ '"' ∧ x ≠ '/' ∧ ¬ Bad x := by simpa using quiet_of_blank hc
    have hs : survey .code n (c :: s ++ rest) = survey .code (n + c.utf8Size) (s ++ rest) :=
      code_append hq
    rw [hs, Text.size_cons, ← Nat.add_assoc]
    exact ih
  | @line body s hb hr _ ih =>
    have hs : survey .code n ('/' :: '/' :: (body ++ s) ++ rest) =
        survey .line (n + 2 + body.size) (s ++ rest) := by
      rw [List.cons_append, List.cons_append, code_line, List.append_assoc, line_append hb]
    have hn : n + Text.size ('/' :: '/' :: (body ++ s)) = n + 2 + body.size + s.size := by
      simp only [Text.size_cons, Text.size_append, ← Nat.add_assoc]
      rfl
    rw [hs, hn, (opened_line hr).1, (opened_line hr).2]
    exact ih
  | @block body s hb _ ih =>
    have hs : survey .code n ('/' :: '*' :: (body ++ '*' :: '/' :: s) ++ rest) =
        survey .code (n + 2 + body.size + 2) (s ++ rest) := by
      rw [List.cons_append, List.cons_append, code_block, List.append_assoc]
      exact block_append hb
    have hn : n + Text.size ('/' :: '*' :: (body ++ '*' :: '/' :: s)) =
        n + 2 + body.size + 2 + s.size := by
      simp only [Text.size_cons, Text.size_append, ← Nat.add_assoc]
      rfl
    rw [hs, hn]
    exact ih

end Survey

namespace Lexer

/-- The scanner is left in the first token that has no end of its own, and finds the malformed
characters before. -/
theorem survey_rest (l : Lexer) :
    (survey .code l.position l.rest).1.opened =
        (l.finish.1.find? (·.kind.isOpen)).map (fun t => (t.kind, t.span.start)) ∧
      (survey .code l.position l.rest).2 = l.finish.1.countP (·.kind = .invalid) := by
  induction l using finish_induction with
  | last l h =>
    have hl := lexeme_next l
    rw [h] at hl
    obtain ⟨hv, hr⟩ := hl.of_eof
    have hg := Survey.opened_gap (n := l.position) (gap_next l)
    rw [next_append, hv, hr] at hg
    rw [hg.1, hg.2, finish_of_eof h, List.find?_cons_of_neg (by rw [h]; decide),
      List.countP_singleton, h]
    exact ⟨rfl, rfl⟩
  | more l h ih =>
    have hg := Survey.opened_gap (n := l.position) (gap_next l)
    rw [next_append, ← start_next] at hg
    rw [hg.1, hg.2]
    by_cases ho : l.next.1.kind.isOpen
    · have hs := Survey.opened_lexeme (n := l.next.1.span.start) (lexeme_next l) ho
      have hi : l.next.1.kind ≠ .invalid := by
        intro hi
        rw [hi] at ho
        cases ho
      rw [hs.1, hs.2, finish_of_open ho, List.find?_cons_of_pos (by exact ho)]
      simp [hi]
    · have hs := Survey.code_lexeme (n := l.next.1.span.start) (lexeme_next l) ho
      rw [← stop_next, ← position_next] at hs
      rw [hs, ih.1, ih.2, finish_of_ne_eof h, List.find?_cons_of_neg (by exact ho),
        List.countP_cons]
      simp

variable {source : Text}

/-- The scanner is left in code unless one token, the last before the end, has no end of its
own. -/
theorem opened_cases (source : Text) :
    ((survey .code 0 source).1.opened = none ∧ ∀ t ∈ tokens source, ¬ t.kind.isOpen) ∨
      ∃ front t, tokens source = front ++ [t, ⟨.eof, [], [], .point source.size⟩] ∧
        (∀ u ∈ front, ¬ u.kind.isOpen) ∧ t.kind.isOpen ∧ t.span.stop = source.size ∧
        (survey .code 0 source).1.opened = some (t.kind, t.span.start) := by
  have hs : (survey .code 0 source).1.opened = _ := (survey_rest (ofText source)).1
  rw [hs]
  cases hf : (ofText source).finish.1.find? (·.kind.isOpen) with
  | none => exact .inl ⟨rfl, List.find?_eq_none.mp hf⟩
  | some t =>
    have ho := List.find?_some hf
    obtain ⟨front, ht, hn, hstop⟩ := exists_of_open (List.mem_of_find?_eq_some hf) ho
    have he : t.span.stop = source.size := hstop.trans (Nat.zero_add source.size)
    rw [he] at ht
    exact .inr ⟨front, t, ht, hn, ho, he, rfl⟩

theorem exists_kind_iff (ho : kind.isOpen) :
    (∃ t ∈ tokens source, t.kind = kind) ↔
      ∃ b, (survey .code 0 source).1.opened = some (kind, b) := by
  rcases opened_cases source with ⟨hs, hn⟩ | ⟨front, t, ht, hn, -, -, hs⟩
  · rw [hs]
    constructor
    · rintro ⟨t, ht, rfl⟩
      exact absurd ho (hn t ht)
    · rintro ⟨b, hb⟩
      cases hb
  · rw [hs, ht]
    constructor
    · rintro ⟨u, hu, rfl⟩
      rw [List.mem_append, List.mem_cons, List.mem_singleton] at hu
      rcases hu with hu | rfl | rfl
      · exact absurd ho (hn u hu)
      · exact ⟨_, rfl⟩
      · cases ho
    · rintro ⟨b, hb⟩
      cases hb
      exact ⟨t, by simp, rfl⟩

end Lexer

end LexCalc
