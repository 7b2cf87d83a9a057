import LexCalc.Proofs.Text.Boundary
import LexCalc.Proofs.Token.Pieces
import LexCalc.Token.CursorLexer

/-! The lexer on a cursor reads what is scanned from the characters ahead of the cursor. Each loop is
followed from a place between characters to the next one, and what is logged is where the string or
the comment was opened. -/
namespace LexCalc

namespace Cursor
variable {c : Cursor} {passed s t body rest : Text} {p : Char → Bool} {x : Char}

theorem current_nil : (Zipper.mk passed []).cursor.current = none := current_cursor _

theorem current_cons : (Zipper.mk passed (x :: t)).cursor.current = some x := current_cursor _

theorem peek_cons : (Zipper.mk passed (x :: t)).cursor.peek = t.head? := by
  rw [peek_cursor]
  cases t <;> rfl

theorem advance_cons :
    (Zipper.mk passed (x :: t)).cursor.advance = (Zipper.mk (passed ++ [x]) t).cursor :=
  advance_cursor _

theorem advance_pair {y : Char} : (Zipper.mk passed (x :: y :: t)).cursor.advance.advance =
    (Zipper.mk (passed ++ [x, y]) t).cursor := by
  rw [advance_cons, advance_cons, List.append_assoc]
  rfl

theorem cutWhile_append_eq (hs : ∀ c ∈ s, p c = true) (ht : ∀ c ∈ t.head?, p c = false) :
    cutWhile (fun _ c => (p c, ())) () (s ++ t) = ((s, t), ()) := by
  induction s with
  | nil =>
    cases t with
    | nil => rfl
    | cons c t => simp [cutWhile, ht c rfl]
  | cons c s ih =>
    rw [List.forall_mem_cons] at hs
    simp [cutWhile, hs.1, ih hs.2]

/-- A run that what follows cannot extend is passed whole. -/
theorem eatAll_append (passed : Text) (hs : ∀ c ∈ s, p c = true)
    (ht : ∀ c ∈ t.head?, p c = false) :
    (Zipper.mk passed (s ++ t)).cursor.eatAll p = (Zipper.mk (passed ++ s) t).cursor := by
  rw [eatAll, eatWhile_cursor, Zipper.eatWhile, cutWhile_append_eq hs ht]

theorem skipBody_of_none (h : c.current = none) : c.skipBody = (false, c) := by
  rw [skipBody]
  split
  · rfl
  · next hx => cases h.symm.trans hx

theorem skipBody_of_some (h : c.current = some x) :
    c.skipBody = if x = '*' ∧ c.peek = some '/' then (true, c.advance.advance)
      else c.advance.skipBody := by
  rw [skipBody]
  split
  · next hx => cases h.symm.trans hx
  · next hx =>
    cases h.symm.trans hx
    rfl

theorem skipBody_end : (Zipper.mk passed ('*' :: '/' :: t)).cursor.skipBody =
    (true, (Zipper.mk (passed ++ ['*', '/']) t).cursor) := by
  rw [skipBody_of_some current_cons, peek_cons, advance_pair, if_pos ⟨rfl, rfl⟩]

/-- A comment goes on over what does not end it. -/
theorem skipBody_append (passed : Text) (hb : ¬ ['*', '/'] <:+: body)
    (ht : ∀ d ∈ t.head?, d ≠ '/') :
    (Zipper.mk passed (body ++ t)).cursor.skipBody =
      (Zipper.mk (passed ++ body) t).cursor.skipBody := by
  induction body generalizing passed with
  | nil => rw [List.nil_append, List.append_nil]
  | cons c body ih =>
    rw [List.infix_cons_iff, not_or] at hb
    have hc : ¬ (c = '*' ∧ (body ++ t).head? = some '/') := by
      rintro ⟨rfl, hd⟩
      obtain ⟨t', he⟩ := List.head?_eq_some_iff.mp hd
      exact not_pair_append hb.1 ht ⟨t', by rw [he]; rfl⟩
    rw [List.cons_append, skipBody_of_some current_cons, peek_cons, if_neg hc, advance_cons,
      ih _ hb.2, List.append_assoc]
    rfl

end Cursor

/-- What is said in the log of a token without an end, in front of the byte where it starts. -/
def Kind.complaint? : Kind → Option String
  | .unterminatedStringLiteral => some "unterminated string literal starting at byte "
  | .unterminatedComment => some "unterminated block comment starting at byte "
  | _ => none

theorem Kind.complaint?_eq {kind : Kind} {text : String} (h : kind.complaint? = some text) :
    text = "unterminated string literal starting at byte " ∨
      text = "unterminated block comment starting at byte " := by
  cases kind with
  | unterminatedStringLiteral => exact .inl (Option.some.inj h).symm
  | unterminatedComment => exact .inr (Option.some.inj h).symm
  | _ => cases h

theorem Kind.complaint?_of_form {kind : Kind} {form : Form} (h : kind.form = form)
    (hf : form ≠ .openString ∧ form ≠ .openComment) : kind.complaint? = none := by
  subst h
  cases kind with
  | unterminatedStringLiteral => exact absurd rfl hf.1
  | unterminatedComment => exact absurd rfl hf.2
  | _ => rfl

theorem Token.log_eq (t : Token) :
    t.log = t.kind.complaint?.toList.map fun text => .debug (text ++ toString t.span.start) := by
  obtain ⟨kind, trivia, value, span⟩ := t
  cases kind with
  | unterminatedStringLiteral | unterminatedComment => rfl
  | _ => rfl

namespace CursorLexer
open Trivia (Piece)
variable {l : CursorLexer} {x : Char} {kind : Kind} {value passed body rest t : Text}

theorem skipTrivia_of_none (h : l.cursor.current = none) : l.skipTrivia = (none, l) := by
  rw [skipTrivia]
  split
  · rfl
  · next hx => cases h.symm.trans hx

theorem skipTrivia_of_some (h : l.cursor.current = some x) :
    l.skipTrivia =
      if isSpace x then skipTrivia { l with cursor := l.cursor.eatAll isSpace }
      else if x = '/' ∧ l.cursor.peek = some '/' then
        skipTrivia { l with cursor := l.cursor.skipLine }
      else if x = '/' ∧ l.cursor.peek = some '*' then
        if l.skipBlock.1 then l.skipBlock.2.skipTrivia else (some l.position, l.skipBlock.2)
      else (none, l) := by
  rw [skipTrivia]
  split
  · next hx => cases h.symm.trans hx
  · next hx =>
    cases h.symm.trans hx
    rfl

/-- The lexer with its cursor behind `passed` and in front of `ahead`. -/
def between (l : CursorLexer) (passed ahead : Text) : CursorLexer :=
  { l with cursor := (Zipper.mk passed ahead).cursor }

/-- The lexer after it has passed over a token of some kind that starts at an offset. -/
def noting (l : CursorLexer) (kind : Kind) (start : Nat) : CursorLexer :=
  { l with log := l.log ++ kind.complaint?.toList.map fun text => .debug (text ++ toString start) }

theorem noting_of_none (h : kind.complaint? = none) (start : Nat) : l.noting kind start = l := by
  rw [noting, h, Option.toList_none, List.map_nil, List.append_nil]

theorem skipBlock_closed (hb : ¬ ['*', '/'] <:+: body) :
    (l.between passed ((Piece.block body).text ++ rest)).skipBlock =
      (true, l.between (passed ++ (Piece.block body).text) rest) := by
  have hc : (l.between passed ((Piece.block body).text ++ rest)).cursor.advance.advance.skipBody =
      (true, (Zipper.mk (passed ++ (Piece.block body).text) rest).cursor) := by
    have ha : (Piece.block body).text ++ rest = '/' :: '*' :: (body ++ '*' :: '/' :: rest) := by
      simp [Piece.text]
    rw [between, ha, Cursor.advance_pair, Cursor.skipBody_append _ hb (by simp), Cursor.skipBody_end]
    simp [Piece.text]
  rw [skipBlock, hc]
  rfl

theorem skipBlock_open (hb : ¬ ['*', '/'] <:+: body) :
    (l.between passed ('/' :: '*' :: body)).skipBlock =
      (false, (l.between (passed ++ '/' :: '*' :: body) []).noting .unterminatedComment
        passed.size) := by
  have hc : (l.between passed ('/' :: '*' :: body)).cursor.advance.advance.skipBody =
      (false, (Zipper.mk (passed ++ '/' :: '*' :: body) []).cursor) := by
    have hs := Cursor.skipBody_append (t := []) (passed ++ ['/', '*']) hb (by simp)
    rw [List.append_nil, Cursor.skipBody_of_none Cursor.current_nil, List.append_assoc] at hs
    rw [between, Cursor.advance_pair, hs]
    rfl
  rw [skipBlock, hc]
  rfl

/-- The loop over trivia passes a piece in one turn. -/
theorem skipTrivia_piece {p : Piece} (hp : p.Complete rest) :
    (l.between passed (p.text ++ rest)).skipTrivia =
      (l.between (passed ++ p.text) rest).skipTrivia := by
  cases p with
  | blanks s =>
    obtain ⟨hne, hs, hr⟩ := hp
    obtain ⟨c, s, rfl⟩ := List.exists_cons_of_ne_nil hne
    have hc : isSpace c = true := isSpace_iff.mpr (hs c List.mem_cons_self)
    have he : (l.between passed (c :: s ++ rest)).cursor.eatAll isSpace =
        (Zipper.mk (passed ++ c :: s) rest).cursor := by
      apply Cursor.eatAll_append
      · exact fun d hd => isSpace_iff.mpr (hs d hd)
      · intro d hd
        rw [← Bool.not_eq_true, isSpace_iff]
        exact hr d hd
    rw [Piece.text, skipTrivia_of_some Cursor.current_cons, if_pos hc, he]
    rfl
  | line body =>
    obtain ⟨hb, hr⟩ := hp
    have he : (l.between passed ((Piece.line body).text ++ rest)).cursor.skipLine =
        (Zipper.mk (passed ++ (Piece.line body).text) rest).cursor := by
      have hs := Cursor.eatAll_append (p := (· ≠ '\n')) (s := body) (t := rest)
        (passed ++ ['/', '/']) (fun c hc => decide_eq_true fun h => hb (h ▸ hc))
        (fun d hd => by simp [hr d hd])
      rw [List.append_assoc] at hs
      rw [Cursor.skipLine, between, Piece.text, List.cons_append, List.cons_append,
        Cursor.advance_pair, hs]
      rfl
    rw [skipTrivia_of_some Cursor.current_cons, if_neg (by decide),
      if_pos ⟨rfl, Cursor.peek_cons⟩, he]
    rfl
  | block body =>
    have hpeek : (l.between passed ((Piece.block body).text ++ rest)).cursor.peek = some '*' :=
      Cursor.peek_cons
    rw [skipTrivia_of_some Cursor.current_cons, if_neg (by decide), hpeek, if_neg (by decide),
      if_pos ⟨rfl, rfl⟩, skipBlock_closed hp, if_pos rfl]

/-- All trivia in front is passed. -/
theorem skipTrivia_split (l : CursorLexer) (passed t : Text) :
    (l.between passed t).skipTrivia =
      (l.between (passed ++ (Trivia.split t).1) (Trivia.split t).2).skipTrivia := by
  induction t using Trivia.complete_induction generalizing passed with
  | clear t h => rw [Trivia.split_of_clear h, List.append_nil]
  | piece p rest hp ih => rw [skipTrivia_piece hp, Trivia.split_piece hp, ih, List.append_assoc]

theorem skipTrivia_open (hb : ¬ ['*', '/'] <:+: body) :
    (l.between passed ('/' :: '*' :: body)).skipTrivia =
      (some passed.size, (l.between (passed ++ '/' :: '*' :: body) []).noting .unterminatedComment
        passed.size) := by
  have hpeek : (l.between passed ('/' :: '*' :: body)).cursor.peek = some '*' := Cursor.peek_cons
  rw [skipTrivia_of_some Cursor.current_cons, if_neg (by decide), hpeek, if_neg (by decide),
    if_pos ⟨rfl, rfl⟩, skipBlock_open hb]
  rfl

theorem skipTrivia_clear (h : Clear t) (hc : ¬ ['/', '*'] <+: t) :
    (l.between passed t).skipTrivia = (none, l.between passed t) := by
  cases t with
  | nil => exact skipTrivia_of_none Cursor.current_nil
  | cons c t =>
    have hs : ¬ isSpace c = true := mt isSpace_iff.mp (h.blank c rfl)
    have hpeek : (l.between passed (c :: t)).cursor.peek = t.head? := Cursor.peek_cons
    rw [skipTrivia_of_some Cursor.current_cons, if_neg hs, hpeek, if_neg, if_neg]
    · rintro ⟨rfl, hd⟩
      obtain ⟨t', rfl⟩ := List.head?_eq_some_iff.mp hd
      exact hc ⟨t', rfl⟩
    · rintro ⟨rfl, hd⟩
      obtain ⟨t', rfl⟩ := List.head?_eq_some_iff.mp hd
      exact h.line ⟨t', rfl⟩

theorem lexIdentifier_word {w : Text} (hw : ∀ d ∈ w, WordPart d)
    (hr : ∀ d ∈ rest.head?, ¬ WordPart d) :
    (l.between passed (x :: w ++ rest)).lexIdentifier =
      some (Value.wordKind (x :: w), l.between (passed ++ x :: w) rest) := by
  have he : (l.between passed (x :: w ++ rest)).cursor.advance.eatAll isWordPart =
      (Zipper.mk (passed ++ x :: w) rest).cursor := by
    have hs := Cursor.eatAll_append (p := isWordPart) (s := w) (t := rest) (passed ++ [x])
      (fun d hd => isWordPart_iff.mpr (hw d hd)) (by
        intro d hd
        rw [← Bool.not_eq_true, isWordPart_iff]
        exact hr d hd)
    rw [List.append_assoc] at hs
    rw [between, List.cons_append, Cursor.advance_cons, hs]
    rfl
  -- The slice starts where the cursor stood in front of the word.
  have hcut : (Zipper.mk (passed ++ x :: w) rest).cursor.sliceFrom passed.size = some (x :: w) := by
    rw [Cursor.sliceFrom_cursor, Span.slice_eq_some_iff]
    exact ⟨passed, rest, rfl, rfl, rfl⟩
  rw [lexIdentifier, he]
  change ((Zipper.mk (passed ++ x :: w) rest).cursor.sliceFrom passed.size).bind _ = _
  rw [hcut]
  rfl

theorem lexNumber_digits (hv : ∀ d ∈ value, Digit d) (hr : ∀ d ∈ rest.head?, ¬ Digit d) :
    (l.between passed (value ++ rest)).lexNumber =
      (.numericLiteral, l.between (passed ++ value) rest) := by
  have he : (l.between passed (value ++ rest)).cursor.eatAll Char.isDigit =
      (Zipper.mk (passed ++ value) rest).cursor := by
    apply Cursor.eatAll_append
    · exact fun d hd => isDigit_iff.mpr (hv d hd)
    · intro d hd
      rw [← Bool.not_eq_true, isDigit_iff]
      exact hr d hd
  rw [lexNumber, he]
  rfl

/-- A string goes up to a quote or to the end. -/
theorem eatAll_body (l : CursorLexer) (passed rest : Text) (hb : '"' ∉ body)
    (hr : ∀ d ∈ rest.head?, d = '"') :
    (l.between passed ('"' :: (body ++ rest))).cursor.advance.eatAll (· ≠ '"') =
      (Zipper.mk (passed ++ '"' :: body) rest).cursor := by
  have hs := Cursor.eatAll_append (p := (· ≠ '"')) (s := body) (t := rest) (passed ++ ['"'])
    (fun d hd => decide_eq_true fun h => hb (h ▸ hd))
    (fun d hd => by simp [hr d hd])
  rw [List.append_assoc] at hs
  rw [between, Cursor.advance_cons, hs]
  rfl

theorem lexString_closed (hb : '"' ∉ body) :
    (l.between passed ('"' :: (body ++ '"' :: rest))).lexString =
      (.stringLiteral, l.between (passed ++ '"' :: (body ++ ['"'])) rest) := by
  have hn : ¬ (Zipper.mk (passed ++ '"' :: body) ('"' :: rest)).cursor.atEnd = true := by
    rw [Cursor.atEnd_iff_cursor, Cursor.current_cons]
    exact nofun
  rw [lexString, eatAll_body _ _ _ hb (by simp), if_neg hn, Cursor.advance_cons, List.append_assoc]
  rfl

theorem lexString_open (hb : '"' ∉ body) :
    (l.between passed ('"' :: body)).lexString =
      (.unterminatedStringLiteral,
        (l.between (passed ++ '"' :: body) []).noting .unterminatedStringLiteral passed.size) := by
  have he := eatAll_body l passed [] hb (by simp)
  rw [List.append_nil] at he
  have hn : (Zipper.mk (passed ++ '"' :: body) []).cursor.atEnd = true := by
    rw [Cursor.atEnd_iff_cursor]
    exact Cursor.current_nil
  rw [lexString, he, if_pos hn]
  rfl

theorem lexOperator_pair {y : Char} (hk : Kind.ofPair? x y = some kind) :
    (l.between passed (x :: y :: rest)).lexOperator x =
      (kind, l.between (passed ++ [x, y]) rest) := by
  have hp : (l.between passed (x :: y :: rest)).cursor.pair = some [x, y] := Cursor.pair_cursor _
  rw [lexOperator, hp]
  simp only [hk]
  rw [between, Cursor.advance_pair]
  rfl

theorem lexOperator_single (hk : ∀ d ∈ rest.head?, Kind.ofPair? x d = none) :
    (l.between passed (x :: rest)).lexOperator x =
      ((Kind.ofSingle? x).getD .invalid, l.between (passed ++ [x]) rest) := by
  have hp : (l.between passed (x :: rest)).cursor.pair = rest.head?.map ([x, ·]) := by
    refine (Cursor.pair_cursor _).trans ?_
    cases rest <;> simp
  rw [lexOperator, hp]
  cases rest with
  | nil =>
    rw [between, Cursor.advance_cons]
    rfl
  | cons y rest =>
    simp only [List.head?_cons, Option.map_some, hk y rfl]
    rw [between, Cursor.advance_cons]
    rfl

theorem lexValue_cons (l : CursorLexer) (passed : Text) (x : Char) (t : Text) :
    (l.between passed (x :: t)).lexValue =
      if isWordStart x then (l.between passed (x :: t)).lexIdentifier
      else if x.isDigit then some (l.between passed (x :: t)).lexNumber
      else if x = '"' then some (l.between passed (x :: t)).lexString
      else some ((l.between passed (x :: t)).lexOperator x) := by
  rw [lexValue, between, Cursor.current_cons]

/-- Behind the trivia the token of the grammar is passed. -/
theorem lexValue_lexeme (h : Lexeme kind value rest) (hk : kind ≠ .unterminatedComment) :
    (l.between passed (value ++ rest)).lexValue =
      some (kind, (l.between (passed ++ value) rest).noting kind passed.size) := by
  cases h with
  | eof =>
    rw [lexValue, between, List.append_nil, Cursor.current_nil, noting_of_none rfl, List.append_nil]
    rfl
  | word hc hw hkind hr =>
    have hn := Kind.complaint?_of_form (form_of_wordKind hkind) (by decide)
    rw [List.cons_append, lexValue_cons, if_pos (isWordStart_iff.mpr hc), ← List.cons_append,
      lexIdentifier_word hw hr, wordKind_eq_iff.mpr hkind, noting_of_none hn]
  | number hc hw hr =>
    rw [List.cons_append, lexValue_cons, if_neg (mt isWordStart_iff.mp (not_wordStart_of_digit hc)),
      if_pos (isDigit_iff.mpr hc), ← List.cons_append,
      lexNumber_digits (List.forall_mem_cons.mpr ⟨hc, hw⟩) hr, noting_of_none rfl]
  | string hb =>
    rw [List.cons_append, lexValue_cons, if_neg (by decide), if_neg (by decide), if_pos rfl,
      List.append_assoc, List.singleton_append, lexString_closed hb, noting_of_none rfl]
  | openString hb =>
    rw [List.append_nil, lexValue_cons, if_neg (by decide), if_neg (by decide), if_pos rfl,
      lexString_open hb]
  | openComment => exact absurd rfl hk
  | pair hpair =>
    obtain ⟨k, hs⟩ := Value.single_of_pair hpair
    obtain ⟨-, hw, hd, hq⟩ := Value.class_of_single hs
    have hn := Kind.complaint?_of_form (form_of_pair hpair) (by decide)
    rw [List.cons_append, lexValue_cons, if_neg (mt isWordStart_iff.mp hw),
      if_neg (mt isDigit_iff.mp hd), if_neg hq, List.singleton_append,
      lexOperator_pair (ofPair?_eq_some_iff.mpr hpair), noting_of_none hn]
  | single hsingle hp hs =>
    obtain ⟨-, hw, hd, hq⟩ := Value.class_of_single hsingle
    have hn := Kind.complaint?_of_form (form_of_single hsingle) (by decide)
    rw [List.singleton_append, lexValue_cons, if_neg (mt isWordStart_iff.mp hw),
      if_neg (mt isDigit_iff.mp hd), if_neg hq,
      lexOperator_single (fun d hd => ofPair?_eq_none_iff.mpr (hp d hd)),
      ofSingle?_eq_some_iff.mpr hsingle, noting_of_none hn]
    rfl
  | invalid hb hw hd hq hs =>
    have hp : ∀ d ∈ rest.head?, Kind.ofPair? _ d = none := fun d _ =>
      ofPair?_eq_none_iff.mpr fun k hk => by
        obtain ⟨k', hk'⟩ := Value.single_of_pair hk
        exact hs k' hk'
    rw [List.singleton_append, lexValue_cons, if_neg (mt isWordStart_iff.mp hw),
      if_neg (mt isDigit_iff.mp hd), if_neg hq, lexOperator_single hp,
      ofSingle?_eq_none_iff.mpr hs, noting_of_none rfl]
    rfl

/-- What is read between two places is what is scanned from the characters ahead. -/
theorem skipToken_scan (l : CursorLexer) (passed t : Text) :
    let s := Scan.ofText t
    (l.between passed t).skipToken = some (s.kind, (passed ++ s.trivia).size,
      (l.between (passed ++ s.trivia ++ s.value) s.rest).noting s.kind
        (passed ++ s.trivia).size) := by
  intro s
  have hs : (Trivia.split t).2 = s.value ++ s.rest := (Value.split_append _).symm
  have hl : Lexeme s.kind s.value s.rest := Scan.lexeme_ofText t
  have ht : (l.between passed t).skipTrivia =
      (l.between (passed ++ s.trivia) (s.value ++ s.rest)).skipTrivia :=
    hs ▸ skipTrivia_split l passed t
  by_cases hk : s.kind = .unterminatedComment
  · have hc := conforms_of_lexeme hl
    rw [hk] at hc
    obtain ⟨body, hv, hb, hr⟩ := hc
    rw [hv, hr, List.append_nil, skipTrivia_open hb] at ht
    rw [skipToken, ht, hk, hv, hr]
  · have hn : ¬ ['/', '*'] <+: s.value ++ s.rest := by
      rintro ⟨body, hb⟩
      apply hk
      change (Value.split (Trivia.split t).2).1 = _
      rw [hs, ← hb]
      rfl
    rw [skipTrivia_clear (Value.clear_of_lexeme hl) hn] at ht
    rw [skipToken, ht]
    simp only [lexValue_lexeme hl hk]
    rfl

theorem next_scan (l : CursorLexer) (passed t : Text) :
    let s := Scan.ofText t
    let token := Token.ofScan passed.size s
    (l.between passed t).next = some (token,
      { l.between (passed ++ s.trivia ++ s.value) s.rest with
        current := token, log := l.log ++ token.log }) := by
  intro s token
  have htrivia : Span.slice ⟨passed.size, (passed ++ s.trivia).size⟩
      (passed ++ s.trivia ++ s.value ++ s.rest) = some s.trivia := by
    rw [Span.slice_eq_some_iff]
    exact ⟨passed, s.value ++ s.rest, List.append_assoc .., rfl, rfl⟩
  have hvalue : Span.slice ⟨(passed ++ s.trivia).size, (passed ++ s.trivia ++ s.value).size⟩
      (passed ++ s.trivia ++ s.value ++ s.rest) = some s.value := by
    rw [Span.slice_eq_some_iff]
    exact ⟨passed ++ s.trivia, s.rest, rfl, rfl, rfl⟩
  have htoken : token = ⟨s.kind, s.trivia, s.value,
      ⟨(passed ++ s.trivia).size, (passed ++ s.trivia ++ s.value).size⟩⟩ := by
    simp only [token, Token.ofScan, Text.size_append]
  rw [next, skipToken_scan]
  change (Span.slice ⟨passed.size, (passed ++ s.trivia).size⟩
      (passed ++ s.trivia ++ s.value ++ s.rest)).bind (fun trivia =>
        (Span.slice ⟨(passed ++ s.trivia).size, (passed ++ s.trivia ++ s.value).size⟩
          (passed ++ s.trivia ++ s.value ++ s.rest)).bind _) = _
  rw [htrivia, Option.bind_some, hvalue, Token.log_eq, htoken]
  rfl

/-- The cursor stands where the other lexer has come to, and both have read the same token last. -/
structure Follows (c : CursorLexer) (l : Lexer) : Prop where
  cursor : ∃ passed, c.cursor = (Zipper.mk passed l.rest).cursor ∧ passed.size = l.position
  current : c.current = l.current

variable {c : CursorLexer} {m : Lexer}

theorem follows_ofText (source : Text) : Follows (ofText source) (.ofText source) :=
  ⟨⟨[], rfl, rfl⟩, rfl⟩

theorem Follows.position_eq (h : Follows c m) : c.position = m.position := by
  obtain ⟨⟨passed, hc, hp⟩, -⟩ := h
  rw [position, hc]
  exact hp

/-- A lexer that follows another one reads the token that the other one reads. -/
theorem next_follows (h : Follows c m) :
    ∃ d, c.next = some (m.next.1, d) ∧ Follows d m.next.2 ∧ d.log = c.log ++ m.next.1.log := by
  obtain ⟨⟨passed, hc, hp⟩, -⟩ := h
  have hn := next_scan c passed m.rest
  have hb : c.between passed m.rest = c := by rw [between, ← hc]
  rw [hb, hp] at hn
  refine ⟨_, hn, ⟨⟨_, rfl, ?_⟩, rfl⟩, rfl⟩
  rw [Text.size_append, Text.size_append, hp]
  rfl

/-- Any number of reads succeed, and they are those of the other lexer. -/
theorem read_follows (h : Follows c m) (n : Nat) :
    let tokens := (List.range n).map fun k => (m.after k).next.1
    ∃ d, c.read n = some (tokens, d) ∧ Follows d (m.after n) ∧
      d.log = c.log ++ tokens.flatMap Token.log := by
  induction n generalizing c m with
  | zero => exact ⟨c, rfl, h, (List.append_nil _).symm⟩
  | succ n ih =>
    obtain ⟨d, hd, hf, hlog⟩ := next_follows h
    obtain ⟨e, he, hfe, hloge⟩ := ih hf
    refine ⟨e, ?_, hfe, ?_⟩
    · rw [List.range_succ_eq_map, List.map_cons, List.map_map]
      simp only [read, hd, Option.bind_eq_bind, Option.bind_some, he]
      rfl
    · rw [hloge, hlog, List.range_succ_eq_map, List.map_cons, List.map_map, List.flatMap_cons,
        List.append_assoc]
      rfl

/-- The lexer on a cursor reads the tokens of the text, and it logs for each of them where it was
opened if it has no end. -/
theorem read_ofText (source : Text) (n : Nat) :
    let tokens := (List.range n).map (Lexer.nth source)
    ∃ c, (ofText source).read n = some (tokens, c) ∧
      Follows c ((Lexer.ofText source).after n) ∧ c.log = tokens.flatMap Token.log :=
  read_follows (follows_ofText source) n

end CursorLexer

end LexCalc
