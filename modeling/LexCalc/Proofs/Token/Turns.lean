import LexCalc.Proofs.Token.Pieces
import Mathlib.Logic.Function.Iterate

/-! The reading of one token turn by turn: each turn of a loop passes a character or leaves the loop.
What the turns come to is the token that is scanned, and there are at most twice as many of them as
characters that are passed, and one more. -/
namespace LexCalc

namespace Scan
variable {t rest : Text}

theorem ofText_of_clear (h : Clear t) :
    ofText t = ⟨[], (Value.split t).1, (Value.split t).2.1, (Value.split t).2.2⟩ := by
  rw [ofText, Trivia.split_of_clear h]

/-- A piece of trivia in front is all that is added to what is found. -/
theorem ofText_piece {p : Trivia.Piece} (hp : p.Complete rest) :
    ofText (p.text ++ rest) =
      ⟨p.text ++ (ofText rest).trivia, (ofText rest).kind, (ofText rest).value,
        (ofText rest).rest⟩ := by
  rw [ofText, Trivia.split_piece hp]
  rfl

end Scan

/-- The loops that pass over characters of one class. -/
inductive Loop where
  | blanks
  | line
  | word
  | number
  | string
  deriving DecidableEq

/-- The characters that a loop goes on with. -/
def Loop.accepts : Loop → Char → Bool
  | blanks => isSpace
  | line => (· ≠ '\n')
  | word => isWordPart
  | number => Char.isDigit
  | string => (· ≠ '"')

/-- Where a reader stands between two turns. -/
inductive Stage where
  /-- What comes next has not been told yet. -/
  | start
  | loop (loop : Loop)
  | block
  | ended (kind : Kind)
  deriving DecidableEq

/-- A token that is being read, or the trivia before it. -/
structure Reader where
  stage : Stage
  /-- The trivia that has been passed in whole pieces. -/
  trivia : Text
  /-- What has been passed since. -/
  passed : Text
  rest : Text

namespace Reader
variable {r s u : Reader} {trivia passed body rest t w : Text} {c : Char} {m n : Nat}

/-- Tells what starts here by one character, or by two. -/
def start (trivia : Text) : Text → Reader
  | [] => ⟨.ended .eof, trivia, [], []⟩
  | '/' :: '/' :: t => ⟨.loop .line, trivia, ['/', '/'], t⟩
  | '/' :: '*' :: t => ⟨.block, trivia, ['/', '*'], t⟩
  | c :: t =>
    if isSpace c then ⟨.loop .blanks, trivia, [c], t⟩
    else if isWordStart c then ⟨.loop .word, trivia, [c], t⟩
    else if c.isDigit then ⟨.loop .number, trivia, [c], t⟩
    else if c = '"' then ⟨.loop .string, trivia, [c], t⟩
    else
      let (kind, value, rest) := Value.splitOperator c t
      ⟨.ended kind, trivia, value, rest⟩

/-- What a loop has passed is a piece of trivia or a token. A string takes the quote as well. -/
def leave (trivia passed : Text) : Loop → Text → Reader
  | .blanks, t | .line, t => ⟨.start, trivia ++ passed, [], t⟩
  | .word, t => ⟨.ended (Value.wordKind passed), trivia, passed, t⟩
  | .number, t => ⟨.ended .numericLiteral, trivia, passed, t⟩
  | .string, [] => ⟨.ended .unterminatedStringLiteral, trivia, passed, []⟩
  | .string, quote :: t => ⟨.ended .stringLiteral, trivia, passed ++ [quote], t⟩

/-- One turn. A block comment without an end is handed back as the token. -/
def turn : Reader → Reader
  | ⟨.start, trivia, _, t⟩ => start trivia t
  | ⟨.loop loop, trivia, passed, c :: t⟩ =>
    if loop.accepts c then ⟨.loop loop, trivia, passed ++ [c], t⟩
    else leave trivia passed loop (c :: t)
  | ⟨.loop loop, trivia, passed, []⟩ => leave trivia passed loop []
  | ⟨.block, trivia, passed, '*' :: '/' :: t⟩ =>
    ⟨.start, trivia ++ (passed ++ ['*', '/']), [], t⟩
  | ⟨.block, trivia, passed, c :: t⟩ => ⟨.block, trivia, passed ++ [c], t⟩
  | ⟨.block, trivia, passed, []⟩ => ⟨.ended .unterminatedComment, trivia, passed, []⟩
  | ⟨.ended kind, trivia, value, t⟩ => ⟨.ended kind, trivia, value, t⟩

/-- Some number of turns leads from one reader to another. -/
def Turns (n : Nat) (r s : Reader) : Prop := turn^[n] r = s

theorem Turns.trans (h : Turns m r s) (k : Turns n s u) : Turns (n + m) r u := by
  rw [Turns, Function.iterate_add_apply, h, k]

theorem turns_loop (loop : Loop) (trivia passed : Text) (hw : ∀ c ∈ w, loop.accepts c = true)
    (ht : ∀ c ∈ t.head?, loop.accepts c = false) :
    Turns (w.length + 1) ⟨.loop loop, trivia, passed, w ++ t⟩
      (leave trivia (passed ++ w) loop t) := by
  induction w generalizing passed with
  | nil =>
    rw [List.append_nil]
    cases t with
    | nil => rfl
    | cons c t => simp [Turns, turn, ht c rfl]
  | cons c w ih =>
    rw [List.forall_mem_cons] at hw
    have h1 : Turns 1 ⟨.loop loop, trivia, passed, c :: w ++ t⟩
        ⟨.loop loop, trivia, passed ++ [c], w ++ t⟩ := if_pos hw.1
    have hi := h1.trans (ih (passed ++ [c]) hw.2)
    rwa [List.append_assoc] at hi

theorem turn_block (h : ¬ ['*', '/'] <+: c :: t) :
    turn ⟨.block, trivia, passed, c :: t⟩ = ⟨.block, trivia, passed ++ [c], t⟩ := by
  rw [turn]
  rintro t' rfl rfl
  exact h ⟨t', rfl⟩

/-- A comment goes on over what does not end it, whatever follows. -/
theorem turns_body (trivia passed : Text) (hb : ¬ ['*', '/'] <:+: body)
    (ht : ∀ d ∈ t.head?, d ≠ '/') :
    Turns body.length ⟨.block, trivia, passed, body ++ t⟩
      ⟨.block, trivia, passed ++ body, t⟩ := by
  induction body generalizing passed with
  | nil => simp [Turns]
  | cons c body ih =>
    rw [List.infix_cons_iff, not_or] at hb
    have hc : ¬ ['*', '/'] <+: c :: (body ++ t) := not_pair_append hb.1 ht
    have h1 : Turns 1 ⟨.block, trivia, passed, c :: body ++ t⟩
        ⟨.block, trivia, passed ++ [c], body ++ t⟩ := turn_block hc
    have hi := h1.trans (ih (passed ++ [c]) hb.2)
    rwa [List.append_assoc] at hi

/-- What starts is told by the class of its first character, unless it is a comment. -/
theorem start_cons (trivia : Text) (hs : c = '/' → ∀ d ∈ t.head?, d ≠ '/' ∧ d ≠ '*') :
    start trivia (c :: t) =
      if isSpace c then ⟨.loop .blanks, trivia, [c], t⟩
      else if isWordStart c then ⟨.loop .word, trivia, [c], t⟩
      else if c.isDigit then ⟨.loop .number, trivia, [c], t⟩
      else if c = '"' then ⟨.loop .string, trivia, [c], t⟩
      else ⟨.ended (Value.splitOperator c t).1, trivia, (Value.splitOperator c t).2.1,
        (Value.splitOperator c t).2.2⟩ := by
  rw [start.eq_4]
  · rintro t' rfl rfl
    exact (hs rfl '/' rfl).1 rfl
  · rintro t' rfl rfl
    exact (hs rfl '*' rfl).2 rfl

theorem start_blank (trivia : Text) (hc : Blank c) (t : Text) :
    start trivia (c :: t) = ⟨.loop .blanks, trivia, [c], t⟩ := by
  rw [start_cons, if_pos (isSpace_iff.mpr hc)]
  rintro rfl
  exact absurd hc (by decide)

/-- A piece of trivia is passed in fewer than two turns for each of its characters. -/
theorem turns_piece {p : Trivia.Piece} (trivia : Text) (hp : p.Complete rest) :
    ∃ n ≤ 2 * p.text.length,
      Turns n ⟨.start, trivia, [], p.text ++ rest⟩ ⟨.start, trivia ++ p.text, [], rest⟩ := by
  cases p with
  | blanks s =>
    obtain ⟨hn, hb, hr⟩ := hp
    obtain ⟨c, w, rfl⟩ := List.exists_cons_of_ne_nil hn
    rw [List.forall_mem_cons] at hb
    have hw : ∀ d ∈ w, Loop.blanks.accepts d = true := fun d hd => isSpace_iff.mpr (hb.2 d hd)
    have ht : ∀ d ∈ rest.head?, Loop.blanks.accepts d = false := by
      intro d hd
      rw [← Bool.not_eq_true]
      exact fun hs => hr d hd (isSpace_iff.mp hs)
    have h1 : Turns 1 ⟨.start, trivia, [], c :: w ++ rest⟩
        ⟨.loop .blanks, trivia, [c], w ++ rest⟩ := start_blank trivia hb.1 _
    refine ⟨_, ?_, h1.trans (turns_loop .blanks trivia [c] hw ht)⟩
    simp only [Trivia.Piece.text, List.length_cons]
    omega
  | line body =>
    obtain ⟨hb, hr⟩ := hp
    have hw : ∀ d ∈ body, Loop.line.accepts d = true :=
      fun d hd => decide_eq_true fun he => hb (he ▸ hd)
    have ht : ∀ d ∈ rest.head?, Loop.line.accepts d = false :=
      fun d hd => decide_eq_false (not_not_intro (hr d hd))
    have h1 : Turns 1 ⟨.start, trivia, [], '/' :: '/' :: body ++ rest⟩
        ⟨.loop .line, trivia, ['/', '/'], body ++ rest⟩ := rfl
    refine ⟨_, ?_, h1.trans (turns_loop .line trivia ['/', '/'] hw ht)⟩
    simp only [Trivia.Piece.text, List.length_cons]
    omega
  | block body =>
    have h1 : Turns 1 ⟨.start, trivia, [], '/' :: '*' :: (body ++ ['*', '/']) ++ rest⟩
        ⟨.block, trivia, ['/', '*'], body ++ '*' :: '/' :: rest⟩ := by
      simp [Turns, turn, start]
    have h2 := turns_body trivia ['/', '*'] hp (t := '*' :: '/' :: rest) (by simp)
    have h3 : Turns 1 ⟨.block, trivia, ['/', '*'] ++ body, '*' :: '/' :: rest⟩
        ⟨.start, trivia ++ (['/', '*'] ++ body ++ ['*', '/']), [], rest⟩ := rfl
    refine ⟨_, ?_, (h1.trans h2).trans h3⟩
    simp only [Trivia.Piece.text, List.length_cons, List.length_append]
    omega

/-- A loop passes all that it accepts, and is left. -/
theorem turns_takeWhile (loop : Loop) (trivia passed t : Text) :
    Turns ((t.takeWhile loop.accepts).length + 1) ⟨.loop loop, trivia, passed, t⟩
      (leave trivia (passed ++ t.takeWhile loop.accepts) loop (t.dropWhile loop.accepts)) := by
  have h := turns_loop loop trivia passed (w := t.takeWhile loop.accepts)
    (t := t.dropWhile loop.accepts) (fun c hc => of_mem_takeWhile hc)
    (fun c hc => of_mem_head?_dropWhile hc)
  rwa [List.takeWhile_append_dropWhile] at h

theorem turns_string (trivia t : Text) :
    ∃ n ≤ (Value.splitString t).2.1.length, Turns n ⟨.loop .string, trivia, ['"'], t⟩
      ⟨.ended (Value.splitString t).1, trivia, (Value.splitString t).2.1,
        (Value.splitString t).2.2⟩ := by
  have h : Turns ((t.takeWhile (· ≠ '"')).length + 1) ⟨.loop .string, trivia, ['"'], t⟩
      (leave trivia (['"'] ++ t.takeWhile (· ≠ '"')) .string (t.dropWhile (· ≠ '"'))) :=
    turns_takeWhile .string trivia ['"'] t
  have ht := List.takeWhile_append_dropWhile (p := (· ≠ '"')) (l := t)
  unfold Value.splitString
  cases hd : t.dropWhile (· ≠ '"') with
  | nil =>
    rw [hd, List.append_nil] at ht
    rw [hd, ht] at h
    exact ⟨_, Nat.le_refl _, h⟩
  | cons quote rest =>
    rw [hd] at h
    refine ⟨_, ?_, h⟩
    simp only [List.length_cons, List.length_append]
    omega

/-- Behind the trivia, a token is passed in at most two turns for each of its characters, and the end
of the text is told in one. -/
theorem turns_value (trivia : Text) (h : Clear t) :
    ∃ n ≤ 2 * (Value.split t).2.1.length + 1,
      Turns n ⟨.start, trivia, [], t⟩
        ⟨.ended (Value.split t).1, trivia, (Value.split t).2.1, (Value.split t).2.2⟩ := by
  cases t with
  | nil => exact ⟨1, by simp, rfl⟩
  | cons c t =>
    have hb : isSpace c = false := by
      rw [← Bool.not_eq_true, isSpace_iff]
      exact h.blank c rfl
    by_cases hcom : c = '/' ∧ ∃ body, t = '*' :: body
    · obtain ⟨rfl, body, rfl⟩ := hcom
      have h1 : Turns 1 ⟨.start, trivia, [], '/' :: '*' :: body⟩
          ⟨.block, trivia, ['/', '*'], body ++ []⟩ := by simp [Turns, turn, start]
      have h2 := turns_body trivia ['/', '*'] (h.block body rfl) (t := []) (by simp)
      have h3 : Turns 1 ⟨.block, trivia, ['/', '*'] ++ body, []⟩
          ⟨.ended .unterminatedComment, trivia, '/' :: '*' :: body, []⟩ := rfl
      refine ⟨_, ?_, (h1.trans h2).trans h3⟩
      simp only [Value.split, List.length_cons]
      omega
    have h1 : Turns 1 ⟨.start, trivia, [], c :: t⟩ (start trivia (c :: t)) := rfl
    rw [start_cons trivia (Trivia.second_of_clear h hcom), hb, if_neg Bool.false_ne_true] at h1
    by_cases hw : WordStart c
    · rw [if_pos (isWordStart_iff.mpr hw)] at h1
      rw [Value.split_word hw]
      refine ⟨_, ?_, h1.trans (turns_takeWhile .word trivia [c] t)⟩
      simp only [List.length_cons, Loop.accepts]
      omega
    rw [if_neg (isWordStart_iff.not.mpr hw)] at h1
    by_cases hd : Digit c
    · rw [if_pos (isDigit_iff.mpr hd)] at h1
      rw [Value.split_number hd]
      refine ⟨_, ?_, h1.trans (turns_takeWhile .number trivia [c] t)⟩
      simp only [List.length_cons, Loop.accepts]
      omega
    rw [if_neg (isDigit_iff.not.mpr hd)] at h1
    by_cases hq : c = '"'
    · subst hq
      rw [if_pos rfl] at h1
      rw [Value.split_quote]
      obtain ⟨n, hn, h2⟩ := turns_string trivia t
      exact ⟨n + 1, by omega, h1.trans h2⟩
    · rw [if_neg hq] at h1
      rw [Value.split_operator (fun body hc ht => hcom ⟨hc, body, ht⟩) hw hd hq]
      exact ⟨1, Nat.le_add_left 1 _, h1⟩

/-- From the start on, a reader comes to the token that is scanned. -/
theorem turns_scan (trivia t : Text) :
    ∃ n ≤ 2 * ((Scan.ofText t).trivia.length + (Scan.ofText t).value.length) + 1,
      Turns n ⟨.start, trivia, [], t⟩
        ⟨.ended (Scan.ofText t).kind, trivia ++ (Scan.ofText t).trivia, (Scan.ofText t).value,
          (Scan.ofText t).rest⟩ := by
  induction t using Trivia.complete_induction generalizing trivia with
  | clear t h =>
    obtain ⟨n, hn, ht⟩ := turns_value trivia h
    rw [Scan.ofText_of_clear h]
    refine ⟨n, ?_, ?_⟩
    · simpa using hn
    · simpa using ht
  | piece p rest hp ih =>
    obtain ⟨m, hm, hpiece⟩ := turns_piece trivia hp
    obtain ⟨n, hn, ht⟩ := ih (trivia ++ p.text)
    rw [List.append_assoc] at ht
    rw [Scan.ofText_piece hp]
    refine ⟨n + m, ?_, hpiece.trans ht⟩
    simp only [List.length_append]
    omega

end Reader
end LexCalc
