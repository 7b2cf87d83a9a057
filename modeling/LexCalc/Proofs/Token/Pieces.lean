import LexCalc.Proofs.Token.Reading
import LexCalc.Proofs.Token.Tiling

/-! The trivia of a token as whole pieces: runs of whitespace and comments, each as long as it can be,
and no piece left in front of the token. -/
namespace LexCalc
namespace Trivia
variable {after rest s t : Text}

/-- A run of whitespace, or a comment with the characters between its ends. -/
inductive Piece where
  | blanks (s : Text)
  | line (body : Text)
  | block (body : Text)
  deriving DecidableEq

namespace Piece
variable {p : Piece} {ps : List Piece}

def text : Piece → Text
  | blanks s => s
  | line body => '/' :: '/' :: body
  | block body => '/' :: '*' :: (body ++ ['*', '/'])

def texts (ps : List Piece) : Text := ps.flatMap text

/-- A piece goes as far as it can in front of `after`: a run up to another character, a line comment
up to a newline or the end of the text, a block comment to the first `*/` behind its opener. -/
def Complete (after : Text) : Piece → Prop
  | blanks s => s ≠ [] ∧ (∀ c ∈ s, Blank c) ∧ ∀ d ∈ after.head?, ¬ Blank d
  | line body => '\n' ∉ body ∧ ∀ d ∈ after.head?, d = '\n'
  | block body => ¬ ['*', '/'] <:+: body

theorem texts_cons (p : Piece) (ps : List Piece) : texts (p :: ps) = p.text ++ texts ps :=
  List.flatMap_cons

theorem length_text_pos (hp : p.Complete after) : 0 < p.text.length := by
  cases p with
  | blanks s => exact List.length_pos_iff.mpr hp.1
  | line body | block body => exact Nat.succ_pos _

end Piece

/-- Pieces one after another, the last one in front of `after`. -/
inductive Pieces (after : Text) : List Piece → Prop
  | nil : Pieces after []
  | cons {p : Piece} {ps : List Piece} (hp : p.Complete (Piece.texts ps ++ after))
      (h : Pieces after ps) : Pieces after (p :: ps)

theorem Pieces.complete {ps qs : List Piece} {p : Piece} (h : Pieces after (ps ++ p :: qs)) :
    p.Complete (Piece.texts qs ++ after) := by
  induction ps with
  | nil =>
    cases h with
    | cons hp _ => exact hp
  | cons _ ps ih =>
    cases h with
    | cons _ h => exact ih h

theorem exists_complete (h : ¬ Clear t) : ∃ (p : Piece) (rest : Text), t = p.text ++ rest ∧
    p.Complete rest := by
  obtain ⟨c, t, rfl, hc⟩ | ⟨t, rfl⟩ | ⟨body, rest, rfl, hb⟩ := exists_of_not_clear h
  · refine ⟨.blanks ((c :: t).takeWhile isSpace), (c :: t).dropWhile isSpace,
      List.takeWhile_append_dropWhile.symm, ?_, ?_, ?_⟩
    · simp [isSpace_iff.mpr hc]
    · intro d hd
      exact isSpace_iff.mp (of_mem_takeWhile hd)
    · intro d hd
      rw [← isSpace_iff, of_mem_head?_dropWhile hd]
      exact Bool.false_ne_true
  · refine ⟨.line (t.takeWhile (· ≠ '\n')), t.dropWhile (· ≠ '\n'), ?_, ?_, ?_⟩
    · simp [Piece.text, List.takeWhile_append_dropWhile]
    · exact fun hm => by simpa using of_mem_takeWhile hm
    · intro d hd
      simpa using of_mem_head?_dropWhile hd
  · exact ⟨.block body, rest, by simp [Piece.text], hb⟩

theorem split_blanks (hs : ∀ c ∈ s, Blank c) (t : Text) :
    split (s ++ t) = (s ++ (split t).1, (split t).2) := by
  induction s with
  | nil => rfl
  | cons c s ih =>
    rw [List.forall_mem_cons] at hs
    rw [List.cons_append, split_blank hs.1, ih hs.2]
    rfl

/-- A piece in front is cut off, and then what can be cut off the rest. -/
theorem split_piece {p : Piece} (hp : p.Complete rest) :
    split (p.text ++ rest) = (p.text ++ (split rest).1, (split rest).2) := by
  cases p with
  | blanks s => exact split_blanks hp.2.1 rest
  | line body => exact split_line hp.1 hp.2
  | block body =>
    have hs := split_block hp rest
    simpa [Piece.text] using hs

/-- Every text is clear behind some pieces. -/
theorem complete_induction {motive : Text → Prop} (clear : ∀ t, Clear t → motive t)
    (piece : ∀ (p : Piece) (rest : Text), p.Complete rest → motive rest → motive (p.text ++ rest))
    (t : Text) : motive t := by
  by_cases h : Clear t
  · exact clear t h
  · obtain ⟨p, rest, rfl, hp⟩ := exists_complete h
    exact piece p rest hp (complete_induction clear piece rest)
termination_by t.length
decreasing_by
  have hl := Piece.length_text_pos hp
  rw [‹t = p.text ++ rest›, List.length_append]
  omega

theorem exists_pieces (t : Text) :
    ∃ ps, (split t).1 = Piece.texts ps ∧ Pieces (split t).2 ps := by
  induction t using complete_induction with
  | clear t h =>
    rw [split_of_clear h]
    exact ⟨[], rfl, .nil⟩
  | piece p rest hp ih =>
    obtain ⟨ps, hs, h⟩ := ih
    rw [split_piece hp]
    refine ⟨p :: ps, ?_, .cons ?_ h⟩
    · rw [Piece.texts_cons, hs]
    · rwa [← hs, split_append]

end Trivia

namespace Lexer
open Trivia (Piece Pieces)
variable {l : Lexer}

theorem split_rest (l : Lexer) :
    Trivia.split l.rest = (l.next.1.trivia, l.next.1.value ++ l.next.2.rest) :=
  Prod.ext rfl (Value.split_append (Trivia.split l.rest).2).symm

theorem exists_pieces_next (l : Lexer) :
    ∃ ps, l.next.1.trivia = Piece.texts ps ∧ Pieces (l.next.1.value ++ l.next.2.rest) ps := by
  have h := Trivia.exists_pieces l.rest
  rwa [split_rest] at h

/-- Only a comment without an end starts like a comment. -/
theorem comment_prefix_iff (l : Lexer) :
    ['/', '*'] <+: l.next.1.value ++ l.next.2.rest ↔ l.next.1.kind = .unterminatedComment := by
  constructor
  · rintro ⟨body, hb⟩
    have hk : l.next.1.kind = (Value.split (Trivia.split l.rest).2).1 := rfl
    rw [hk, split_rest, ← hb]
    rfl
  · intro hk
    have hc := conforms_of_lexeme (lexeme_next l)
    rw [hk] at hc
    obtain ⟨body, hv, -⟩ := hc
    rw [hv]
    exact ⟨body ++ l.next.2.rest, rfl⟩

/-- A line comment in front of a token has a newline behind it, unless the token is the end. -/
theorem head?_of_line {ps qs : List Piece} {body : Text}
    (h : Pieces (l.next.1.value ++ l.next.2.rest) (ps ++ .line body :: qs)) :
    (Piece.texts qs ++ (l.next.1.value ++ l.next.2.rest)).head? = some '\n' ∨
      l.next.1.isEof = true := by
  have hline := h.complete.2
  cases hh : (Piece.texts qs ++ (l.next.1.value ++ l.next.2.rest)).head? with
  | some d =>
    rw [hline d hh]
    exact .inl rfl
  | none =>
    -- Nothing at all follows the comment.
    obtain ⟨-, hv⟩ := List.append_eq_nil_iff.mp (List.head?_eq_none_iff.mp hh)
    have hk := (lexeme_next l).value_eq_nil_iff.mp (List.append_eq_nil_iff.mp hv).1
    exact .inr (beq_iff_eq.mpr hk)

/-- The trivia of a token is a row of pieces, each as long as it can be. Only at the end of the text
can a line comment be without a newline behind it. What follows does not start with another piece;
it starts like a block comment if the token is one without an end, and only then. -/
theorem nth_trivia (source : Text) (k : Nat) :
    ∃ front pieces rest, let t := nth source k
      let after := t.value ++ rest
      source = front ++ (t.trivia ++ after) ∧ front.size = t.triviaSpan.start ∧
      t.trivia = Piece.texts pieces ∧ Pieces after pieces ∧
      (∀ ps body qs, pieces = ps ++ .line body :: qs →
        (Piece.texts qs ++ after).head? = some '\n' ∨ t.isEof = true) ∧
      (∀ c ∈ after.head?, ¬ Blank c) ∧ ¬ ['/', '/'] <+: after ∧
      (['/', '*'] <+: after ↔ t.kind = .unterminatedComment) ∧
      ∀ body, after = '/' :: '*' :: body → ¬ ['*', '/'] <:+: body := by
  generalize hl : (ofText source).after k = l
  obtain ⟨-, front, hs, hf⟩ := hl ▸ placed_after source k
  obtain ⟨pieces, htrivia, hpieces⟩ := exists_pieces_next l
  have hclear := Value.clear_of_lexeme (lexeme_next l)
  rw [nth, hl]
  refine ⟨front, pieces, l.next.2.rest, ?_, ?_, htrivia, hpieces, ?_, hclear.blank, hclear.line,
    comment_prefix_iff l, hclear.block⟩
  · rw [next_append, hs]
  · rw [triviaSpan_start_next, hf]
  · rintro ps body qs rfl
    exact head?_of_line hpieces

end Lexer
end LexCalc
