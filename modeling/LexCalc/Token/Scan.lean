import LexCalc.Text.Basic
import LexCalc.Token.Kind

/-!
The first token of a text: the trivia before it, its kind and its characters. What is left after
it is shorter than the text, unless the text has ended.
-/
namespace LexCalc

def isSpace (c : Char) : Bool :=
  c = ' ' || c = '\t' || c = '\n' || c = '\x0b' || c = '\x0c' || c = '\r'

/-- ASCII letters, `_` and `$`. -/
def isWordStart (c : Char) : Bool := c.isAlpha || c = '_' || c = '$'

def isWordPart (c : Char) : Bool := isWordStart c || c.isDigit

namespace Trivia

/-- How many characters a block comment has, of which `n` are before `t`. The first `*/` ends it;
comments do not nest. -/
def blockLength? (n : Nat) : Text → Option Nat
  | '*' :: '/' :: _ => some (n + 2)
  | _ :: t => blockLength? (n + 1) t
  | [] => none

/-- The number of characters of a run of whitespace, a line comment or a complete block comment at
the front; zero if there is none. A line comment ends before the newline. -/
def pieceLength : Text → Nat
  | '/' :: '/' :: t => (t.takeWhile (· ≠ '\n')).length + 2
  | '/' :: '*' :: t => (blockLength? 2 t).getD 0
  | t => (t.takeWhile isSpace).length

/-- Cuts off all trivia at the front. `skipped` holds, in reverse, what is cut off already. -/
def skip (skipped t : Text) : Text × Text :=
  let n := pieceLength t
  if n = 0 ∨ t = [] then (skipped.reverse, t)
  else skip ((t.take n).reverseAux skipped) (t.drop n)
termination_by t.length
decreasing_by
  have := List.length_pos_iff.mpr (show t ≠ [] by simp_all)
  simp only [List.length_drop]; omega

/-- The trivia at the front, and the rest. -/
def split (t : Text) : Text × Text := skip [] t

end Trivia

namespace Value

/-- A word is an identifier unless it is reserved. -/
def wordKind (word : Text) : Kind := (Kind.ofWord? word).getD .identifier

/-- A string literal ends at the next quote; a backslash is a character like any other. -/
def splitString (opened : Text) : Kind × Text × Text :=
  match opened.dropWhile (· ≠ '"') with
  | quote :: rest => (.stringLiteral, '"' :: (opened.takeWhile (· ≠ '"') ++ [quote]), rest)
  | [] => (.unterminatedStringLiteral, '"' :: opened, [])

/-- An operator of two characters is preferred to one of a single character. A character that is
no operator is a token of its own. -/
def splitOperator (c : Char) (t : Text) : Kind × Text × Text :=
  let single := ((Kind.ofSingle? c).getD .invalid, [c], t)
  match t with
  | d :: rest =>
    match Kind.ofPair? c d with
    | some kind => (kind, [c, d], rest)
    | none => single
  | [] => single

/-- The kind and the characters of the token at the front of a text that starts with no trivia,
and the rest. A `/*` is there only if the comment has no end. -/
def split : Text → Kind × Text × Text
  | [] => (.eof, [], [])
  | '/' :: '*' :: t => (.unterminatedComment, '/' :: '*' :: t, [])
  | c :: t =>
    if isWordStart c then
      let word := c :: t.takeWhile isWordPart
      (wordKind word, word, t.dropWhile isWordPart)
    else if c.isDigit then
      (.numericLiteral, c :: t.takeWhile Char.isDigit, t.dropWhile Char.isDigit)
    else if c = '"' then splitString t
    else splitOperator c t

end Value

/-- The first token of a text, and the text after it. -/
structure Scan where
  trivia : Text
  kind : Kind
  value : Text
  rest : Text

namespace Scan

def ofText (t : Text) : Scan :=
  let (trivia, valued) := Trivia.split t
  let (kind, value, rest) := Value.split valued
  ⟨trivia, kind, value, rest⟩

end Scan

theorem length_dropWhile_le (p : Char → Bool) (t : Text) : (t.dropWhile p).length ≤ t.length :=
  (List.dropWhile_sublist p).length_le

theorem Trivia.length_skip_le (skipped t : Text) : (skip skipped t).2.length ≤ t.length := by
  fun_induction skip skipped t with
  | case1 => exact Nat.le_refl _
  | case2 skipped t n h ih =>
    simp only [List.length_drop] at ih
    omega

theorem Trivia.length_split_le (t : Text) : (split t).2.length ≤ t.length :=
  length_skip_le [] t

theorem Value.length_splitString_le (t : Text) : (splitString t).2.2.length ≤ t.length := by
  have h := length_dropWhile_le (· ≠ '"') t
  unfold splitString
  split
  · next hr =>
    rw [hr, List.length_cons] at h
    exact Nat.le_of_succ_le h
  · exact Nat.zero_le _

theorem Value.length_splitOperator_le (c : Char) (t : Text) :
    (splitOperator c t).2.2.length ≤ t.length := by
  unfold splitOperator
  split
  · split <;> simp
  · simp

/-- Only the end of the text has no token in front of a shorter rest. -/
theorem Value.length_split_lt {t : Text} (h : (split t).1 ≠ .eof) :
    (split t).2.2.length < t.length := by
  unfold split at h ⊢
  split
  · simp at h
  · simp
  · next c t _ =>
    simp only [List.length_cons, Nat.lt_succ_iff]
    split
    · exact length_dropWhile_le _ t
    · split
      · exact length_dropWhile_le _ t
      · split
        · exact length_splitString_le t
        · exact length_splitOperator_le c t

theorem Scan.length_rest_lt {t : Text} (h : (ofText t).kind ≠ .eof) :
    (ofText t).rest.length < t.length :=
  Nat.lt_of_lt_of_le (Value.length_split_lt h) (Trivia.length_split_le t)

end LexCalc
