import LexCalc.Text.Cursor
import LexCalc.Token.Basic
import LexCalc.Token.Scan

/-!
Reading tokens with a cursor over the bytes of the source. Every offset, in a token and in the log,
is where the cursor stood when something began.
-/
namespace LexCalc

namespace Cursor
variable {c : Cursor} {p : Char → Bool} {x : Char}

/-- Passes over characters while `p` holds. -/
def eatAll (p : Char → Bool) (c : Cursor) : Cursor := (c.eatWhile (fun _ x => (p x, ())) ()).1

/-- The number of bytes that are left. -/
def left (c : Cursor) : Nat := c.bytes.size - c.position

theorem left_passed_lt (h : c.current = some x) :
    left { c with position := c.position + x.utf8Size } < c.left := by
  have := position_lt_of_current h
  have := x.utf8Size_pos
  simp only [left]
  omega

theorem left_advance_lt (h : c.current = some x) : c.advance.left < c.left := by
  rw [advance, h]
  exact left_passed_lt h

theorem left_advance_le (c : Cursor) : c.advance.left ≤ c.left := by
  cases h : c.current with
  | none => exact Nat.le_of_eq (by rw [advance, h])
  | some x => exact Nat.le_of_lt (left_advance_lt h)

theorem left_eatWhile_le {σ : Type} (p : σ → Char → Bool × σ) (s : σ) (c : Cursor) :
    (c.eatWhile p s).1.left ≤ c.left := by
  fun_induction eatWhile p s c with
  | case1 => exact Nat.le_refl _
  | case2 s c x h _ _ t hp ih => exact Nat.le_trans ih (Nat.le_of_lt (left_passed_lt h))
  | case3 => exact Nat.le_refl _

theorem left_eatAll_le (p : Char → Bool) (c : Cursor) : (c.eatAll p).left ≤ c.left :=
  left_eatWhile_le _ () c

theorem left_eatAll_lt (h : c.current = some x) (hp : p x = true) :
    (c.eatAll p).left < c.left := by
  rw [eatAll, eatWhile]
  split
  · next hn => cases h.symm.trans hn
  · next y hy =>
    cases h.symm.trans hy
    rw [hp]
    exact Nat.lt_of_le_of_lt (left_eatWhile_le _ () _) (left_passed_lt h)

/-- Passes over a line comment up to its newline. -/
def skipLine (c : Cursor) : Cursor := c.advance.advance.eatAll (· ≠ '\n')

/-- Passes over a block comment behind its opener; whether there is a `*/`. -/
def skipBody (c : Cursor) : Bool × Cursor :=
  match h : c.current with
  | none => (false, c)
  | some x =>
    have := left_advance_lt h
    if x = '*' ∧ c.peek = some '/' then (true, c.advance.advance)
    else c.advance.skipBody
termination_by c.left

theorem left_skipLine_lt (h : c.current = some x) : c.skipLine.left < c.left :=
  Nat.lt_of_le_of_lt (Nat.le_trans (left_eatAll_le _ _) (left_advance_le _)) (left_advance_lt h)

theorem left_skipBody_le (c : Cursor) : c.skipBody.2.left ≤ c.left := by
  fun_induction skipBody c with
  | case1 => exact Nat.le_refl _
  | case2 c => exact Nat.le_trans (left_advance_le _) (left_advance_le c)
  | case3 c x h _ hx ih => exact Nat.le_trans ih (left_advance_le c)

end Cursor

/-- A lexer that stands at a place in the bytes of its source. -/
structure CursorLexer where
  cursor : Cursor
  /-- The token read last. -/
  current : Token
  /-- What has been logged. -/
  log : List Log.Line := []

namespace CursorLexer

/-- Before the first token the current one is an empty end at the start. -/
def ofText (source : Text) : CursorLexer where
  cursor := .ofText source
  current := ⟨.eof, [], [], .point 0⟩

def position (l : CursorLexer) : Nat := l.cursor.position

/-- Passes over a block comment; whether it has an end. -/
def skipBlock (l : CursorLexer) : Bool × CursorLexer :=
  let start := l.position
  match l.cursor.advance.advance.skipBody with
  | (true, cursor) => (true, { l with cursor })
  | (false, cursor) =>
    let line := .debug s!"unterminated block comment starting at byte {start}"
    (false, { l with cursor, log := l.log ++ [line] })

theorem left_skipBlock_lt {l : CursorLexer} {x : Char} (h : l.cursor.current = some x) :
    l.skipBlock.2.cursor.left < l.cursor.left := by
  have hb := Cursor.left_skipBody_le l.cursor.advance.advance
  have ha := Cursor.left_advance_le l.cursor.advance
  have hl := Cursor.left_advance_lt h
  unfold skipBlock
  split <;> simp_all only <;> omega

/-- Passes over whitespace and comments. The answer is the start of a comment that has no end. -/
def skipTrivia (l : CursorLexer) : Option Nat × CursorLexer :=
  match h : l.cursor.current with
  | none => (none, l)
  | some x =>
    if hx : isSpace x then
      have := Cursor.left_eatAll_lt h hx
      skipTrivia { l with cursor := l.cursor.eatAll isSpace }
    else if x = '/' ∧ l.cursor.peek = some '/' then
      have := Cursor.left_skipLine_lt h
      skipTrivia { l with cursor := l.cursor.skipLine }
    else if x = '/' ∧ l.cursor.peek = some '*' then
      let start := l.position
      have := left_skipBlock_lt h
      if l.skipBlock.1 then skipTrivia l.skipBlock.2
      else (some start, l.skipBlock.2)
    else (none, l)
termination_by l.cursor.left

def lexIdentifier (l : CursorLexer) : Option (Kind × CursorLexer) := do
  let start := l.position
  let cursor := l.cursor.advance.eatAll isWordPart
  let word ← cursor.sliceFrom start
  return (Value.wordKind word, { l with cursor })

def lexNumber (l : CursorLexer) : Kind × CursorLexer :=
  (.numericLiteral, { l with cursor := l.cursor.eatAll Char.isDigit })

def lexString (l : CursorLexer) : Kind × CursorLexer :=
  let start := l.position
  let cursor := l.cursor.advance.eatAll (· ≠ '"')
  if cursor.atEnd then
    let line := .debug s!"unterminated string literal starting at byte {start}"
    (.unterminatedStringLiteral, { l with cursor, log := l.log ++ [line] })
  else (.stringLiteral, { l with cursor := cursor.advance })

def lexOperator (c : Char) (l : CursorLexer) : Kind × CursorLexer :=
  let pair? := match l.cursor.pair with
    | some [x, y] => Kind.ofPair? x y
    | _ => none
  match pair? with
  | some kind => (kind, { l with cursor := l.cursor.advance.advance })
  | none => ((Kind.ofSingle? c).getD .invalid, { l with cursor := l.cursor.advance })

/-- Passes over the token at the place of the cursor. There is no answer if the word of an identifier
is not cut out between characters. -/
def lexValue (l : CursorLexer) : Option (Kind × CursorLexer) :=
  match l.cursor.current with
  | none => some (.eof, l)
  | some c =>
    if isWordStart c then l.lexIdentifier
    else if c.isDigit then some l.lexNumber
    else if c = '"' then some l.lexString
    else some (l.lexOperator c)

/-- Passes over the trivia and the token behind it. The answer is the kind of the token and where it
starts. -/
def skipToken (l : CursorLexer) : Option (Kind × Nat × CursorLexer) :=
  match l.skipTrivia with
  | (some start, l) => some (.unterminatedComment, start, l)
  | (none, l) => l.lexValue.map fun (kind, m) => (kind, l.position, m)

/-- Reads one token. There is no answer if an offset is not between characters. -/
def next (l : CursorLexer) : Option (Token × CursorLexer) := do
  let triviaStart := l.position
  let (kind, start, l) ← l.skipToken
  let trivia ← Span.slice ⟨triviaStart, start⟩ l.cursor.source
  let value ← Span.slice ⟨start, l.position⟩ l.cursor.source
  let token := ⟨kind, trivia, value, ⟨start, l.position⟩⟩
  return (token, { l with current := token })

/-- Reads some tokens one after another. -/
def read (l : CursorLexer) : Nat → Option (List Token × CursorLexer)
  | 0 => some ([], l)
  | n + 1 => do
    let (token, l) ← l.next
    let (tokens, l) ← l.read n
    return (token :: tokens, l)

end CursorLexer

end LexCalc
