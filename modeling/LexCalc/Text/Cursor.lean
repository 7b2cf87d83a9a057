import LexCalc.Text.Basic

/-!
A cursor that walks over the UTF-8 bytes of a text, one character at a time.
-/
namespace LexCalc

structure Cursor where
  source : Text
  bytes : ByteArray := (String.ofList source).toUTF8
  position : Nat := 0

namespace Cursor

def ofText (source : Text) : Cursor where
  source := source

/-- The character whose bytes start at the position. There is none at the end only: a NUL is a
character like any other. -/
def current (c : Cursor) : Option Char := c.bytes.utf8DecodeChar? c.position

def atEnd (c : Cursor) : Bool := c.bytes.size ≤ c.position

def advance (c : Cursor) : Cursor :=
  match c.current with
  | some x => { c with position := c.position + x.utf8Size }
  | none => c

/-- The character after the current one. -/
def peek (c : Cursor) : Option Char := c.current.bind fun _ => c.advance.current

/-- The current character and the one after it, if there are both. -/
def pair (c : Cursor) : Option Text :=
  match c.current, c.peek with
  | some x, some y => some [x, y]
  | _, _ => none

/-- The characters whose bytes start from `i` to before `stop`. -/
def textBetween (bytes : ByteArray) (stop i : Nat) : Text :=
  if i < stop then
    match bytes.utf8DecodeChar? i with
    | some x => x :: textBetween bytes stop (i + x.utf8Size)
    | none => []
  else []
termination_by stop - i
decreasing_by have := x.utf8Size_pos; omega

def remaining (c : Cursor) : Text := textBetween c.bytes c.bytes.size c.position

/-- Whether no character has bytes on both sides of `i`: the ends of the text, and any byte that
is no continuation byte. -/
def isBoundary (bytes : ByteArray) (i : Nat) : Bool :=
  i == 0 ||
    match bytes[i]? with
    | some b => b &&& 0xc0 != 0x80
    | none => i == bytes.size

/-- The text from an earlier offset up to the position, if the offset falls between characters. -/
def sliceFrom (c : Cursor) (start : Nat) : Option Text :=
  if start ≤ c.position && isBoundary c.bytes start then
    some (textBetween c.bytes c.position start)
  else none

theorem position_lt_of_current {c : Cursor} {x : Char} (h : c.current = some x) :
    c.position < c.bytes.size :=
  ByteArray.lt_size_of_isSome_utf8DecodeChar? (by
    rw [show c.bytes.utf8DecodeChar? c.position = some x from h]; rfl)

/-- Passes over characters while `p` accepts them. The predicate carries a state along and is
asked once for each character passed and for the one refused. -/
def eatWhile {σ : Type} (p : σ → Char → Bool × σ) (s : σ) (c : Cursor) : Cursor × σ :=
  match h : c.current with
  | none => (c, s)
  | some x =>
    have _ := position_lt_of_current h
    have _ := x.utf8Size_pos
    match p s x with
    | (true, s) => eatWhile p s { c with position := c.position + x.utf8Size }
    | (false, s) => (c, s)
termination_by c.bytes.size - c.position

end Cursor

end LexCalc
