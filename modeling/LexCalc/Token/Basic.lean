import LexCalc.Log
import LexCalc.Text.Binary64
import LexCalc.Text.Span
import LexCalc.Token.Kind

/-!
Tokens: a piece of text with its kind, its place, and the trivia before it.
-/
namespace LexCalc

structure Token where
  kind : Kind
  trivia : Text
  value : Text
  /-- Where the value stands. -/
  span : Span
  deriving DecidableEq, Repr

namespace Token

/-- Where the trivia stands: right before the value. -/
def triviaSpan (t : Token) : Span := ⟨t.span.start - t.trivia.size, t.span.start⟩

def isEof (t : Token) : Bool := t.kind == .eof

/-- The number that a numeric literal denotes. -/
def decimal? (t : Token) : Option Decimal :=
  if t.kind = .numericLiteral then Decimal.ofText? t.value else none

/-- The characters of a string literal without its quotes. -/
def string? (t : Token) : Option Text :=
  match t.kind with
  | .stringLiteral => Span.slice ⟨1, t.value.size - 1⟩ t.value
  | .unterminatedStringLiteral => Span.slice ⟨1, t.value.size⟩ t.value
  | _ => none

def bool? (t : Token) : Option Bool :=
  if t.kind = .boolLiteral then some (t.value == ['t', 'r', 'u', 'e']) else none

/-- What is logged when the token is read: the start of what has no end. -/
def log (t : Token) : List Log.Line :=
  match t.kind with
  | .unterminatedStringLiteral =>
    [.debug s!"unterminated string literal starting at byte {t.span.start}"]
  | .unterminatedComment =>
    [.debug s!"unterminated block comment starting at byte {t.span.start}"]
  | _ => []

end Token

end LexCalc
