import LexCalc.Token.Basic
import LexCalc.Token.Scan

/-!
Reading the tokens of a text one after another. After the last token the end of the text is read
again and again. What is read here from characters is what `CursorLexer` reads from bytes.
-/
namespace LexCalc

namespace Token

/-- A scanned token in its place, when the scanned text starts at byte `start`. -/
def ofScan (start : Nat) (s : Scan) : Token :=
  let valueStart := start + s.trivia.size
  ⟨s.kind, s.trivia, s.value, ⟨valueStart, valueStart + s.value.size⟩⟩

end Token

structure Lexer where
  source : Text
  /-- What is not read yet. -/
  rest : Text
  position : Nat
  /-- The token read last. -/
  current : Token

namespace Lexer

/-- Before the first token the current one is an empty end at the start. -/
def ofText (source : Text) : Lexer := ⟨source, source, 0, ⟨.eof, [], [], .point 0⟩⟩

/-- Reads one token; at the end of the text an empty one. -/
def next (l : Lexer) : Token × Lexer :=
  let scan := Scan.ofText l.rest
  let token := Token.ofScan l.position scan
  (token, { l with rest := scan.rest, position := token.span.stop, current := token })

/-- Reads one token, which is an answer only if the text has not ended. -/
def next? (l : Lexer) : Option Token × Lexer :=
  let (token, l) := l.next
  (if token.isEof then none else some token, l)

/-- Reads up to and including the first end of text; `read` holds earlier tokens, last one
first. -/
def finishFrom (read : List Token) (l : Lexer) : List Token × Lexer :=
  if h : l.next.1.kind = .eof then ((l.next.1 :: read).reverse, l.next.2)
  else
    have : l.next.2.rest.length < l.rest.length := Scan.length_rest_lt h
    finishFrom (l.next.1 :: read) l.next.2
termination_by l.rest.length

/-- Reads all that is left: the tokens up to and including the end of the text. -/
def finish (l : Lexer) : List Token × Lexer := finishFrom [] l

/-- The tokens of a text, the end included. -/
def tokens (source : Text) : List Token := (ofText source).finish.1

end Lexer

end LexCalc
