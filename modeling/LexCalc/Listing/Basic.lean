import LexCalc.Text.LineIndex
import LexCalc.Token.Lexer

/-!
Listings: what a file holds, token by token, with the line and column where each token starts.
-/
namespace LexCalc

/-- One token of a listing. -/
structure Record where
  kind : Kind
  value : Text
  trivia : Text
  start : Nat
  stop : Nat
  place : Place
  deriving DecidableEq, Repr

/-- The tokens of one file; its path is the bytes by which the file was named. -/
structure Listing where
  path : List UInt8
  records : List Record
  deriving DecidableEq, Repr

namespace Record

def ofToken (index : LineIndex) (t : Token) : Except SpanError Record := do
  let place ← index.place t.span.start
  return ⟨t.kind, t.value, t.trivia, t.span.start, t.span.stop, place⟩

/-- The records of a text, its end included. -/
def ofSource (source : Text) : Except SpanError (List Record) :=
  (Lexer.tokens source).mapM (ofToken (LineIndex.ofText source))

end Record

namespace Listing

/-- How many tokens are malformed. -/
def errorCount (l : Listing) : Nat := l.records.countP (·.kind.isError)

end Listing

end LexCalc
