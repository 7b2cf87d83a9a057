import LexCalc.Text.Basic

/-!
Ranges of byte offsets into a text. A span may be reversed; it then cuts nothing out.
-/
namespace LexCalc

/-- What is wrong with a span, an offset or a line number. -/
inductive SpanError where
  | reversed (start stop : Nat)
  | offsetOutOfBounds (size offset : Nat)
  | noSuchLine (line lines : Nat)
  deriving DecidableEq, Repr

def SpanError.message : SpanError → String
  | reversed start stop => s!"Invalid span: start {start} > end {stop}"
  | offsetOutOfBounds size offset =>
    s!"Offset out of bounds: source has {size} bytes, offset is {offset}"
  | noSuchLine line lines => s!"Invalid line number: {line} (source has {lines} lines)"

structure Span where
  start : Nat
  stop : Nat
  deriving DecidableEq, Repr, Inhabited

namespace Span

def point (offset : Nat) : Span := ⟨offset, offset⟩

def ofBounds (start stop : Nat) : Except SpanError Span :=
  if stop < start then .error (.reversed start stop) else .ok ⟨start, stop⟩

def isEmpty (s : Span) : Bool := s.start == s.stop

def length (s : Span) : Nat := s.stop - s.start

def contains (s : Span) (offset : Nat) : Bool := s.start ≤ offset && offset < s.stop

/-- The least span that reaches from the earlier start to the later end. -/
def merge (s t : Span) : Span := ⟨min s.start t.start, max s.stop t.stop⟩

/-- The text between the two offsets, if both fall between characters of `source`. -/
def slice (s : Span) (source : Text) : Option Text := do
  if s.stop < s.start then none
  else
    let (_, rest) ← source.splitAt? s.start
    let (cut, _) ← rest.splitAt? (s.stop - s.start)
    return cut

end Span

end LexCalc
