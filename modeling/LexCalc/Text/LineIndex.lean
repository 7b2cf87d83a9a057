import LexCalc.Text.Span

/-!
Lines of a text. The offsets where lines start are kept in order, so the line of an offset is
found by halving.
-/
namespace LexCalc

/-- A place in a text: line and column count from one, columns in bytes. -/
structure Place where
  line : Nat
  column : Nat
  deriving DecidableEq, Repr

structure LineIndex where
  starts : Array Nat
  size : Nat
  deriving Repr

namespace LineIndex

/-- Goes on over one character: the offsets of the lines so far and the offset reached. -/
def step (s : Array Nat × Nat) (c : Char) : Array Nat × Nat :=
  let offset := s.2 + c.utf8Size
  (if c = '\n' then s.1.push offset else s.1, offset)

/-- A line starts at the start of the text and after each newline. -/
def ofText (source : Text) : LineIndex :=
  let (starts, size) := source.foldl step (#[0], 0)
  ⟨starts, size⟩

def lineCount (ix : LineIndex) : Nat := ix.starts.size

/-- The offset where a line starts; lines count from one. -/
def lineStart (ix : LineIndex) (line : Nat) : Except SpanError Nat :=
  match line with
  | 0 => .error (.noSuchLine 0 ix.lineCount)
  | i + 1 =>
    match ix.starts[i]? with
    | some offset => .ok offset
    | none => .error (.noSuchLine (i + 1) ix.lineCount)

/-- The number of entries at most `x` in a sorted array, by halving the places `lo` to `hi` that
are still open. -/
def countUpTo (xs : Array Nat) (x lo hi : Nat) : Nat :=
  if lo < hi then
    let mid := lo + (hi - lo) / 2
    match xs[mid]? with
    | some y => if y ≤ x then countUpTo xs x (mid + 1) hi else countUpTo xs x lo mid
    | none => lo
  else lo
termination_by hi - lo

/-- The line and column of an offset, also of one inside a character. -/
def place (ix : LineIndex) (offset : Nat) : Except SpanError Place :=
  if ix.size < offset then .error (.offsetOutOfBounds ix.size offset)
  else
    let line := countUpTo ix.starts offset 0 ix.starts.size
    .ok ⟨line, offset - ix.starts.getD (line - 1) 0 + 1⟩

end LineIndex

end LexCalc
