import LexCalc.Config.Basic
import LexCalc.Natural.BitCount
import LexCalc.Natural.Hexadecimal
import LexCalc.Outcome

/-!
One operation on two written operands. The left operand is read first, and the first operand that
cannot be read decides the failure.
-/
namespace LexCalc

namespace Calculation

inductive Operation where
  | add
  | sub
  | mul
  | shl
  deriving DecidableEq, Repr

/-- The word that names the operation on a command line. -/
def Operation.word : Operation → String
  | add => "add"
  | sub => "sub"
  | mul => "mul"
  | shl => "shl"

def Operation.ofWord? (word : String) : Option Operation :=
  [add, sub, mul, shl].find? (·.word == word)

/-- The operation in the log. -/
def Operation.name : Operation → String
  | add => "Add"
  | sub => "Sub"
  | mul => "Mul"
  | shl => "Shl"

end Calculation

structure Calculation where
  operation : Calculation.Operation
  lhs : Text
  rhs : Text
  deriving DecidableEq, Repr

namespace Calculation

def hexOperand (text : Text) : Except Failure Natural :=
  match Natural.ofHex text with
  | .ok n => .ok n
  | .error e => .error (.validation e.message)

def bitCount (text : Text) : Except Failure Nat :=
  match BitCount.ofText text with
  | .ok n => .ok n
  | .error e => .error (.validation e.message)

/-- The operation on a left operand that has been read and a right one that has not. -/
def apply (operation : Operation) (lhs : Natural) (rhs : Text) : Except Failure Natural := do
  match operation with
  | .shl => return lhs.shiftLeft (← bitCount rhs)
  | .add => return lhs.add (← hexOperand rhs)
  | .mul => return lhs.mul (← hexOperand rhs)
  | .sub =>
    match lhs.checkedSub (← hexOperand rhs) with
    | .ok difference => return difference
    | .error e => throw (.arithmetic e)

def execute (c : Calculation) : Except Failure Natural := do
  match (← apply c.operation (← hexOperand c.lhs) c.rhs).toExcept with
  | .ok value => return value
  | .error e => throw (.arithmetic e)

/-- What is logged: the size of the left operand, once it has been read. -/
def log (c : Calculation) : List Log.Line :=
  match hexOperand c.lhs with
  | .ok lhs =>
    [.debug s!"calc {c.operation.name}: lhs has {lhs.trimmedLength} significant word(s)"]
  | .error _ => []

/-- Prints the result on a line. -/
def run (c : Calculation) (uppercase : Bool) (base : CalculationConfig) : Outcome :=
  match c.execute with
  | .error e => .failed c.log e
  | .ok value =>
    { output := value.toHex (uppercase || base.uppercase) ++ ['\n'], log := c.log }

end Calculation

end LexCalc
