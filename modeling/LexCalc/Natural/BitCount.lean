import LexCalc.Text.Quoted

/-!
Decimal bit counts: an optional `+` and ASCII digits, up to a fixed maximum.
-/
namespace LexCalc

inductive BitCountError where
  | empty
  | invalidDigit (text : Text)
  /-- The digits before the first other character denote `2 ^ 64` or more. -/
  | tooLarge (text : Text)
  | aboveMaximum (bits : Nat)
  deriving DecidableEq, Repr

namespace BitCount

/-- The largest shift, two mebibytes of words. -/
def maximum : Nat := 0x1000000

def withoutSign : Text → Text
  | '+' :: t => t
  | t => t

def ofText (text : Text) : Except BitCountError Nat :=
  let body := withoutSign text
  let digits := body.takeWhile Char.isDigit
  let n := Text.decimalValue digits
  if text.isEmpty then .error .empty
  else if UInt64.size ≤ n then .error (.tooLarge text)
  else if digits.isEmpty || digits.length < body.length then .error (.invalidDigit text)
  else if maximum < n then .error (.aboveMaximum n)
  else .ok n

end BitCount

namespace BitCountError

/-- The part of the message that says what is wrong with the numeral. -/
def reason (text : Text) (why : String) : String :=
  "Invalid bit count " ++ String.ofList text.quoted ++ ": " ++ why

def message : BitCountError → String
  | empty => reason [] "cannot parse integer from empty string"
  | invalidDigit text => reason text "invalid digit found in string"
  | tooLarge text => reason text "number too large to fit in target type"
  | aboveMaximum bits =>
    s!"Invalid bit count {bits}: exceeds the maximum of {BitCount.maximum}"

end BitCountError

end LexCalc
