import LexCalc.Natural.Basic
import LexCalc.Text.Quoted

/-!
Hexadecimal numerals. Written ones are canonical: `0x` and no leading zero. Read ones may leave
out the `0x`, put `_` between digits and have leading zeros, which stay as words of the number.
-/
namespace LexCalc

inductive HexError where
  | emptyOperand (text : Text)
  /-- The first character of the body that is neither a digit nor `_`. -/
  | invalidDigit (digit : Char) (text : Text)
  deriving DecidableEq, Repr

def HexError.message : HexError → String
  | emptyOperand text => "Empty hexadecimal operand: " ++ String.ofList text.quoted
  | invalidDigit digit text =>
    "Invalid hexadecimal digit " ++ String.ofList (Text.quotedChar digit) ++ " in " ++
      String.ofList text.quoted

namespace Natural

/-- The value of an ASCII hexadecimal digit of either case. -/
def hexValue? (c : Char) : Option Nat :=
  if '0' ≤ c ∧ c ≤ '9' then some (c.toNat - '0'.toNat)
  else if 'a' ≤ c ∧ c ≤ 'f' then some (c.toNat - 'a'.toNat + 10)
  else if 'A' ≤ c ∧ c ≤ 'F' then some (c.toNat - 'A'.toNat + 10)
  else none

/-- What is left of an operand without one leading `0x` or `0X`. -/
def hexBody : Text → Text
  | '0' :: 'x' :: body => body
  | '0' :: 'X' :: body => body
  | body => body

/-- The word of up to eight digits, least significant first. -/
def wordOfHex (digits : Text) : Word :=
  digits.foldr (fun c w => UInt32.ofNat ((hexValue? c).getD 0) + 16 * w) 0

/-- Cuts digits, least significant first, into words of eight digits. -/
def wordsOfHex (digits : Text) (formed : List Word) : Words :=
  match digits with
  | [] => formed.reverse
  | d :: ds => wordsOfHex (ds.drop 7) (wordOfHex (d :: ds.take 7) :: formed)
termination_by digits.length
decreasing_by simp only [List.length_cons, List.length_drop]; omega

/-- Reads an operand: an optional `0x`, then digits and `_`, with one digit at least. -/
def ofHex (text : Text) : Except HexError Natural :=
  let digits := (hexBody text).filter (· ≠ '_')
  if digits.isEmpty then .error (.emptyOperand text)
  else
    match digits.find? fun c => (hexValue? c).isNone with
    | some c => .error (.invalidDigit c text)
    | none => .ok (.ofWords (wordsOfHex digits.reverse []))

/-- The eight digits of a word. -/
def hexOfWord (w : Word) : Text :=
  let digits := Nat.toDigits 16 w.toNat
  List.replicate (8 - digits.length) '0' ++ digits

/-- The numeral of a word list in lower case, without leading zeros. -/
def hexOfWords (ws : Words) : Text :=
  match ws.leading with
  | [] => ['0']
  | top :: rest => Nat.toDigits 16 top.toNat ++ rest.flatMap hexOfWord

/-- The written form of a number, or a marker that no number has. -/
def toHex (uppercase : Bool) (a : Natural) : Text :=
  if a.isInvalid then "<invalid>".toList
  else
    let digits := hexOfWords a.words
    '0' :: 'x' :: if uppercase then digits.map Char.toUpper else digits

end Natural

end LexCalc
