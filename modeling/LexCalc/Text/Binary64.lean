import LexCalc.Text.Basic

/-!
Decimal numerals as binary floating-point numbers of 64 bits: the nearest one, of two equally near
ones the even one.
-/
namespace LexCalc

/-- A number `± mantissa * 10 ^ exponent`, or one of the values that no digits denote. -/
inductive Decimal where
  | finite (negative : Bool) (mantissa : Nat) (exponent : Int)
  | infinite (negative : Bool)
  | nan
  deriving DecidableEq, Repr

namespace Decimal

open Text (decimalValue)

/-- A leading sign, true for minus, and the rest. -/
def splitSign : Text → Bool × Text
  | '-' :: t => (true, t)
  | '+' :: t => (false, t)
  | t => (false, t)

/-- A whole number: one digit or more after an optional sign. -/
def int? (t : Text) : Option Int :=
  let (negative, digits) := splitSign t
  if digits.isEmpty || !digits.all Char.isDigit then none
  else if negative then some (-(decimalValue digits : Int)) else some (decimalValue digits)

/-- The digits after a point, if there is one, and the rest. -/
def splitFraction : Text → Text × Text
  | '.' :: t => (t.takeWhile Char.isDigit, t.dropWhile Char.isDigit)
  | t => ([], t)

/-- Digits with an optional point among or around them, then an optional exponent. -/
def ofUnsigned? (negative : Bool) (t : Text) : Option Decimal :=
  let whole := t.takeWhile Char.isDigit
  let (fraction, rest) := splitFraction (t.dropWhile Char.isDigit)
  if whole.isEmpty && fraction.isEmpty then none
  else
    let mantissa := decimalValue (whole ++ fraction)
    match rest with
    | [] => some (finite negative mantissa (-fraction.length))
    | e :: exponent =>
      if e = 'e' || e = 'E' then
        (int? exponent).map fun n => finite negative mantissa (n - fraction.length)
      else none

/-- Reads a numeral; the names of the values without digits may be in any case. -/
def ofText? (t : Text) : Option Decimal :=
  let (negative, body) := splitSign t
  let name := body.map Char.toLower
  if name = ['i', 'n', 'f'] || name = ['i', 'n', 'f', 'i', 'n', 'i', 't', 'y'] then
    some (infinite negative)
  else if name = ['n', 'a', 'n'] then some nan
  else ofUnsigned? negative body

end Decimal

namespace Binary64

/-- The bits of infinity; those of a finite number are below. -/
def infinity : Nat := 0x7ff0000000000000

/-- The quotient rounded to the nearest whole number, a half to the even one. -/
def roundDiv (num den : Nat) : Nat :=
  let q := num / den
  let r := 2 * (num % den)
  if den < r || (r = den && q % 2 = 1) then q + 1 else q

/-- `num / den` divided by `2 ^ q`, as a fraction. -/
def scale (num den : Nat) (q : Int) : Nat × Nat :=
  if 0 ≤ q then (num, den <<< q.toNat) else (num <<< (-q).toNat, den)

/-- The bits of a positive fraction. Of the powers `2 ^ q` that divide it into a whole part of 53
bits, or are the least there is, the rounded quotient is the significand. -/
def ofFraction (num den : Nat) : Nat :=
  let q₀ : Int := (num.log2 : Int) - den.log2 - 53
  let (n, d) := scale num den q₀
  let q := max (if 1 <<< 53 ≤ n / d then q₀ + 1 else q₀) (-1074)
  let (n, d) := scale num den q
  min (((q + 1074).toNat <<< 52) + roundDiv n d) infinity

/-- The bits of `mantissa * 10 ^ exponent`. Far out of range the powers are not formed. -/
def ofScaled (mantissa : Nat) (exponent : Int) : Nat :=
  let magnitude := exponent + (Nat.toDigits 10 mantissa).length
  if mantissa = 0 || magnitude < -330 then 0
  else if 330 < magnitude then infinity
  else if 0 ≤ exponent then ofFraction (mantissa * Nat.pow 10 exponent.toNat) 1
  else ofFraction mantissa (Nat.pow 10 (-exponent).toNat)

def withSign (negative : Bool) (bits : Nat) : Nat :=
  if negative then 0x8000000000000000 + bits else bits

/-- The bits of a number; there are none that all readers agree on for "not a number". -/
def ofDecimal? : Decimal → Option UInt64
  | .finite negative mantissa exponent =>
    some (UInt64.ofNat (withSign negative (ofScaled mantissa exponent)))
  | .infinite negative => some (UInt64.ofNat (withSign negative infinity))
  | .nan => none

end Binary64

end LexCalc
