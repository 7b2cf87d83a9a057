import LexCalc.Toml.Strings
import LexCalc.Toml.Value

/-!
Reading numbers, dates and times of TOML.
-/
namespace LexCalc.Toml

/-- A run of digits with single `_` between them, after those in `read`. -/
def moreDigits (isDigit : Char → Bool) (read : Text) : Text → Option (Text × Text)
  | '_' :: c :: t => if isDigit c then moreDigits isDigit (c :: read) t else none
  | ['_'] => none
  | c :: t =>
    if isDigit c then moreDigits isDigit (c :: read) t else some (read.reverse, c :: t)
  | [] => some (read.reverse, [])

/-- One digit or more, with single `_` between them. -/
def digits? (isDigit : Char → Bool) : Text → Option (Text × Text)
  | c :: t => if isDigit c then moreDigits isDigit [c] t else none
  | [] => none

/-- Decimal digits without a leading zero. -/
def wholeDigits? : Text → Option (Text × Text)
  | '0' :: t => some (['0'], t)
  | t => digits? Char.isDigit t

/-- An exponent, if one is there. -/
def exponent? : Text → Option (Int × Text)
  | c :: t =>
    if c = 'e' || c = 'E' then do
      let (negative, t) := Decimal.splitSign t
      let (digits, t) ← digits? Char.isDigit t
      let n : Int := Text.decimalValue digits
      return (if negative then -n else n, t)
    else some (0, c :: t)
  | [] => some (0, [])

/-- A number as a value; one too large for a float must be negative. -/
def float? (negative : Bool) (mantissa : Nat) (exponent : Int) : Option Value :=
  if !negative && Binary64.ofScaled mantissa exponent = Binary64.infinity then none
  else some (.float (.finite negative mantissa exponent))

/-- Integers have 64 bits, one of them for the sign. -/
def integer? (n : Int) : Option Value :=
  if -largestInteger ≤ n + 1 ∧ n ≤ largestInteger then some (.integer n) else none

/-- The digits of a number in base sixteen, eight or two. -/
def basedInteger? (base : Nat) (t : Text) : Option (Value × Text) := do
  let isDigit (c : Char) : Bool := (Natural.hexValue? c).any (· < base)
  let (digits, t) ← digits? isDigit t
  let n := digits.foldl (fun n c => base * n + (Natural.hexValue? c).getD 0) 0
  return (← integer? n, t)

/-- A decimal number: an integer, unless there is a fraction or an exponent. -/
def decimalNumber? (negative : Bool) (t : Text) : Option (Value × Text) := do
  let (whole, t) ← wholeDigits? t
  match t with
  | '.' :: t =>
    let (fraction, t) ← digits? Char.isDigit t
    let (exponent, t) ← exponent? t
    return (← float? negative (Text.decimalValue (whole ++ fraction)) (exponent - fraction.length),
      t)
  | c :: _ =>
    let n := Text.decimalValue whole
    if c = 'e' || c = 'E' then
      let (exponent, t) ← exponent? t
      return (← float? negative n exponent, t)
    else return (← integer? (if negative then -(n : Int) else n), t)
  | [] =>
    let n : Int := Text.decimalValue whole
    return (← integer? (if negative then -n else n), [])

def number? (t : Text) : Option (Value × Text) :=
  match t with
  | '0' :: 'x' :: t => basedInteger? 16 t
  | '0' :: 'o' :: t => basedInteger? 8 t
  | '0' :: 'b' :: t => basedInteger? 2 t
  | _ =>
    match Decimal.splitSign t with
    | (negative, 'i' :: 'n' :: 'f' :: t) => some (.float (.infinite negative), t)
    | (_, 'n' :: 'a' :: 'n' :: t) => some (.float .nan, t)
    | (negative, t) => decimalNumber? negative t

/-- A number of exactly `n` digits within bounds. -/
def field? (n lo hi : Nat) (t : Text) : Option (Nat × Text) :=
  let digits := t.take n
  let v := Text.decimalValue digits
  if digits.length = n && digits.all Char.isDigit && lo ≤ v && v ≤ hi then some (v, t.drop n)
  else none

def char? (c : Char) : Text → Option Text
  | d :: t => if d = c then some t else none
  | [] => none

def daysInMonth (year month : Nat) : Nat :=
  if month = 2 then
    if year % 4 = 0 && (year % 100 ≠ 0 || year % 400 = 0) then 29 else 28
  else if [4, 6, 9, 11].contains month then 30
  else 31

/-- The text after a date. -/
def skipDate? (t : Text) : Option Text := do
  let (year, t) ← field? 4 0 9999 t
  let (month, t) ← field? 2 1 12 (← char? '-' t)
  let (_, t) ← field? 2 1 (daysInMonth year month) (← char? '-' t)
  return t

/-- The text after the fraction of a second, if there is one. -/
def skipSecondFraction : Text → Text
  | '.' :: c :: t => if c.isDigit then t.dropWhile Char.isDigit else '.' :: c :: t
  | t => t

/-- The text after hours, minutes and seconds. A leap second is allowed. -/
def skipTime? (t : Text) : Option Text := do
  let (_, t) ← field? 2 0 23 t
  let (_, t) ← field? 2 0 59 (← char? ':' t)
  let (_, t) ← field? 2 0 60 (← char? ':' t)
  return skipSecondFraction t

/-- The text after an offset from universal time, if there is one. -/
def skipOffset? : Text → Option Text
  | c :: t =>
    if c = 'Z' || c = 'z' then some t
    else if c = '+' || c = '-' then do
      let (_, t) ← field? 2 0 23 t
      let (_, t) ← field? 2 0 59 (← char? ':' t)
      return t
    else some (c :: t)
  | [] => some []

/-- Whether an hour and a colon are next. -/
def startsTime (t : Text) : Bool := ((field? 2 0 23 t).bind fun (_, t) => char? ':' t).isSome

/-- Whether four digits and a dash are next. -/
def startsDate (t : Text) : Bool := ((field? 4 0 9999 t).bind fun (_, t) => char? '-' t).isSome

/-- The text after a date and what follows it: a time after a `T` or a space, with an offset. -/
def skipDateTime? (t : Text) : Option Text := do
  let rest ← skipDate? t
  match rest with
  | c :: time =>
    if (c = 'T' || c = 't' || c = ' ') && startsTime time then skipOffset? (← skipTime? time)
    else return rest
  | [] => return []

/-- The characters of `t` that are not in its end `rest`. -/
def before (t rest : Text) : Text := t.take (t.length - rest.length)

/-- A date, a time, or a number. -/
def numberOrDate? (t : Text) : Option (Value × Text) :=
  if startsDate t then (skipDateTime? t).map fun rest => (.dateTime (before t rest), rest)
  else if startsTime t then (skipTime? t).map fun rest => (.dateTime (before t rest), rest)
  else number? t

/-- A value that holds no other: a string, a truth value, a number, a date or a time. -/
def scalar? (t : Text) : Option (Value × Text) :=
  match t with
  | 't' :: 'r' :: 'u' :: 'e' :: t => some (.boolean true, t)
  | 'f' :: 'a' :: 'l' :: 's' :: 'e' :: t => some (.boolean false, t)
  | c :: _ =>
    if c = '"' || c = '\x27' then (string? t).map fun (s, rest) => (.string s, rest)
    else numberOrDate? t
  | [] => none

end LexCalc.Toml
