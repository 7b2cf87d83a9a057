import LexCalc.Json.Value
import LexCalc.Natural.Hexadecimal
import LexCalc.Text.Binary64
import LexCalc.Proofs.Text.Numeral
import LexCalc.Proofs.Text.Runs

/-! Reading JSON: the whole grammar, with any layout and any escapes, apart from how values are
written here. A reader gives what it has read and the text after it. -/
namespace LexCalc.Json

/-- What a JSON text says. Numbers are the decimals that they are written as. -/
inductive Datum where
  | null
  | boolean (b : Bool)
  | number (d : Decimal)
  | string (t : Text)
  | array (items : List Datum)
  | object (members : List (Text × Datum))

def isBlank (c : Char) : Bool := c = ' ' || c = '\t' || c = '\n' || c = '\r'

def skipBlanks (t : Text) : Text := t.dropWhile isBlank

/-- The number that four hexadecimal digits denote. -/
def unit? : Text → Option (Nat × Text)
  | p :: q :: r :: s :: t => do
    let high := 16 * (← Natural.hexValue? p) + (← Natural.hexValue? q)
    return (256 * high + 16 * (← Natural.hexValue? r) + (← Natural.hexValue? s), t)
  | _ => none

/-- A character by its code: one unit, or two that are the halves of a large code point. -/
def coded? (t : Text) : Option (Char × Text) := do
  let (high, t) ← unit? t
  if high < 0xd800 ∨ 0xdfff < high then return (Char.ofNat high, t)
  match t with
  | '\\' :: 'u' :: t =>
    let (low, t) ← unit? t
    if high < 0xdc00 ∧ 0xdc00 ≤ low ∧ low ≤ 0xdfff then
      return (Char.ofNat (0x10000 + 0x400 * (high - 0xd800) + (low - 0xdc00)), t)
    else none
  | _ => none

/-- A character of a string. Those below U+0020 are there only as escapes. -/
def character? : Text → Option (Char × Text)
  | '\\' :: '"' :: t => some ('"', t)
  | '\\' :: '\\' :: t => some ('\\', t)
  | '\\' :: '/' :: t => some ('/', t)
  | '\\' :: 'b' :: t => some ('\x08', t)
  | '\\' :: 'f' :: t => some ('\x0c', t)
  | '\\' :: 'n' :: t => some ('\n', t)
  | '\\' :: 'r' :: t => some ('\r', t)
  | '\\' :: 't' :: t => some ('\t', t)
  | '\\' :: 'u' :: t => coded? t
  | '\\' :: _ => none
  | c :: t => if c.toNat < 0x20 then none else some (c, t)
  | [] => none

/-- The characters of a string up to its closing quote. -/
def characters? (t : Text) : Option (Text × Text) :=
  match t with
  | '"' :: rest => some ([], rest)
  | t =>
    match character? t with
    | some (c, rest) =>
      if rest.length < t.length then (characters? rest).map fun (s, rest) => (c :: s, rest)
      else none
    | none => none
termination_by t.length

/-- One digit or more. -/
def digits? (t : Text) : Option (Text × Text) :=
  let digits := t.takeWhile Char.isDigit
  if digits.isEmpty then none else some (digits, t.dropWhile Char.isDigit)

/-- A whole number; nothing else starts with a zero than zero itself. -/
def whole? : Text → Option (Text × Text)
  | '0' :: t => some (['0'], t)
  | t => digits? t

def fraction? : Text → Option (Text × Text)
  | '.' :: t => digits? t
  | t => some ([], t)

def exponent? : Text → Option (Int × Text)
  | c :: t =>
    if c = 'e' ∨ c = 'E' then do
      let (negative, t) := Decimal.splitSign t
      let (digits, t) ← digits? t
      let n : Int := Text.decimalValue digits
      return (if negative then -n else n, t)
    else some (0, c :: t)
  | [] => some (0, [])

def splitMinus : Text → Bool × Text
  | '-' :: t => (true, t)
  | t => (false, t)

def number? (t : Text) : Option (Decimal × Text) := do
  let (negative, t) := splitMinus t
  let (whole, t) ← whole? t
  let (fraction, t) ← fraction? t
  let (exponent, t) ← exponent? t
  let mantissa := Text.decimalValue (whole ++ fraction)
  return (.finite negative mantissa (exponent - fraction.length), t)

/-- Items with commas between them up to the closing bracket, one at least. -/
def items? {α : Type} (closer : Char) (item? : Text → Option (α × Text)) (t : Text) :
    Option (List α × Text) :=
  match item? t with
  | none => none
  | some (x, rest) =>
    match skipBlanks rest with
    | [] => none
    | c :: rest =>
      if c = closer then some ([x], rest)
      else if c = ',' then
        if rest.length < t.length then
          (items? closer item? rest).map fun (xs, rest) => (x :: xs, rest)
        else none
      else none
termination_by t.length

/-- What stands between brackets, after the opening one. -/
def enclosed? {α : Type} (closer : Char) (item? : Text → Option (α × Text)) (t : Text) :
    Option (List α × Text) :=
  if (skipBlanks t).head? = some closer then some ([], (skipBlanks t).tail)
  else items? closer item? t

/-- A key and its value, the value read by `value?`. -/
def member? (value? : Text → Option (Datum × Text)) (t : Text) :
    Option ((Text × Datum) × Text) :=
  match skipBlanks t with
  | '"' :: t => do
    let (key, t) ← characters? t
    match skipBlanks t with
    | ':' :: t =>
      let (d, t) ← value? t
      return ((key, d), t)
    | _ => none
  | _ => none

/-- A value inside which values are nested in at most `depth` levels. -/
def value? (depth : Nat) (t : Text) : Option (Datum × Text) :=
  match depth, skipBlanks t with
  | _, '"' :: t => (characters? t).map fun (s, t) => (.string s, t)
  | depth + 1, '[' :: t =>
    (enclosed? ']' (value? depth) t).map fun (items, t) => (.array items, t)
  | depth + 1, '{' :: t =>
    (enclosed? '}' (member? (value? depth)) t).map fun (members, t) => (.object members, t)
  | _, 'n' :: 'u' :: 'l' :: 'l' :: t => some (.null, t)
  | _, 't' :: 'r' :: 'u' :: 'e' :: t => some (.boolean true, t)
  | _, 'f' :: 'a' :: 'l' :: 's' :: 'e' :: t => some (.boolean false, t)
  | _, t => (number? t).map fun (d, t) => (.number d, t)

/-- The value that a text consists of. It cannot be nested in more levels than it has
characters. -/
def Datum.ofText? (t : Text) : Option Datum :=
  match value? t.length t with
  | some (d, rest) => if (skipBlanks rest).isEmpty then some d else none
  | none => none

example : (Datum.ofText? " [-1.50e+2 , \x7b\"k\":[]\x7d, \"\\ud83d\\ude00\\u00e9\"]".toList) =
    some (.array [.number (.finite true 150 0), .object [(['k'], .array [])],
      .string ['😀', 'é']]) := by
  cbv

end LexCalc.Json
