import LexCalc.Text.Basic

/-!
JSON values and their written form, spread over lines: two spaces of indent for each level, and
empty brackets on one line.
-/
namespace LexCalc.Json

inductive Value where
  | number (n : Nat)
  | string (t : Text)
  | array (items : List Value)
  | object (members : List (Text × Value))

/-- The lower-case hexadecimal digit of a number below sixteen. -/
def hexDigit (n : Nat) : Char := Nat.digitChar n

/-- How a character stands in a string: only the quote, the backslash and the characters below
U+0020 are escaped. -/
def escape (c : Char) : Text :=
  if c = '"' then ['\\', '"']
  else if c = '\\' then ['\\', '\\']
  else if c = '\x08' then ['\\', 'b']
  else if c = '\x0c' then ['\\', 'f']
  else if c = '\n' then ['\\', 'n']
  else if c = '\r' then ['\\', 'r']
  else if c = '\t' then ['\\', 't']
  else if c.toNat < 0x20 then
    ['\\', 'u', '0', '0', hexDigit (c.toNat / 16), hexDigit (c.toNat % 16)]
  else [c]

def string (t : Text) : Text := '"' :: (t.flatMap escape ++ ['"'])

/-- The start of a line at some depth. -/
def newline (depth : Nat) : Text := '\n' :: List.replicate (2 * depth) ' '

/-- Brackets around written items, each on a line of its own. -/
def bracketed (opener closer : Char) (depth : Nat) (items : List Text) : Text :=
  if items.isEmpty then [opener, closer]
  else
    opener :: (newline (depth + 1) ++ List.intercalate (',' :: newline (depth + 1)) items ++
      newline depth ++ [closer])

namespace Value

def write (depth : Nat) : Value → Text
  | number n => Text.decimal n
  | string t => Json.string t
  | array items => bracketed '[' ']' depth (items.map fun v => write (depth + 1) v)
  | object members =>
    bracketed '{' '}' depth
      (members.attach.map fun ⟨(key, v), _⟩ =>
        Json.string key ++ ": ".toList ++ write (depth + 1) v)
termination_by v => sizeOf v
decreasing_by
  · have := List.sizeOf_lt_of_mem ‹_›
    simp only [array.sizeOf_spec]; omega
  · have := List.sizeOf_lt_of_mem ‹_›
    simp only [object.sizeOf_spec, Prod.mk.sizeOf_spec] at this ⊢; omega

end Value

end LexCalc.Json
