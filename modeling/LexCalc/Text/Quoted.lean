import LexCalc.Text.Basic
import LexCalc.Text.GraphemeExtend
import LexCalc.Text.Unprintable

/-!
Text in quotes on one line: the quote, the backslash and what has no printed form of its own are
written as escapes, all else as it is.
-/
namespace LexCalc.Text

/-- Letters without a shape: the fillers of Hangul. -/
def isFiller (c : Char) : Bool := ['\u115f', '\u1160', '\u3164', '\uffa0'].contains c

/-- The halfwidth sound marks extend the letter before them but take a place of their own. -/
def isHalfwidthMark (c : Char) : Bool := ['\uff9e', '\uff9f'].contains c

/-- Whether a character cannot be told from its printed form: it has none, or it would be drawn
onto the character before it. -/
def needsCode (c : Char) : Bool :=
  isFiller c || isUnprintable c || (isGraphemeExtend c && !isHalfwidthMark c)

/-- How a character stands between two `quote` characters. -/
def escape (quote c : Char) : Text :=
  if c = '\x00' then ['\\', '0']
  else if c = '\t' then ['\\', 't']
  else if c = '\n' then ['\\', 'n']
  else if c = '\r' then ['\\', 'r']
  else if c = '\\' then ['\\', '\\']
  else if c = quote then ['\\', quote]
  else if needsCode c then
    ['\\', 'u', '{'] ++ Nat.toDigits 16 c.toNat ++ ['}']
  else [c]

def quoted (t : Text) : Text := '"' :: (t.flatMap (escape '"') ++ ['"'])

def quotedChar (c : Char) : Text := '\x27' :: (escape '\x27' c ++ ['\x27'])

end LexCalc.Text
