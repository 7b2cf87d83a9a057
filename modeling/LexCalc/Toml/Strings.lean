import LexCalc.Natural.Hexadecimal
import LexCalc.Text.Basic

/-!
Reading blanks, strings and keys of TOML. A reader gives what it has read and the text after it.
-/
namespace LexCalc.Toml

def isBlank (c : Char) : Bool := c = ' ' || c = '\t'

def skipBlanks (t : Text) : Text := t.dropWhile isBlank

/-- The text after a newline: a line feed, or a carriage return and a line feed. -/
def newline? : Text → Option Text
  | '\n' :: t => some t
  | '\r' :: '\n' :: t => some t
  | _ => none

/-- Tabs and all that is no control character. -/
def isCommentChar (c : Char) : Bool := c = '\t' || (0x20 ≤ c.toNat && c.toNat ≠ 0x7f)

def skipComment : Text → Text
  | '#' :: t => t.dropWhile isCommentChar
  | t => t

/-- The end of a line: blanks, perhaps a comment, then a newline or the end of the text. -/
def lineEnd? (t : Text) : Option Text :=
  match skipComment (skipBlanks t) with
  | [] => some []
  | t => newline? t

/-- The character of a code point written in hexadecimal digits. -/
def charOfHex? (digits : Text) : Option Char := do
  let values ← digits.mapM Natural.hexValue?
  let n := values.foldl (fun n v => 16 * n + v) 0
  if n.isValidChar then some (Char.ofNat n) else none

/-- What stands after a backslash: the character that is meant, and how many characters name it. -/
def escape? : Text → Option (Char × Nat)
  | 'b' :: _ => some ('\x08', 1)
  | 't' :: _ => some ('\t', 1)
  | 'n' :: _ => some ('\n', 1)
  | 'f' :: _ => some ('\x0c', 1)
  | 'r' :: _ => some ('\r', 1)
  | '"' :: _ => some ('"', 1)
  | '\\' :: _ => some ('\\', 1)
  | 'u' :: t => if t.length < 4 then none else (charOfHex? (t.take 4)).map (·, 5)
  | 'U' :: t => if t.length < 8 then none else (charOfHex? (t.take 8)).map (·, 9)
  | _ => none

/-- What stands for itself in a string with escapes. -/
def isBasicChar (c : Char) : Bool := isCommentChar c && c ≠ '"' && c ≠ '\\'

/-- What stands for itself in a string without escapes. -/
def isLiteralChar (c : Char) : Bool := isCommentChar c && c ≠ '\x27'

/-- The rest of a string with escapes on one line. `read` holds what came before, in reverse. -/
def basicString (read : Text) : Text → Option (Text × Text)
  | [] => none
  | '"' :: t => some (read.reverse, t)
  | '\\' :: t =>
    match escape? t with
    | some (c, n) => basicString (c :: read) (t.drop n)
    | none => none
  | c :: t => if isBasicChar c then basicString (c :: read) t else none
termination_by t => t.length
decreasing_by all_goals (simp only [List.length_cons, List.length_drop]; omega)

/-- The rest of a string without escapes on one line. -/
def literalString (t : Text) : Option (Text × Text) :=
  match t.dropWhile isLiteralChar with
  | '\x27' :: rest => some (t.takeWhile isLiteralChar, rest)
  | _ => none

/-- Blanks and newlines. -/
def skipSpace : Text → Text
  | ' ' :: t => skipSpace t
  | '\t' :: t => skipSpace t
  | '\n' :: t => skipSpace t
  | '\r' :: '\n' :: t => skipSpace t
  | t => t

theorem length_skipBlanks_le (t : Text) : (skipBlanks t).length ≤ t.length :=
  (List.dropWhile_sublist isBlank).length_le

theorem length_newline_lt {t rest : Text} (h : newline? t = some rest) :
    rest.length < t.length := by
  unfold newline? at h
  split at h
  · obtain rfl := Option.some.inj h
    exact Nat.lt_succ_self _
  · obtain rfl := Option.some.inj h
    simp only [List.length_cons]
    omega
  · simp at h

theorem length_skipSpace_le (t : Text) : (skipSpace t).length ≤ t.length := by
  fun_induction skipSpace t <;> grind

/-- The quotes before the three that end a string over several lines belong to it, two at most. -/
def lastQuotes (quote : Char) : Text → Text × Text
  | c :: d :: t =>
    if c = quote then if d = quote then ([quote, quote], t) else ([quote], d :: t)
    else ([], c :: d :: t)
  | [c] => if c = quote then ([quote], []) else ([], [c])
  | [] => ([], [])

/-- The rest of a string with escapes over several lines. A backslash at the end of a line leaves
out all blanks and newlines before the next character. -/
def basicLines (read : Text) : Text → Option (Text × Text)
  | [] => none
  | '"' :: '"' :: '"' :: t =>
    let (last, rest) := lastQuotes '"' t
    some (read.reverse ++ last, rest)
  | '"' :: t => basicLines ('"' :: read) t
  | '\\' :: t =>
    match h : newline? (skipBlanks t) with
    | some rest =>
      have _ := length_newline_lt h
      have _ := length_skipBlanks_le t
      have _ := length_skipSpace_le rest
      basicLines read (skipSpace rest)
    | none =>
      match escape? t with
      | some (c, n) => basicLines (c :: read) (t.drop n)
      | none => none
  | '\n' :: t => basicLines ('\n' :: read) t
  | '\r' :: '\n' :: t => basicLines ('\n' :: read) t
  | c :: t => if isBasicChar c then basicLines (c :: read) t else none
termination_by t => t.length
decreasing_by all_goals (simp only [List.length_cons, List.length_drop]; omega)

/-- The rest of a string without escapes over several lines. -/
def literalLines (read : Text) : Text → Option (Text × Text)
  | [] => none
  | '\x27' :: '\x27' :: '\x27' :: t =>
    let (last, rest) := lastQuotes '\x27' t
    some (read.reverse ++ last, rest)
  | '\x27' :: t => literalLines ('\x27' :: read) t
  | '\n' :: t => literalLines ('\n' :: read) t
  | '\r' :: '\n' :: t => literalLines ('\n' :: read) t
  | c :: t => if isLiteralChar c then literalLines (c :: read) t else none

/-- A newline right after the opening quotes is no part of the string. -/
def skipFirstNewline (t : Text) : Text := (newline? t).getD t

def string? : Text → Option (Text × Text)
  | '"' :: '"' :: '"' :: t => basicLines [] (skipFirstNewline t)
  | '"' :: t => basicString [] t
  | '\x27' :: '\x27' :: '\x27' :: t => literalLines [] (skipFirstNewline t)
  | '\x27' :: t => literalString t
  | _ => none

def isBareKeyChar (c : Char) : Bool := c.isAlphanum || c = '_' || c = '-'

/-- One part of a key: a run of letters, digits, `_` and `-`, or a string on one line. -/
def keyPart? : Text → Option (Text × Text)
  | '"' :: t => basicString [] t
  | '\x27' :: t => literalString t
  | t =>
    let part := t.takeWhile isBareKeyChar
    if part.isEmpty then none else some (part, t.dropWhile isBareKeyChar)

/-- Parts with dots between them, at most `limit`, and blanks around each: the path to the last
part, and the last part. -/
def key? (limit : Nat) (t : Text) : Option (List Text × Text × Text) :=
  match limit with
  | 0 => none
  | limit + 1 => do
    let (part, t) ← keyPart? (skipBlanks t)
    match skipBlanks t with
    | '.' :: t =>
      let (path, last, t) ← key? limit t
      return (part :: path, last, t)
    | t => return ([], part, t)

end LexCalc.Toml
