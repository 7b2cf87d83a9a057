import LexCalc.Text.Basic

/-!
Reading bytes that may not be UTF-8. Each maximal part of a sequence that cannot be completed is
one gap; shown as text it becomes one U+FFFD.
-/
namespace LexCalc.Text

/-- What follows a first byte: how many continuation bytes, and the bounds of the first of them.
The bounds leave out overlong forms, surrogates and what is above U+10FFFF. -/
def continuation? (b : UInt8) : Option (Nat × UInt8 × UInt8) :=
  if 0xc2 ≤ b ∧ b ≤ 0xdf then some (1, 0x80, 0xbf)
  else if b = 0xe0 then some (2, 0xa0, 0xbf)
  else if b = 0xed then some (2, 0x80, 0x9f)
  else if 0xe1 ≤ b ∧ b ≤ 0xef then some (2, 0x80, 0xbf)
  else if b = 0xf0 then some (3, 0x90, 0xbf)
  else if 0xf1 ≤ b ∧ b ≤ 0xf3 then some (3, 0x80, 0xbf)
  else if b = 0xf4 then some (3, 0x80, 0x8f)
  else none

/-- Up to `n` continuation bytes at the front, the first of them within the given bounds. -/
def takeContinuation : Nat → UInt8 → UInt8 → List UInt8 → List UInt8
  | n + 1, lo, hi, b :: bs =>
    if lo ≤ b ∧ b ≤ hi then b :: takeContinuation n 0x80 0xbf bs else []
  | _, _, _, _ => []

/-- The code point of a first byte with `n` continuation bytes and of these bytes. -/
def codePoint (first : UInt8) (tail : List UInt8) : Nat :=
  tail.foldl (fun v b => 64 * v + b.toNat % 64) (first.toNat % (64 >>> tail.length))

/-- The character or gap at the front, and how many bytes after the first belong to it. -/
def decodeFront (b : UInt8) (bs : List UInt8) : Option Char × Nat :=
  if b < 0x80 then (some (Char.ofNat b.toNat), 0)
  else
    match continuation? b with
    | none => (none, 0)
    | some (n, lo, hi) =>
      let tail := takeContinuation n lo hi bs
      (if tail.length = n then some (Char.ofNat (codePoint b tail)) else none, tail.length)

/-- The characters of a byte list, with `none` for each gap. -/
def decodePieces : List UInt8 → List (Option Char)
  | [] => []
  | b :: bs =>
    let (piece, n) := decodeFront b bs
    piece :: decodePieces (bs.drop n)
termination_by bs => bs.length
decreasing_by simp only [List.length_cons, List.length_drop]; omega

def ofUtf8? (bytes : List UInt8) : Option Text := (decodePieces bytes).mapM id

/-- The text with one U+FFFD for each gap. -/
def ofUtf8Lossy (bytes : List UInt8) : Text := (decodePieces bytes).map (·.getD '\uFFFD')

/-- The UTF-8 form of a text. -/
def toUtf8 (t : Text) : List UInt8 := t.flatMap String.utf8EncodeChar

end LexCalc.Text
