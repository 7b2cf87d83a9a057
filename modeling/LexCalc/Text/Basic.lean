/-!
Text as a list of characters, measured in the bytes of its UTF-8 form. All offsets of the library
are such byte counts.
-/
namespace LexCalc

abbrev Text := List Char

namespace Text

/-- The number of bytes of the UTF-8 form. -/
def size (t : Text) : Nat := t.foldr (fun c n => c.utf8Size + n) 0

@[simp] theorem size_nil : size [] = 0 := rfl

@[simp] theorem size_cons (c : Char) (t : Text) : size (c :: t) = c.utf8Size + size t := rfl

@[simp] theorem size_append (s t : Text) : size (s ++ t) = size s + size t := by
  induction s with
  | nil => exact (Nat.zero_add _).symm
  | cons c s ih => rw [List.cons_append, size_cons, size_cons, ih, Nat.add_assoc]

/-- Cuts a text after its first `n` bytes. There is no cut inside a character or past the end. -/
def splitAt? : Nat → Text → Option (Text × Text)
  | 0, t => some ([], t)
  | _ + 1, [] => none
  | n + 1, c :: t =>
    if n + 1 < c.utf8Size then none
    else (splitAt? (n + 1 - c.utf8Size) t).map fun (front, back) => (c :: front, back)

/-- The decimal numeral of a number. -/
def decimal (n : Nat) : Text := Nat.toDigits 10 n

/-- The number that decimal digits denote. -/
def decimalValue (digits : Text) : Nat :=
  digits.foldl (fun n c => 10 * n + (c.toNat - '0'.toNat)) 0

end Text

end LexCalc
