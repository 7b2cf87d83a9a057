import LexCalc.Natural.Word

/-!
Numbers as lists of words, least significant first. The list is never normalised: `[5]` and
`[5, 0, 0]` have one value, and every operation has an exact number of result words.
-/
namespace LexCalc

abbrev Words := List Word

namespace Words

/-- The number that a word list stands for. -/
def value : Words → Nat
  | [] => 0
  | w :: ws => w.toNat + UInt32.size * value ws

def zeros (n : Nat) : Words := List.replicate n 0

/-- The significant words, most significant first. -/
def leading (ws : Words) : List Word := ws.reverse.dropWhile (· == 0)

/-- The significant words, least significant first. -/
def trimmed (ws : Words) : Words := ws.leading.reverse

def trimmedLength (ws : Words) : Nat := ws.leading.length

def bitLength (ws : Words) : Nat :=
  match ws.leading with
  | [] => 0
  | top :: rest => 32 * rest.length + Word.bitLength top

/-- The order of two equally long numbers, most significant word first. -/
def compareLeading : List Word → List Word → Ordering
  | a :: as, b :: bs => (compare a b).then (compareLeading as bs)
  | _, _ => .eq

/-- The numeric order: fewer significant words first, then the most significant difference. -/
def cmp (a b : Words) : Ordering :=
  (compare a.trimmedLength b.trimmedLength).then (compareLeading a.leading b.leading)

/-- A word chain under way: the words formed so far, latest first, and what goes into the next
place. -/
structure Chain where
  formed : List Word
  carry : Word

namespace Chain

def start : Chain := ⟨[], 0⟩

def words (c : Chain) : Words := c.formed.reverse

/-- One place of a chain: `op` gives the result word and what goes into the next place. -/
def step (op : Word → Word → Word → Word × Word) (c : Chain) (place : Word × Word) : Chain :=
  let r := op place.1 place.2 c.carry
  ⟨r.1 :: c.formed, r.2⟩

def run (op : Word → Word → Word → Word × Word) (places : List (Word × Word)) : Chain :=
  places.foldl (step op) start

/-- One place of a left shift by `s < 32`: the word's own bits and those from the place below. -/
def shiftStep (s : Nat) (c : Chain) (w : Word) : Chain :=
  ⟨(Word.kept s w ||| c.carry) :: c.formed, Word.spilled s w⟩

end Chain

/-- Each word of `a` beside the word of `b` in the same place. A missing word of `b` counts as
zero; words of `b` past the end of `a` are left out. -/
def align (a b : Words) : List (Word × Word) := a.zip (b ++ zeros (a.length - b.length))

/-- The sum of `longer` and a list that is no longer. A last carry is one more word. -/
def addShorter (longer shorter : Words) : Words :=
  let c := Chain.run Word.addCarry (align longer shorter)
  if c.carry = 0 then c.words else (c.carry :: c.formed).reverse

def add (a b : Words) : Words :=
  if b.length ≤ a.length then addShorter a b else addShorter b a

/-- The difference, with as many words as `a`, of numbers where `b` is not the larger one. -/
def sub (a b : Words) : Words := (Chain.run Word.subBorrow (align a b)).words

/-- Multiplies by `2 ^ (32 * n)`. -/
def shiftWords (ws : Words) (n : Nat) : Words := zeros n ++ ws

/-- The places of the bits that are set, lowest first. -/
def setBits (ws : Words) : List Nat :=
  ws.zipIdx.flatMap fun (w, i) => w.setBits.map (32 * i + ·)

end Words

end LexCalc
