/-!
One digit of a number in base `2 ^ 32`, and the steps of the word chains: adding with a carry,
subtracting with a borrow, shifting by fewer than 32 bits.
-/
namespace LexCalc

abbrev Word := UInt32

namespace Word

/-- The low word of `a + b + carry` and the carry out. The sum is formed in 64 bits, where it
cannot wrap. -/
def addCarry (a b carry : Word) : Word × Word :=
  let sum := a.toUInt64 + b.toUInt64 + carry.toUInt64
  (sum.toUInt32, (sum >>> 32).toUInt32)

/-- The low word of `a - b - borrow` and the borrow out. The minuend is lifted by `2 ^ 32` first;
a difference below `2 ^ 32` has used up the lift. -/
def subBorrow (a b borrow : Word) : Word × Word :=
  let diff := a.toUInt64 + 0x100000000 - b.toUInt64 - borrow.toUInt64
  (diff.toUInt32, if diff >>> 32 = 0 then 1 else 0)

/-- The bits of `w` that stay in its place when it is shifted left by `s < 32`. -/
def kept (s : Nat) (w : Word) : Word := w <<< UInt32.ofNat s

/-- The bits of `w` that a left shift by `s < 32` moves to the next place. No bit moves when
`s = 0`. -/
def spilled (s : Nat) (w : Word) : Word :=
  if s = 0 then 0 else w >>> UInt32.ofNat (32 - s)

/-- The number of bits up to the highest one that is set. -/
def bitLength (w : Word) : Nat := if w = 0 then 0 else w.toNat.log2 + 1

/-- The places of the bits that are set, lowest first. -/
def setBits (w : Word) : List Nat := (List.range 32).filter w.toNat.testBit

end Word

end LexCalc
