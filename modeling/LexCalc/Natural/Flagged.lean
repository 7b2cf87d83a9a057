import LexCalc.Natural.Words
import LexCalc.Log

/-!
Words with a flag beside them, which is set where there is no natural number: on a difference below
zero, and on all that is computed from one.
-/
namespace LexCalc

inductive ArithmeticError where
  /-- The subtrahend is larger; both lengths count significant words only. -/
  | negativeDifference (minuend subtrahend : Nat)
  | invalidValue
  deriving DecidableEq, Repr

def ArithmeticError.message : ArithmeticError → String
  | negativeDifference m s =>
    s!"subtraction underflow: subtrahend has {s} significant words, minuend has {m}"
  | invalidValue => "value has no unsigned representation"

structure Flagged where
  words : Words
  isInvalid : Bool
  deriving DecidableEq, Repr, Inhabited

namespace Flagged

def ofWord (w : Word) : Flagged := ⟨[w], false⟩

def ofWords (ws : Words) : Flagged := ⟨ws, false⟩

/-- The low word and the high word, also when the high one is zero. -/
def ofUInt64 (n : UInt64) : Flagged := ofWords [n.toUInt32, (n >>> 32).toUInt32]

def invalidate (a : Flagged) : Flagged := { a with isInvalid := true }

/-- A zero that is marked. -/
def invalid : Flagged := (ofWord 0).invalidate

/-- The number that is meant, if there is one. -/
def toNat? (a : Flagged) : Option Nat := if a.isInvalid then none else some a.words.value

def length (a : Flagged) : Nat := a.words.length

def trimmedLength (a : Flagged) : Nat := a.words.trimmedLength

def bitLength (a : Flagged) : Nat := a.words.bitLength

def isZero (a : Flagged) : Bool := !a.isInvalid && a.trimmedLength == 0

/-- The order of two numbers. What is marked is in order with what is marked only, and the words are
not looked at. -/
def partialCmp (a b : Flagged) : Option Ordering :=
  match a.isInvalid, b.isInvalid with
  | true, true => some .eq
  | false, false => some (a.words.cmp b.words)
  | _, _ => none

/-- The comparisons, which all fail where there is no order. -/
def lt (a b : Flagged) : Bool := (a.partialCmp b).any Ordering.isLT

def le (a b : Flagged) : Bool := (a.partialCmp b).any Ordering.isLE

def gt (a b : Flagged) : Bool := (a.partialCmp b).any Ordering.isGT

def ge (a b : Flagged) : Bool := (a.partialCmp b).any Ordering.isGE

/-- What a hash of the value is taken of: the same for values that are equal. -/
def hashKey (a : Flagged) : Bool × Words := (a.isInvalid, a.words.trimmed)

/-- Equality blind to high zero words. -/
instance : BEq Flagged where
  beq a b := a.hashKey == b.hashKey

def add (a b : Flagged) : Flagged :=
  if a.isInvalid || b.isInvalid then invalid else ofWords (a.words.add b.words)

def sub (a b : Flagged) : Flagged :=
  if a.isInvalid || b.isInvalid then invalid
  else if a.lt b then invalid
  else ofWords (a.words.sub b.words)

/-- What forming `sub a b` logs: a warning when both are numbers and `b` is the larger one. -/
def subLog (a b : Flagged) : List Log.Line :=
  if a.isInvalid || b.isInvalid then []
  else if a.lt b then
    [.warn ("bigint subtraction creates a negative number " ++
      s!"({a.trimmedLength} words - {b.trimmedLength} words)")]
  else []

def shiftWords (a : Flagged) (n : Nat) : Flagged :=
  if a.isInvalid then invalid else ofWords (a.words.shiftWords n)

/-- Multiplies by `2 ^ n`: whole words first, then the bits that are left. Bits that spill past
the top word are added in the place above it. -/
def shiftLeft (a : Flagged) (n : Nat) : Flagged :=
  if a.isInvalid then invalid
  else
    let moved := a.shiftWords (n / 32)
    let c := moved.words.foldl (Words.Chain.shiftStep (n % 32)) .start
    if c.carry = 0 then ofWords c.words
    else (ofWords c.words).add ((ofWord c.carry).shiftWords moved.length)

/-- The product as a sum of shifted copies of `b`, one for each bit of `a` that is set. -/
def mul (a b : Flagged) : Flagged :=
  if a.isInvalid || b.isInvalid then invalid
  else a.words.setBits.foldl (fun sum n => sum.add (b.shiftLeft n)) default

/-- Subtraction that says why there is no difference. -/
def checkedSub (a b : Flagged) : Except ArithmeticError Flagged :=
  if a.isInvalid || b.isInvalid then .error .invalidValue
  else if a.lt b then .error (.negativeDifference a.trimmedLength b.trimmedLength)
  else .ok (a.sub b)

def toExcept (a : Flagged) : Except ArithmeticError Flagged :=
  if a.isInvalid then .error .invalidValue else .ok a

/-- All that is marked is stored in one form. -/
def Canonical (a : Flagged) : Prop := a.isInvalid = true → a.words = [0]

variable {a b d : Flagged}

@[simp] theorem words_ofWords (ws : Words) : (ofWords ws).words = ws := rfl

@[simp] theorem isInvalid_ofWords (ws : Words) : (ofWords ws).isInvalid = false := rfl

@[simp] theorem toNat?_ofWords (ws : Words) : (ofWords ws).toNat? = some ws.value := rfl

@[simp] theorem isInvalid_invalid : invalid.isInvalid = true := rfl

@[simp] theorem toNat?_invalid : invalid.toNat? = none := rfl

theorem canonical_ofWords (ws : Words) : (ofWords ws).Canonical := nofun

theorem canonical_invalid : invalid.Canonical := fun _ => rfl

theorem canonical_default : (default : Flagged).Canonical := nofun

theorem canonical_add (a b : Flagged) : (a.add b).Canonical := by
  unfold add
  split
  · exact canonical_invalid
  · exact canonical_ofWords _

theorem canonical_sub (a b : Flagged) : (a.sub b).Canonical := by
  unfold sub
  split
  · exact canonical_invalid
  · split
    · exact canonical_invalid
    · exact canonical_ofWords _

theorem canonical_shiftWords (a : Flagged) (n : Nat) : (a.shiftWords n).Canonical := by
  unfold shiftWords
  split
  · exact canonical_invalid
  · exact canonical_ofWords _

theorem canonical_shiftLeft (a : Flagged) (n : Nat) : (a.shiftLeft n).Canonical := by
  unfold shiftLeft
  split
  · exact canonical_invalid
  · dsimp only
    split
    · exact canonical_ofWords _
    · exact canonical_add _ _

/-- A sum that is canonical stays so with each copy that is added. -/
theorem canonical_mul (a b : Flagged) : (a.mul b).Canonical := by
  have hf : ∀ (ns : List Nat) (sum : Flagged), sum.Canonical →
      (ns.foldl (fun sum n => sum.add (b.shiftLeft n)) sum).Canonical := by
    intro ns
    induction ns with
    | nil => exact fun _ h => h
    | cons n ns ih => exact fun sum _ => ih _ (canonical_add sum _)
  unfold mul
  split
  · exact canonical_invalid
  · exact hf _ _ canonical_default

theorem canonical_checkedSub (h : a.checkedSub b = .ok d) : d.Canonical := by
  unfold checkedSub at h
  split at h
  · cases h
  · split at h
    · cases h
    · cases h
      exact canonical_sub a b

theorem canonical_toExcept (ha : a.Canonical) (h : a.toExcept = .ok d) : d.Canonical := by
  unfold toExcept at h
  split at h
  · cases h
  · cases h
    exact ha

end Flagged

end LexCalc
