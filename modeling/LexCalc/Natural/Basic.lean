import LexCalc.Natural.Flagged

/-!
Natural numbers of any size, with one value beside them that stands for "no natural number".
A subtraction that would go below zero gives it, and it passes through every operation.
-/
namespace LexCalc

structure Natural extends Flagged where
  canonical : toFlagged.Canonical

namespace Natural

instance : Coe Natural Flagged := ⟨toFlagged⟩

instance : Inhabited Natural := ⟨⟨default, Flagged.canonical_default⟩⟩

instance : BEq Natural := ⟨fun a b => a.toFlagged == b.toFlagged⟩

def ofWord (w : Word) : Natural := ⟨.ofWord w, Flagged.canonical_ofWords [w]⟩

def ofUInt64 (n : UInt64) : Natural := ⟨.ofUInt64 n, Flagged.canonical_ofWords _⟩

def ofWords (ws : Words) : Natural := ⟨.ofWords ws, Flagged.canonical_ofWords ws⟩

def invalid : Natural := ⟨.invalid, Flagged.canonical_invalid⟩

def add (a b : Natural) : Natural := ⟨a.toFlagged.add b, Flagged.canonical_add a b⟩

def sub (a b : Natural) : Natural := ⟨a.toFlagged.sub b, Flagged.canonical_sub a b⟩

def mul (a b : Natural) : Natural := ⟨a.toFlagged.mul b, Flagged.canonical_mul a b⟩

def shiftLeft (a : Natural) (n : Nat) : Natural :=
  ⟨a.toFlagged.shiftLeft n, Flagged.canonical_shiftLeft a n⟩

def shiftWords (a : Natural) (n : Nat) : Natural :=
  ⟨a.toFlagged.shiftWords n, Flagged.canonical_shiftWords a n⟩

def checkedSub (a b : Natural) : Except ArithmeticError Natural :=
  match h : a.toFlagged.checkedSub b with
  | .ok d => .ok ⟨d, Flagged.canonical_checkedSub h⟩
  | .error e => .error e

def toExcept (a : Natural) : Except ArithmeticError Natural :=
  match h : a.toFlagged.toExcept with
  | .ok d => .ok ⟨d, Flagged.canonical_toExcept a.canonical h⟩
  | .error e => .error e

variable {a b : Natural}

theorem eq_of_toFlagged (h : a.toFlagged = b.toFlagged) : a = b := by
  cases a
  cases b
  cases h
  rfl

/-- A value is a number or the invalid one. -/
@[elab_as_elim, cases_eliminator]
theorem elim {motive : Natural → Prop} (ofWords : ∀ ws, motive (ofWords ws))
    (invalid : motive invalid) (a : Natural) : motive a := by
  obtain ⟨⟨ws, mark⟩, h⟩ := a
  match mark with
  | false => exact ofWords ws
  | true =>
    have hw : ws = [0] := h rfl
    subst hw
    exact invalid

@[simp] theorem toFlagged_ofWords (ws : Words) : (ofWords ws).toFlagged = .ofWords ws := rfl

@[simp] theorem toFlagged_invalid : invalid.toFlagged = .invalid := rfl

@[simp] theorem ofWords_ne_invalid (ws : Words) : ofWords ws ≠ invalid :=
  fun h => Bool.false_ne_true (congrArg (·.isInvalid) h)

theorem checkedSub_of_error {e : ArithmeticError} (h : a.toFlagged.checkedSub b = .error e) :
    a.checkedSub b = .error e := by
  unfold checkedSub
  split
  · next hd => cases hd.symm.trans h
  · next he =>
    cases he.symm.trans h
    rfl

theorem checkedSub_of_ok (h : a.toFlagged.checkedSub b = .ok (a.sub b)) :
    a.checkedSub b = .ok (a.sub b) := by
  unfold checkedSub
  split
  · next hd =>
    cases hd.symm.trans h
    rfl
  · next he => cases he.symm.trans h

theorem add_ofWords (as bs : Words) : (ofWords as).add (ofWords bs) = ofWords (as.add bs) := rfl

theorem shiftWords_ofWords (ws : Words) (n : Nat) :
    (ofWords ws).shiftWords n = ofWords (ws.shiftWords n) := rfl

end Natural

end LexCalc
