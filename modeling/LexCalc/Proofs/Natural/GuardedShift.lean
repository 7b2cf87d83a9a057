import LexCalc.Proofs.Natural.Digits
import LexCalc.Proofs.Text.Utf8

/-! A left shift formed place by place, each step behind a guard, and what it gives. No guard ever
refuses, and the places are those of the chain. -/
namespace LexCalc

namespace Word

/-- The word moved up by some bits, fewer than it has. -/
def up? (w : Word) (s : Nat) : Option Word := if s < 32 then some (w <<< UInt32.ofNat s) else none

/-- The word moved down by some bits, fewer than it has. -/
def down? (w : Word) (s : Nat) : Option Word := if s < 32 then some (w >>> UInt32.ofNat s) else none

theorem up?_eq {s : Nat} (w : Word) (hs : s < 32) : w.up? s = some (kept s w) := if_pos hs

theorem down?_eq {s : Nat} (w : Word) (h0 : s ≠ 0) : w.down? (32 - s) = some (spilled s w) := by
  have hs : 32 - s < 32 := by omega
  rw [down?, if_pos hs, spilled, if_neg h0]

end Word

namespace Words
variable {ws : Words} {s i : Nat}

/-- The bits that come into place `i` from the word below it. -/
def spilledInto? (ws : Words) (s i : Nat) : Option Word :=
  if 0 < i ∧ s ≠ 0 then ws[i - 1]?.bind (·.down? (32 - s)) else some 0

/-- The bits that the word in place `i` keeps there. Above the top there is no such word. -/
def keptIn? (ws : Words) (s i : Nat) : Option Word :=
  if i < ws.length then ws[i]?.bind (·.up? s) else some 0

def shiftedWord? (ws : Words) (s i : Nat) : Option Word := do
  return (← ws.spilledInto? s i) ||| (← ws.keptIn? s i)

/-- A left shift that ends without a result where it would read past the end of a list, move a word
by its whole width, or carry out of the addition of the top word. -/
def guardedShift? (ws : Words) (n : Nat) : Option Words := do
  let moved := ws.shiftWords (n / 32)
  let formed ← (List.range moved.length).mapM (moved.shiftedWord? (n % 32))
  let carry ← moved.shiftedWord? (n % 32) moved.length
  if carry = 0 then return formed
  let top := shiftWords [carry] moved.length
  guard ((Chain.run Word.addCarry (align top formed)).carry = 0)
  return add formed top

theorem spilledInto?_append (back : Words) (h : i ≤ ws.length) :
    (ws ++ back).spilledInto? s i = ws.spilledInto? s i := by
  unfold spilledInto?
  split_ifs with hi
  · rw [List.getElem?_append_left (by omega)]
  · rfl

theorem keptIn?_append (back : Words) (h : i < ws.length) :
    (ws ++ back).keptIn? s i = ws.keptIn? s i := by
  have hl : i < (ws ++ back).length := by
    rw [List.length_append]
    omega
  rw [keptIn?, keptIn?, if_pos h, if_pos hl, List.getElem?_append_left h]

/-- What comes into the place above the top is what the chain carries out. -/
theorem spilledInto?_length (ws : Words) (s : Nat) :
    ws.spilledInto? s ws.length = some (Chain.shift s ws).carry := by
  induction ws using List.reverseRecOn with
  | nil => rfl
  | append_singleton ws w ih =>
    rw [Chain.shift_concat, Chain.carry_shiftStep, spilledInto?, List.length_append,
      List.length_singleton, Nat.add_sub_cancel, List.getElem?_concat_length]
    split_ifs with h
    · exact Word.down?_eq w h.2
    · have h0 : s = 0 := by
        by_contra hne
        exact h ⟨Nat.succ_pos _, hne⟩
      rw [Word.spilled, if_pos h0]

theorem shiftedWord?_length (ws : Words) (s : Nat) :
    ws.shiftedWord? s ws.length = some (Chain.shift s ws).carry := by
  rw [shiftedWord?, spilledInto?_length, keptIn?, if_neg (Nat.lt_irrefl _)]
  simp

/-- The places below the top are formed as the chain forms them. -/
theorem map_shiftedWord? (ws : Words) (hs : s < 32) :
    (List.range ws.length).map (ws.shiftedWord? s) = (Chain.shift s ws).words.map some := by
  induction ws using List.reverseRecOn with
  | nil => rfl
  | append_singleton ws w ih =>
    have hold : ∀ i ∈ List.range ws.length,
        shiftedWord? (ws ++ [w]) s i = shiftedWord? ws s i := by
      intro i hi
      have hlt := List.mem_range.mp hi
      rw [shiftedWord?, shiftedWord?, spilledInto?_append [w] hlt.le, keptIn?_append [w] hlt]
    have hnew : shiftedWord? (ws ++ [w]) s ws.length =
        some (Word.kept s w ||| (Chain.shift s ws).carry) := by
      have hl : ws.length < (ws ++ [w]).length := by simp
      rw [shiftedWord?, spilledInto?_append [w] le_rfl, spilledInto?_length, keptIn?, if_pos hl,
        List.getElem?_concat_length]
      simp [Word.up?_eq w hs, UInt32.or_comm]
    rw [List.length_append, List.length_singleton, List.range_succ, List.map_append,
      List.map_congr_left hold, ih, Chain.shift_concat, Chain.words_shiftStep, List.map_append,
      List.map_singleton, List.map_singleton, hnew]

/-- The word that spilled out and those below it hold no more than there are places for. -/
theorem carry_add_top (ws : Words) (hs : s < 32) :
    (Chain.run Word.addCarry (align (shiftWords [(Chain.shift s ws).carry] ws.length)
      (Chain.shift s ws).words)).carry = 0 := by
  -- A carry would mean that the shifted number has two words more than there were.
  by_contra hc
  have hl : (Chain.shift s ws).words.length ≤
      (shiftWords [(Chain.shift s ws).carry] ws.length).length := by
    simp
  have hp := pow_le_add_of_carry hl hc
  have hv := Chain.value_shift ws hs
  have htop : (shiftWords [(Chain.shift s ws).carry] ws.length).value =
      UInt32.size ^ ws.length * (Chain.shift s ws).carry.toNat := by
    rw [value_shiftWords, size_pow, Nat.mul_comm]
    simp
  have hlt : ws.value * 2 ^ s < UInt32.size ^ ws.length * UInt32.size :=
    Nat.mul_lt_mul_of_lt_of_le (value_lt ws)
      (Nat.pow_le_pow_right (by decide) hs.le) (by decide)
  rw [length_shiftWords, List.length_singleton, Nat.pow_succ, htop] at hp
  omega

theorem guardedShift?_eq (ws : Words) (n : Nat) : ws.guardedShift? n = some (ws.shiftLeft n) := by
  have hs : n % 32 < 32 := Nat.mod_lt n (by decide)
  have hm := mapM_eq_some_iff.mpr (map_shiftedWord? (ws.shiftWords (n / 32)) hs)
  rw [guardedShift?, shiftLeft_eq]
  simp only [hm, shiftedWord?_length, Option.bind_eq_bind, Option.bind_some]
  split_ifs with hc
  · rfl
  · rw [guard, if_pos (carry_add_top _ hs)]
    rfl

/-- A shift by whole words puts zero words below. -/
theorem shiftLeft_mul (ws : Words) (k : Nat) : ws.shiftLeft (32 * k) = ws.shiftWords k := by
  apply eq_of_value_eq
  · have hw := wordCount_le_length (ws.shiftWords k)
    rw [value_shiftWords] at hw
    rw [length_shiftLeft, Nat.mul_div_cancel_left k (by decide)]
    rw [length_shiftWords] at hw ⊢
    omega
  · rw [value_shiftLeft, value_shiftWords]

end Words

namespace Natural

/-- A number shifted left is a number, and its words are the digits of the multiple by the power of
two: as many as there were and one for every 32 bits, or as many as the multiple takes. No step on
the way is refused. A shift by whole words puts zero words below and changes no word. -/
theorem shiftLeft_spells (ws : Words) (n k : Nat) :
    (∃ vs, (ofWords ws).shiftLeft n = ofWords vs ∧ ws.guardedShift? n = some vs ∧
      vs.Spells (max (ws.length + n / 32) (Words.wordCount (ws.value * 2 ^ n)))
        (ws.value * 2 ^ n)) ∧
    (ofWords ws).shiftLeft (32 * k) = ofWords (Words.zeros k ++ ws) ∧
    (ofWords ws).shiftWords k = ofWords (Words.zeros k ++ ws) := by
  refine ⟨⟨ws.shiftLeft n, shiftLeft_ofWords ws n, Words.guardedShift?_eq ws n, ?_⟩, ?_, rfl⟩
  · exact Words.spells_iff.mpr ⟨Words.length_shiftLeft ws n, Words.value_shiftLeft ws n⟩
  · rw [shiftLeft_ofWords, Words.shiftLeft_mul]
    rfl

end Natural

end LexCalc
