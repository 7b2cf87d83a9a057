import LexCalc.Proofs.Text.LineIndex
import Mathlib.Data.List.Induction

/-! A counter that walks over a text and knows at every character where it stands. The search among
the line starts comes to the same place. -/
namespace LexCalc

/-- An offset together with its place. -/
structure Counter where
  offset : Nat
  place : Place
  deriving DecidableEq, Repr

namespace Counter

def start : Counter := ⟨0, ⟨1, 1⟩⟩

/-- Goes on over one character: a newline leads to the start of the next line. -/
def step (k : Counter) (c : Char) : Counter where
  offset := k.offset + c.utf8Size
  place :=
    if c = '\n' then ⟨k.place.line + 1, 1⟩ else ⟨k.place.line, k.place.column + c.utf8Size⟩

def walk (t : Text) : Counter := t.foldl step start

@[simp] theorem walk_nil : walk [] = start := rfl

@[simp] theorem walk_concat (t : Text) (c : Char) : walk (t ++ [c]) = (walk t).step c := by
  simp [walk]

theorem offset_walk (t : Text) : (walk t).offset = t.size := by
  induction t using List.reverseRecOn with
  | nil => rfl
  | append_singleton t c ih => simp [step, ih]

end Counter

namespace LineIndex

/-- Behind the last newline the last line goes on. -/
theorem placeIn_of_le {starts : List Nat} {n : Nat} (h : ∀ x ∈ starts, x ≤ n) :
    placeIn starts n = ⟨starts.length, n - starts.getD (starts.length - 1) 0 + 1⟩ := by
  have hc : starts.countP (· ≤ n) = starts.length := by
    rw [List.countP_eq_length]
    intro x hx
    exact decide_eq_true (h x hx)
  rw [placeIn, hc]

theorem placeIn_lineStarts (t : Text) :
    placeIn t.lineStarts t.size =
      ⟨t.lineStarts.length, t.size - t.lineStarts.getD (t.lineStarts.length - 1) 0 + 1⟩ :=
  placeIn_of_le fun _ hx => Text.le_of_mem_lineStarts hx

/-- The last line starts within the text. -/
theorem lastStart_le (t : Text) : t.lineStarts.getD (t.lineStarts.length - 1) 0 ≤ t.size := by
  have hl : t.lineStarts.length - 1 < t.lineStarts.length :=
    Nat.sub_lt (Nat.succ_pos _) Nat.one_pos
  rw [List.getD_eq_getElem?_getD, List.getElem?_eq_getElem hl]
  exact Text.le_of_mem_lineStarts (List.getElem_mem hl)

/-- One more character on the last line. -/
theorem placeIn_concat {c : Char} (hc : c ≠ '\n') (t : Text) :
    placeIn (Text.lineStarts (t ++ [c])) (Text.size (t ++ [c])) =
      ⟨(placeIn t.lineStarts t.size).line, (placeIn t.lineStarts t.size).column + c.utf8Size⟩ := by
  have hl : Text.lineStarts (t ++ [c]) = t.lineStarts := by
    simp [Text.lineStarts, Text.newlineEnds_append, Text.newlineEnds, hc]
  have hs : Text.size (t ++ [c]) = t.size + c.utf8Size := by simp
  have hg := lastStart_le t
  rw [placeIn_lineStarts, placeIn_lineStarts, hl, hs]
  dsimp only
  congr 1
  omega

/-- One more newline. -/
theorem placeIn_concat_newline (t : Text) :
    placeIn (Text.lineStarts (t ++ ['\n'])) (Text.size (t ++ ['\n'])) =
      ⟨(placeIn t.lineStarts t.size).line + 1, 1⟩ := by
  have hs : Text.size (t ++ ['\n']) = t.size + 1 + 0 := by simp; rfl
  have hz : placeIn (Text.lineStarts []) 0 = ⟨1, 1⟩ := rfl
  rw [hs, placeIn_append_right t [] 0, hz, placeIn_lineStarts, Nat.add_comm 1]

/-- At the end of a text the search finds the place that the counter has come to. -/
theorem placeIn_size (t : Text) : placeIn t.lineStarts t.size = (Counter.walk t).place := by
  induction t using List.reverseRecOn with
  | nil => rfl
  | append_singleton t c ih =>
    rw [Counter.walk_concat, Counter.step, ← ih]
    by_cases hc : c = '\n'
    · subst hc
      exact placeIn_concat_newline t
    · rw [placeIn_concat hc, if_neg hc]

end LineIndex

end LexCalc
