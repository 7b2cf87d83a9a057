import LexCalc.Text.LineIndex

/-! The lines of a text as the list of offsets where they start, and the halving search for the
line of an offset as a count over that list. -/
namespace LexCalc
variable {s t source : Text} {l : List Nat} {i k m n x y : Nat}

namespace Text

/-- The offsets right after the newlines of a text that starts at byte `start`. -/
def newlineEnds (start : Nat) : Text → List Nat
  | [] => []
  | c :: t =>
    let rest := newlineEnds (start + c.utf8Size) t
    if c = '\n' then (start + c.utf8Size) :: rest else rest

/-- The offsets where the lines of a text start. -/
def lineStarts (source : Text) : List Nat := 0 :: newlineEnds 0 source

theorem newlineEnds_append (n : Nat) (s t : Text) :
    newlineEnds n (s ++ t) = newlineEnds n s ++ newlineEnds (n + s.size) t := by
  induction s generalizing n with
  | nil => rfl
  | cons c s ih =>
    simp only [List.cons_append, newlineEnds, ih, size_cons, Nat.add_assoc]
    split <;> rfl

theorem newlineEnds_of_notMem (h : '\n' ∉ t) (n : Nat) : newlineEnds n t = [] := by
  induction t generalizing n with
  | nil => rfl
  | cons c t ih =>
    rw [List.mem_cons, not_or] at h
    rw [newlineEnds, if_neg (Ne.symm h.1), ih h.2]

theorem newlineEnds_add (k n : Nat) (t : Text) :
    newlineEnds (k + n) t = (newlineEnds n t).map (k + ·) := by
  induction t generalizing n with
  | nil => rfl
  | cons c t ih =>
    simp only [newlineEnds, Nat.add_assoc, ih]
    split <;> rfl

theorem lt_of_mem_newlineEnds (h : x ∈ newlineEnds n t) : n < x ∧ x ≤ n + t.size := by
  induction t generalizing n with
  | nil => cases h
  | cons c t ih =>
    have hc := c.utf8Size_pos
    have hi := fun h => ih (n := n + c.utf8Size) h
    simp only [newlineEnds] at h
    rw [size_cons]
    split at h
    · rcases List.mem_cons.mp h with rfl | h
      · omega
      · have := hi h
        omega
    · have := hi h
      omega

theorem pairwise_newlineEnds (n : Nat) (t : Text) : (newlineEnds n t).Pairwise (· < ·) := by
  induction t generalizing n with
  | nil => exact .nil
  | cons c t ih =>
    simp only [newlineEnds]
    split
    · exact .cons (fun x hx => (lt_of_mem_newlineEnds hx).1) (ih _)
    · exact ih _

theorem pairwise_lineStarts (source : Text) : source.lineStarts.Pairwise (· < ·) :=
  .cons (fun _ hx => (lt_of_mem_newlineEnds hx).1) (pairwise_newlineEnds 0 source)

theorem le_of_mem_lineStarts (h : x ∈ source.lineStarts) : x ≤ source.size := by
  rcases List.mem_cons.mp h with rfl | h
  · exact Nat.zero_le _
  · simpa using (lt_of_mem_newlineEnds h).2

/-- Behind a newline the lines of another text go on. -/
theorem lineStarts_append (s t : Text) :
    (s ++ '\n' :: t).lineStarts = s.lineStarts ++ t.lineStarts.map (s.size + 1 + ·) := by
  have ht : newlineEnds s.size ('\n' :: t) = t.lineStarts.map (s.size + 1 + ·) := by
    rw [lineStarts, List.map_cons, ← newlineEnds_add]
    rfl
  rw [lineStarts, newlineEnds_append, Nat.zero_add, ht]
  rfl

end Text

/-- In an increasing list the entries up to a bound stand in front. -/
theorem le_iff_lt_countP (h : l.Pairwise (· < ·)) (hy : l[i]? = some y) :
    y ≤ x ↔ i < l.countP (· ≤ x) := by
  induction l generalizing i with
  | nil => simp at hy
  | cons z l ih =>
    rw [List.pairwise_cons] at h
    have hz : ¬ z ≤ x → l.countP (· ≤ x) = 0 := by
      intro hz
      rw [List.countP_eq_zero]
      intro w hw
      have := h.1 w hw
      simp
      omega
    rw [List.countP_cons]
    cases i with
    | zero =>
      obtain rfl : z = y := Option.some.inj hy
      by_cases hx : z ≤ x
      · simp [hx]
      · simp [hx, hz hx]
    | succ i =>
      rw [List.getElem?_cons_succ] at hy
      have hi := ih h.2 hy
      by_cases hx : z ≤ x
      · simp [hx, hi]
      · have := h.1 y (List.mem_of_getElem? hy)
        simp [hx, hz hx]
        omega

namespace LineIndex

/-- Halving keeps the count between its bounds. -/
theorem countUpTo_eq {xs : Array Nat} {lo hi : Nat} (h : xs.toList.Pairwise (· < ·))
    (hlo : lo ≤ xs.toList.countP (· ≤ x)) (hhi : xs.toList.countP (· ≤ x) ≤ hi)
    (hs : hi ≤ xs.size) : countUpTo xs x lo hi = xs.toList.countP (· ≤ x) := by
  fun_induction countUpTo xs x lo hi with
  | case1 lo hi hlt mid y hm hy ih =>
    rw [← Array.getElem?_toList] at hm
    exact ih ((le_iff_lt_countP h hm).mp hy) hhi hs
  | case2 lo hi hlt mid y hm hy ih =>
    have hmid : mid < hi := by
      simp only [mid]
      omega
    rw [← Array.getElem?_toList] at hm
    exact ih hlo (Nat.le_of_not_lt fun hc => hy ((le_iff_lt_countP h hm).mpr hc)) (by omega)
  | case3 lo hi hlt mid hm =>
    have hmid : xs.size ≤ mid := Array.getElem?_eq_none_iff.mp hm
    simp only [mid] at hmid
    omega
  | case4 lo hi hlt => omega

theorem foldl_step (starts : Array Nat) (n : Nat) (t : Text) :
    t.foldl step (starts, n) = (starts ++ (t.newlineEnds n).toArray, n + t.size) := by
  induction t generalizing starts n with
  | nil => simp [Text.newlineEnds]
  | cons c t ih =>
    rw [List.foldl_cons, step, ih, Text.newlineEnds, Text.size_cons, Nat.add_assoc]
    split <;> simp

theorem starts_ofText (source : Text) : (ofText source).starts.toList = source.lineStarts := by
  rw [ofText, foldl_step]
  simp [Text.lineStarts]

theorem size_ofText (source : Text) : (ofText source).size = source.size := by
  rw [ofText, foldl_step]
  simp

theorem lineCount_ofText (source : Text) :
    (ofText source).lineCount = source.lineStarts.length := by
  rw [← starts_ofText, Array.length_toList]
  rfl

/-- The place of an offset by the lines that start up to it. -/
def placeIn (starts : List Nat) (offset : Nat) : Place :=
  let line := starts.countP (· ≤ offset)
  ⟨line, offset - starts.getD (line - 1) 0 + 1⟩

theorem place_eq (h : n ≤ source.size) :
    (ofText source).place n = .ok (placeIn source.lineStarts n) := by
  have hp : (ofText source).starts.toList.Pairwise (· < ·) := by
    rw [starts_ofText]
    exact source.pairwise_lineStarts
  have hc : countUpTo (ofText source).starts n 0 (ofText source).starts.size = _ :=
    countUpTo_eq hp (Nat.zero_le _) List.countP_le_length (Nat.le_refl _)
  rw [place, size_ofText, if_neg (Nat.not_lt.mpr h), hc, starts_ofText]
  simp [placeIn, ← starts_ofText]

/-- Up to an offset places are as if the text ended there. -/
theorem placeIn_append_left (t : Text) (h : n ≤ s.size) :
    placeIn (s ++ t).lineStarts n = placeIn s.lineStarts n := by
  have hs : (s ++ t).lineStarts = s.lineStarts ++ t.newlineEnds s.size := by
    rw [Text.lineStarts, Text.newlineEnds_append, Nat.zero_add]
    rfl
  have hz : (t.newlineEnds s.size).countP (· ≤ n) = 0 := by
    rw [List.countP_eq_zero]
    intro x hx
    have := (Text.lt_of_mem_newlineEnds hx).1
    simp
    omega
  have hl : s.lineStarts.countP (· ≤ n) - 1 < s.lineStarts.length := by
    have := List.countP_le_length (p := (· ≤ n)) (l := s.lineStarts)
    have : 0 < s.lineStarts.length := Nat.succ_pos _
    omega
  rw [hs, placeIn, List.countP_append, hz, Nat.add_zero, List.getD_eq_getElem?_getD,
    List.getElem?_append_left hl, ← List.getD_eq_getElem?_getD, placeIn]

/-- Behind a newline places are those of the text that follows, further lines down. -/
theorem placeIn_append_right (s t : Text) (n : Nat) :
    placeIn (s ++ '\n' :: t).lineStarts (s.size + 1 + n) =
      ⟨(placeIn t.lineStarts n).line + s.lineStarts.length, (placeIn t.lineStarts n).column⟩ := by
  have hs : s.lineStarts.countP (· ≤ s.size + 1 + n) = s.lineStarts.length := by
    rw [List.countP_eq_length]
    intro x hx
    have := Text.le_of_mem_lineStarts hx
    simp
    omega
  have ht : (t.lineStarts.map (s.size + 1 + ·)).countP (· ≤ s.size + 1 + n) =
      t.lineStarts.countP (· ≤ n) := by
    rw [List.countP_map]
    congr 1
    funext x
    simp
  have hc : 0 < t.lineStarts.countP (· ≤ n) :=
    List.countP_pos_iff.mpr ⟨0, by simp [Text.lineStarts], by simp⟩
  have hl : t.lineStarts.countP (· ≤ n) - 1 < t.lineStarts.length := by
    have := List.countP_le_length (p := (· ≤ n)) (l := t.lineStarts)
    omega
  have hi : s.lineStarts.length + t.lineStarts.countP (· ≤ n) - 1 - s.lineStarts.length =
      t.lineStarts.countP (· ≤ n) - 1 := by omega
  have hd : (s.lineStarts ++ t.lineStarts.map (s.size + 1 + ·)).getD
      (s.lineStarts.length + t.lineStarts.countP (· ≤ n) - 1) 0 =
        s.size + 1 + t.lineStarts.getD (t.lineStarts.countP (· ≤ n) - 1) 0 := by
    rw [List.getD_eq_getElem?_getD, List.getElem?_append_right (by omega), hi,
      List.getD_eq_getElem?_getD, List.getElem?_map, List.getElem?_eq_getElem hl]
    rfl
  rw [Text.lineStarts_append, placeIn, List.countP_append, hs, ht, hd, Nat.add_sub_add_left,
    Nat.add_comm s.lineStarts.length, placeIn]

end LineIndex

end LexCalc
