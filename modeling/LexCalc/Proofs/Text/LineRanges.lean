import LexCalc.Proofs.Text.LineIndex

/-! Every line has a range of offsets, from where it starts up to where the next line starts. The
ranges follow one another and leave nothing out, so offsets and places stand for each other. -/
namespace LexCalc
namespace LineIndex
variable {source : Text} {starts : List Nat} {i j m n s t : Nat}

theorem lt_of_getElem? (hp : starts.Pairwise (· < ·)) (hs : starts[i]? = some s)
    (ht : starts[j]? = some t) (hij : i < j) : s < t := by
  obtain ⟨hi, rfl⟩ := List.getElem?_eq_some_iff.mp hs
  obtain ⟨hj, rfl⟩ := List.getElem?_eq_some_iff.mp ht
  exact List.pairwise_iff_getElem.mp hp i j hi hj hij

/-- An offset in the range of the line that starts at `s` and has `i` lines before it. -/
structure InRange (starts : List Nat) (i s n : Nat) : Prop where
  start_eq : starts[i]? = some s
  start_le : s ≤ n
  lt_next : ∀ t ∈ starts[i + 1]?, n < t

theorem InRange.lt_length (h : InRange starts i s n) : i < starts.length :=
  (List.getElem?_eq_some_iff.mp h.start_eq).1

/-- The lines up to the one with an offset in its range are those that start up to the offset. -/
theorem InRange.countP_eq (hp : starts.Pairwise (· < ·)) (h : InRange starts i s n) :
    starts.countP (· ≤ n) = i + 1 := by
  have hi := (le_iff_lt_countP hp h.start_eq).mp h.start_le
  refine Nat.le_antisymm (Nat.le_of_not_lt ?_) hi
  intro hlt
  have ht := List.getElem?_eq_getElem (Nat.lt_of_lt_of_le hlt List.countP_le_length)
  have hle := (le_iff_lt_countP hp ht).mpr hlt
  exact Nat.not_lt.mpr hle (h.lt_next _ ht)

theorem InRange.placeIn_eq (hp : starts.Pairwise (· < ·)) (h : InRange starts i s n) :
    placeIn starts n = ⟨i + 1, n - s + 1⟩ := by
  rw [placeIn, h.countP_eq hp, Nat.add_sub_cancel, List.getD_eq_getElem?_getD, h.start_eq]
  rfl

/-- The first line starts at zero, so that every offset is in a range. -/
theorem exists_inRange (source : Text) (n : Nat) : ∃ i s, InRange source.lineStarts i s n := by
  have hp := source.pairwise_lineStarts
  have hpos : 0 < source.lineStarts.countP (· ≤ n) :=
    (le_iff_lt_countP hp (i := 0) (y := 0) rfl).mp (Nat.zero_le n)
  obtain ⟨i, hi⟩ := Nat.exists_eq_succ_of_ne_zero (Nat.ne_of_gt hpos)
  have hl : i < source.lineStarts.length := by
    have := List.countP_le_length (p := (· ≤ n)) (l := source.lineStarts)
    omega
  have hs := List.getElem?_eq_getElem hl
  refine ⟨i, _, hs, (le_iff_lt_countP hp hs).mpr (by omega), ?_⟩
  intro t ht
  rw [← Nat.not_le, le_iff_lt_countP hp ht]
  omega

/-- A line starts in its own range. -/
theorem inRange_start (hs : source.lineStarts[i]? = some s) :
    InRange source.lineStarts i s s :=
  ⟨hs, Nat.le_refl s, fun _ ht =>
    lt_of_getElem? source.pairwise_lineStarts hs ht (Nat.lt_succ_self i)⟩

/-- Earlier offsets are not on later lines. -/
theorem InRange.le_of_lt (hp : starts.Pairwise (· < ·)) (h : InRange starts i s m)
    (k : InRange starts j t n) (hlt : m < n) : i ≤ j := by
  have hc : starts.countP (· ≤ m) ≤ starts.countP (· ≤ n) := by
    apply List.countP_mono_left
    intro x _ hx
    simp only [decide_eq_true_eq] at hx ⊢
    omega
  rw [h.countP_eq hp, k.countP_eq hp] at hc
  exact Nat.le_of_succ_le_succ hc

theorem start_le_size (hs : source.lineStarts[i]? = some s) : s ≤ source.size :=
  Text.le_of_mem_lineStarts (List.mem_of_getElem? hs)

theorem place_of_inRange (hn : n ≤ source.size) (h : InRange source.lineStarts i s n) :
    (ofText source).place n = .ok ⟨i + 1, n - s + 1⟩ := by
  rw [place_eq hn, h.placeIn_eq source.pairwise_lineStarts]

theorem le_size_of_place {p : Place} (h : (ofText source).place n = .ok p) : n ≤ source.size := by
  rw [place, size_ofText] at h
  split at h
  · cases h
  · exact Nat.le_of_not_lt ‹_›

/-- An offset with a place is in the range of the line, as far behind the start as the column
says. -/
theorem place_eq_ok_iff {line column : Nat} :
    (ofText source).place n = .ok ⟨line, column⟩ ↔
      n ≤ source.size ∧ ∃ i s, InRange source.lineStarts i s n ∧ line = i + 1 ∧
        column = n - s + 1 := by
  constructor
  · intro h
    have hn := le_size_of_place h
    obtain ⟨i, s, hr⟩ := exists_inRange source n
    rw [place_of_inRange hn hr] at h
    cases h
    exact ⟨hn, i, s, hr, rfl, rfl⟩
  · rintro ⟨hn, i, s, hr, rfl, rfl⟩
    exact place_of_inRange hn hr

theorem lineStart_succ :
    (ofText source).lineStart (i + 1) = .ok s ↔ source.lineStarts[i]? = some s := by
  rw [lineStart, ← starts_ofText, Array.getElem?_toList]
  cases (ofText source).starts[i]? with
  | none => simp
  | some x => simp

theorem exists_lineStart {line : Nat} (h0 : 1 ≤ line) (h1 : line ≤ (ofText source).lineCount) :
    ∃ i s, line = i + 1 ∧ source.lineStarts[i]? = some s ∧
      (ofText source).lineStart line = .ok s := by
  obtain ⟨i, rfl⟩ := Nat.exists_eq_add_of_le' h0
  rw [lineCount_ofText] at h1
  have hs := List.getElem?_eq_getElem (l := source.lineStarts) (Nat.lt_of_succ_le h1)
  exact ⟨i, _, rfl, hs, lineStart_succ.mpr hs⟩

theorem lineStart_of_outside {line : Nat}
    (h : line = 0 ∨ (ofText source).lineCount < line) :
    (ofText source).lineStart line = .error (.noSuchLine line (ofText source).lineCount) := by
  cases line with
  | zero => rfl
  | succ i =>
    have hi : (ofText source).starts.size ≤ i := by
      rw [lineCount] at h
      omega
    rw [lineStart, Array.getElem?_eq_none hi]

/-- Only a line that the text does not have has no start. -/
theorem lineStart_eq_error_iff {line : Nat} {e : SpanError} :
    (ofText source).lineStart line = .error e ↔
      (line = 0 ∨ (ofText source).lineCount < line) ∧
        e = .noSuchLine line (ofText source).lineCount := by
  by_cases h : line = 0 ∨ (ofText source).lineCount < line
  · rw [lineStart_of_outside h, Except.error.injEq, eq_comm, and_iff_right h]
  · have h0 : 1 ≤ line := by omega
    have h1 : line ≤ (ofText source).lineCount := by omega
    obtain ⟨-, s, -, -, hs⟩ := exists_lineStart h0 h1
    rw [hs]
    simp [h]

/-- The line of an offset starts as far before it as the column says. -/
theorem exists_place (hn : n ≤ source.size) :
    ∃ p s, (ofText source).place n = .ok p ∧ 1 ≤ p.line ∧ p.line ≤ (ofText source).lineCount ∧
      1 ≤ p.column ∧ (ofText source).lineStart p.line = .ok s ∧ s + p.column - 1 = n := by
  obtain ⟨i, s, hr⟩ := exists_inRange source n
  have hs := hr.start_le
  refine ⟨⟨i + 1, n - s + 1⟩, s, place_of_inRange hn hr, Nat.le_add_left 1 i, ?_,
    Nat.le_add_left 1 _, lineStart_succ.mpr hr.start_eq, ?_⟩
  · rw [lineCount_ofText]
    exact hr.lt_length
  · dsimp only
    omega

/-- Later offsets have later places. -/
theorem exists_place_lt_place (hlt : m < n) (hn : n ≤ source.size) :
    ∃ p q, (ofText source).place m = .ok p ∧ (ofText source).place n = .ok q ∧
      (p.line < q.line ∨ p.line = q.line ∧ p.column < q.column) := by
  obtain ⟨i, s, hm⟩ := exists_inRange source m
  obtain ⟨j, t, hr⟩ := exists_inRange source n
  refine ⟨_, _, place_of_inRange (Nat.le_trans (Nat.le_of_lt hlt) hn) hm,
    place_of_inRange hn hr, ?_⟩
  rcases Nat.lt_or_eq_of_le (hm.le_of_lt source.pairwise_lineStarts hr hlt) with hij | rfl
  · exact .inl (Nat.succ_lt_succ hij)
  · obtain rfl : s = t := Option.some.inj (hm.start_eq.symm.trans hr.start_eq)
    have hs := hm.start_le
    refine .inr ⟨rfl, ?_⟩
    dsimp only
    omega

/-- Which columns of a line are the place of an offset: those up to where its range ends. -/
theorem exists_place_iff {c : Nat} (hs : source.lineStarts[i]? = some s) (hc : 1 ≤ c) :
    (∃ n, (ofText source).place n = .ok ⟨i + 1, c⟩) ↔
      s + c - 1 ≤ source.size ∧ ∀ t ∈ source.lineStarts[i + 1]?, s + c - 1 < t := by
  constructor
  · rintro ⟨n, h⟩
    obtain ⟨hn, j, t, hr, hj, rfl⟩ := place_eq_ok_iff.mp h
    obtain rfl : i = j := Nat.succ.inj hj
    obtain rfl : s = t := Option.some.inj (hs.symm.trans hr.start_eq)
    have := hr.start_le
    have hcol : s + (n - s + 1) - 1 = n := by omega
    rw [hcol]
    exact ⟨hn, hr.lt_next⟩
  · rintro ⟨hn, ht⟩
    have hr : InRange source.lineStarts i s (s + c - 1) := ⟨hs, by omega, ht⟩
    refine ⟨s + c - 1, ?_⟩
    rw [place_of_inRange hn hr]
    congr
    omega

/-- Offsets and places stand for each other. The line of an offset starts as far before it as the
column says, and a line starts at its first column. Only lines that the text does not have are
without a start. Later offsets have later places. A line and a column are the place of an offset
exactly if the column ends before the next line starts, or on the last line if the text goes so
far. -/
theorem place_lineStart_inverse (source : Text) :
    let ix := ofText source
    (∀ n ≤ source.size, ∃ p s, ix.place n = .ok p ∧ 1 ≤ p.line ∧ p.line ≤ ix.lineCount ∧
      1 ≤ p.column ∧ ix.lineStart p.line = .ok s ∧ s + p.column - 1 = n) ∧
    (∀ l, 1 ≤ l → l ≤ ix.lineCount →
      ∃ s, ix.lineStart l = .ok s ∧ ix.place s = .ok ⟨l, 1⟩) ∧
    (∀ l e, ix.lineStart l = .error e ↔
      (l = 0 ∨ ix.lineCount < l) ∧ e = .noSuchLine l ix.lineCount) ∧
    (∀ m n, m < n → n ≤ source.size → ∃ p q, ix.place m = .ok p ∧ ix.place n = .ok q ∧
      (p.line < q.line ∨ p.line = q.line ∧ p.column < q.column)) ∧
    (∀ l c, 1 ≤ l → l < ix.lineCount → 1 ≤ c →
      ∃ s t, ix.lineStart l = .ok s ∧ ix.lineStart (l + 1) = .ok t ∧
        ((∃ n, ix.place n = .ok ⟨l, c⟩) ↔ s + c - 1 < t)) ∧
    (∀ c, 1 ≤ c → ∃ s, ix.lineStart ix.lineCount = .ok s ∧
      ((∃ n, ix.place n = .ok ⟨ix.lineCount, c⟩) ↔ s + c - 1 ≤ source.size)) := by
  intro ix
  refine ⟨fun n => exists_place, ?_, fun l e => lineStart_eq_error_iff,
    fun m n => exists_place_lt_place, ?_, ?_⟩
  · intro l h0 h1
    obtain ⟨i, s, rfl, hs, hl⟩ := exists_lineStart h0 h1
    refine ⟨s, hl, ?_⟩
    rw [place_of_inRange (start_le_size hs) (inRange_start hs), Nat.sub_self]
  · intro l c h0 h1 hc
    obtain ⟨i, s, rfl, hs, hl⟩ := exists_lineStart h0 (Nat.le_of_lt h1)
    obtain ⟨j, t, hj, ht, hnext⟩ := exists_lineStart (Nat.le_add_left 1 (i + 1)) h1
    obtain rfl : i + 1 = j := Nat.succ.inj hj
    refine ⟨s, t, hl, hnext, ?_⟩
    -- The next line starts within the text, so its start is the nearer of the two bounds.
    have hsize := start_le_size ht
    rw [exists_place_iff hs hc, ht]
    simp only [Option.mem_some_iff, forall_eq']
    omega
  · intro c hc
    have hpos : 1 ≤ ix.lineCount := by
      rw [lineCount_ofText]
      exact Nat.succ_pos _
    obtain ⟨i, s, hi, hs, hl⟩ := exists_lineStart hpos (Nat.le_refl _)
    have hnone : source.lineStarts[i + 1]? = none := by
      rw [← hi, lineCount_ofText]
      exact List.getElem?_eq_none (Nat.le_refl _)
    refine ⟨s, hl, ?_⟩
    rw [hi, exists_place_iff hs hc, hnone]
    simp

end LineIndex
end LexCalc
