import LexCalc.Text.Span

/-! Byte offsets cut a text between characters only, and a cut has one outcome. -/
namespace LexCalc
namespace Text
variable {s t : Text} {n : Nat}

/-- An offset that falls between two characters, or at an end of the text. -/
def IsBoundary (t : Text) (n : Nat) : Prop := ∃ front back, t = front ++ back ∧ front.size = n

theorem size_pos (h : t ≠ []) : 0 < t.size := by
  obtain ⟨c, t, rfl⟩ := List.exists_cons_of_ne_nil h
  exact Nat.add_pos_left c.utf8Size_pos _

theorem splitAt?_size_append (s t : Text) : splitAt? s.size (s ++ t) = some (s, t) := by
  induction s with
  | nil => cases t <;> rfl
  | cons c s ih =>
    have hc := c.utf8Size_pos
    obtain ⟨n, hn⟩ : ∃ n, size (c :: s) = n + 1 := ⟨size (c :: s) - 1, by rw [size_cons]; omega⟩
    have hs : n + 1 - c.utf8Size = size s := by rw [← hn, size_cons]; omega
    rw [hn, List.cons_append, splitAt?, if_neg (by rw [← hn, size_cons]; omega), hs, ih]
    rfl

theorem eq_append_of_splitAt? {front back : Text} (h : splitAt? n t = some (front, back)) :
    t = front ++ back ∧ front.size = n := by
  fun_induction splitAt? n t generalizing front back with
  | case1 t =>
    cases h
    exact ⟨rfl, rfl⟩
  | case2 => cases h
  | case3 => cases h
  | case4 n c t hc ih =>
    obtain ⟨⟨f, b⟩, hs, he⟩ := Option.map_eq_some_iff.mp h
    cases he
    obtain ⟨rfl, hf⟩ := ih hs
    refine ⟨rfl, ?_⟩
    rw [size_cons, hf]
    omega

theorem splitAt?_eq_some_iff {front back : Text} :
    splitAt? n t = some (front, back) ↔ t = front ++ back ∧ front.size = n := by
  constructor
  · exact eq_append_of_splitAt?
  · rintro ⟨rfl, rfl⟩
    exact splitAt?_size_append front back

end Text

namespace Span

/-- A span cuts out exactly the text that stands between its offsets. -/
theorem slice_eq_some_iff {s : Span} {source t : Text} :
    s.slice source = some t ↔
      ∃ front back, source = front ++ t ++ back ∧ front.size = s.start ∧
        (front ++ t).size = s.stop := by
  unfold slice
  constructor
  · intro h
    split at h
    · cases h
    · next hr =>
      obtain ⟨⟨front, rest⟩, hf, h⟩ := Option.bind_eq_some_iff.mp h
      obtain ⟨⟨cut, back⟩, hc, h⟩ := Option.bind_eq_some_iff.mp h
      cases h
      obtain ⟨rfl, hn⟩ := Text.splitAt?_eq_some_iff.mp hf
      obtain ⟨rfl, hl⟩ := Text.splitAt?_eq_some_iff.mp hc
      refine ⟨front, back, (List.append_assoc ..).symm, hn, ?_⟩
      rw [Text.size_append]
      omega
  · rintro ⟨front, back, rfl, hf, hs⟩
    rw [Text.size_append] at hs
    have hc : s.stop - s.start = Text.size t := by omega
    rw [if_neg (by omega), List.append_assoc, ← hf, Text.splitAt?_size_append, hf, hc]
    simp [Text.splitAt?_size_append]

/-- A span that cuts something out begins and ends between characters. -/
theorem isBoundary_of_slice {s : Span} {source t : Text} (h : s.slice source = some t) :
    source.IsBoundary s.start ∧ source.IsBoundary s.stop := by
  obtain ⟨front, back, rfl, hstart, hstop⟩ := slice_eq_some_iff.mp h
  exact ⟨⟨front, t ++ back, List.append_assoc .., hstart⟩, ⟨front ++ t, back, rfl, hstop⟩⟩

end Span

end LexCalc
