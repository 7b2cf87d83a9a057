import LexCalc.Proofs.Token.Turns

/-! Reading comes to an end: every read ends, every token but the last passes characters, and behind
the end of the text nothing moves any more. -/
namespace LexCalc

namespace Lexer
variable {l : Lexer} {source : Text} {k n : Nat}

theorem isEof_next (l : Lexer) : l.next.1.isEof = true ↔ l.next.1.kind = .eof := beq_iff_eq

/-- A read ends in at most two turns for each character that it passes, and one more. -/
theorem turns_next (l : Lexer) :
    ∃ n ≤ 2 * (l.next.1.trivia.length + l.next.1.value.length) + 1,
      Reader.Turns n ⟨.start, [], [], l.rest⟩
        ⟨.ended l.next.1.kind, l.next.1.trivia, l.next.1.value, l.next.2.rest⟩ :=
  Reader.turns_scan [] l.rest

theorem value_next_eq_nil_iff (l : Lexer) : l.next.1.value = [] ↔ l.next.1.isEof = true := by
  rw [isEof_next, (lexeme_next l).value_eq_nil_iff]

/-- The end is read exactly where nothing follows the trivia. -/
theorem isEof_next_iff (h : Placed source l) :
    l.next.1.isEof = true ↔ l.next.1.span.start = source.size := by
  rw [isEof_next]
  constructor
  · intro he
    rw [span_of_eof h he]
    rfl
  · intro hs
    obtain ⟨-, front, rfl, hf⟩ := h
    have ha := congrArg Text.size (next_append l)
    rw [Text.size_append, Text.size_append] at ha
    rw [start_next, Text.size_append, hf] at hs
    by_contra he
    have hp := Text.size_pos ((lexeme_next l).value_ne_nil he)
    omega

/-- A token that is not the end takes at least its first character. -/
theorem position_next_of_ne_eof (h : l.next.1.isEof = false) :
    ∃ c w, l.next.1.value = c :: w ∧
      l.next.2.position = l.position + l.next.1.trivia.size + (c.utf8Size + Text.size w) := by
  have hv : l.next.1.value ≠ [] := by
    rw [Ne, value_next_eq_nil_iff, h]
    exact Bool.false_ne_true
  obtain ⟨c, w, hc⟩ := List.exists_cons_of_ne_nil hv
  refine ⟨c, w, hc, ?_⟩
  rw [position_next, stop_next, start_next, hc, Text.size_cons]

/-- Reads that do not find the end are no more than the characters that they leave behind. -/
theorem add_length_rest_after (h : ∀ j < k, (l.after j).next.1.isEof = false) :
    k + (l.after k).rest.length ≤ l.rest.length := by
  induction k with
  | zero => exact Nat.le_of_eq (Nat.zero_add _)
  | succ k ih =>
    have hi := ih fun j hj => h j (Nat.lt_succ_of_lt hj)
    have hk : (l.after k).next.1.kind ≠ .eof := by
      rw [Ne, ← isEof_next, h k (Nat.lt_succ_self k)]
      exact Bool.false_ne_true
    have hlt : (l.after k).next.2.rest.length < (l.after k).rest.length := Scan.length_rest_lt hk
    rw [after_succ]
    omega

/-- Nothing is left, and the position is the end. -/
structure Spent (source : Text) (l : Lexer) : Prop where
  rest_eq : l.rest = []
  position_eq : l.position = source.size

theorem spent_of_eof (h : Placed source l) (he : l.next.1.isEof = true) :
    Spent source l.next.2 := by
  rw [isEof_next] at he
  refine ⟨?_, ?_⟩
  · have hl := lexeme_next l
    rw [he] at hl
    exact hl.of_eof.2
  · rw [position_next, span_of_eof h he]
    rfl

theorem Spent.next_eq (h : Spent source l) : l.next.1 = ⟨.eof, [], [], .point source.size⟩ := by
  rw [next_of_rest_nil h.rest_eq, h.position_eq]

theorem spent_next (h : Spent source l) : Spent source l.next.2 := by
  refine ⟨?_, ?_⟩
  · have hl := lexeme_next l
    rw [h.next_eq] at hl
    exact hl.of_eof.2
  · rw [position_next, h.next_eq]
    rfl

theorem spent_after (h : Spent source l) (k : Nat) : Spent source (l.after k) := by
  induction k with
  | zero => exact h
  | succ k ih =>
    rw [after_succ]
    exact spent_next ih

/-- The end is reached, after no more tokens than there are characters, and it stays reached. -/
theorem exists_spent (source : Text) :
    ∃ n ≤ source.length, (∀ k < n, (nth source k).isEof = false) ∧
      (nth source n).isEof = true ∧ ∀ k, n < k → Spent source ((ofText source).after k) := by
  obtain ⟨n, -, hn, he⟩ := finish_eq_map (ofText source)
  have hne : ∀ k < n, (nth source k).isEof = false :=
    fun k hk => beq_eq_false_iff_ne.mpr (hn k hk)
  have hl := add_length_rest_after (l := ofText source) hne
  have hs : Spent source ((ofText source).after (n + 1)) := by
    rw [after_succ]
    exact spent_of_eof (placed_after source n) (beq_iff_eq.mpr he)
  refine ⟨n, Nat.le_of_add_right_le hl, hne, beq_iff_eq.mpr he, ?_⟩
  intro k hk
  obtain ⟨j, rfl⟩ := Nat.exists_eq_add_of_le (Nat.succ_le_of_lt hk)
  rw [after_add]
  exact spent_after hs j

/-- No read goes on forever: its loops take at most two turns for each character that is passed, and
one more. A token is empty exactly if it is the end, which is read where nothing follows the trivia;
any other takes a character at least. So the end comes after no more tokens than there are
characters, and from then on it is all that is read, at the same position. -/
theorem nth_progress (source : Text) :
    (∀ k, let l := (ofText source).after k
      let t := nth source k
      ∃ n ≤ 2 * (t.trivia.length + t.value.length) + 1,
        Reader.Turns n ⟨.start, [], [], l.rest⟩
          ⟨.ended t.kind, t.trivia, t.value, l.next.2.rest⟩) ∧
    (∀ k, let t := nth source k
      (t.value = [] ↔ t.isEof = true) ∧
      (t.isEof = true ↔ t.triviaSpan.stop = source.size)) ∧
    (∀ k, let t := nth source k
      t.isEof = false → ∃ c w, t.value = c :: w ∧
        ((ofText source).after (k + 1)).position =
          ((ofText source).after k).position + t.trivia.size + (c.utf8Size + Text.size w)) ∧
    ∃ n ≤ source.length, (∀ k < n, (nth source k).isEof = false) ∧
      (nth source n).isEof = true ∧
      ∀ k, n < k → nth source k = ⟨.eof, [], [], .point source.size⟩ ∧
        ((ofText source).after k).position = source.size := by
  refine ⟨fun k => turns_next _, ?_, ?_, ?_⟩
  · intro k
    exact ⟨value_next_eq_nil_iff _, isEof_next_iff (placed_after source k)⟩
  · intro k t ht
    rw [after_succ]
    exact position_next_of_ne_eof ht
  · obtain ⟨n, hn, hne, he, hs⟩ := exists_spent source
    refine ⟨n, hn, hne, he, ?_⟩
    intro k hk
    exact ⟨(hs k hk).next_eq, (hs k hk).position_eq⟩

end Lexer
end LexCalc
