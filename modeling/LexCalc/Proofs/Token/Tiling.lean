import LexCalc.Proofs.Text.Slice
import LexCalc.Proofs.Token.Run

/-! The tokens of a text cover it from end to end, without a gap and without an overlap. -/
namespace LexCalc

namespace Lexer
variable {l : Lexer} {source : Text}

/-- The trivia begins where the lexer stands. -/
theorem triviaSpan_start_next (l : Lexer) : l.next.1.triviaSpan.start = l.position := by
  rw [Token.triviaSpan, start_next]
  exact Nat.add_sub_cancel ..

theorem triviaSpan_stop (t : Token) : t.triviaSpan.stop = t.span.start := rfl

theorem slice_triviaSpan_next (h : Placed source l) :
    l.next.1.triviaSpan.slice source = some l.next.1.trivia := by
  obtain ⟨-, front, rfl, hf⟩ := h
  rw [Span.slice_eq_some_iff]
  refine ⟨front, l.next.1.value ++ l.next.2.rest, ?_, ?_, ?_⟩
  · rw [List.append_assoc, next_append]
  · rw [triviaSpan_start_next, hf]
  · rw [triviaSpan_stop, start_next, Text.size_append, hf]

theorem slice_span_next (h : Placed source l) :
    l.next.1.span.slice source = some l.next.1.value := by
  obtain ⟨-, front, rfl, hf⟩ := h
  rw [Span.slice_eq_some_iff]
  refine ⟨front ++ l.next.1.trivia, l.next.2.rest, ?_, ?_, ?_⟩
  · rw [List.append_assoc, List.append_assoc, next_append]
  · rw [start_next, Text.size_append, hf]
  · rw [stop_next, start_next, Text.size_append, Text.size_append, hf]

/-- The empty token at the end stands behind the last character. -/
theorem span_of_eof (h : Placed source l) (he : l.next.1.kind = .eof) :
    l.next.1.span = .point source.size := by
  obtain ⟨-, front, rfl, hf⟩ := h
  have hl := lexeme_next l
  rw [he] at hl
  obtain ⟨hv, hr⟩ := conforms_of_lexeme hl
  have ha := next_append l
  rw [hv, hr, List.append_nil, List.append_nil] at ha
  have hstart : l.next.1.span.start = (front ++ l.rest).size := by
    rw [start_next, Text.size_append, hf, ha]
  have hstop : l.next.1.span.stop = (front ++ l.rest).size := by
    rw [stop_next, hv, hstart, Text.size_nil, Nat.add_zero]
  change Span.mk l.next.1.span.start l.next.1.span.stop = _
  rw [hstart, hstop]
  rfl

/-- The span of a token is as long as its value and leaves room for its trivia. -/
def Measured (t : Token) : Prop :=
  t.value.size = t.span.length ∧ t.trivia.size ≤ t.span.start

theorem measured_next (l : Lexer) : Measured l.next.1 := by
  constructor
  · rw [Span.length, stop_next, Nat.add_sub_cancel_left]
  · rw [start_next]
    exact Nat.le_add_left ..

theorem measured_current (source : Text) (k : Nat) :
    Measured ((ofText source).after k).current := by
  cases k with
  | zero => exact ⟨rfl, Nat.le_refl 0⟩
  | succ k =>
    rw [after_succ]
    exact measured_next ((ofText source).after k)

/-- Reading token after token up to the end of the text covers the text: each trivia begins where
the token before it ends, each value begins where its trivia ends, and every offset falls between
two characters. -/
theorem tokens_tile (source : Text) :
    (∃ n, tokens source = (List.range (n + 1)).map (nth source) ∧
      (∀ k < n, (nth source k).isEof = false) ∧ (nth source n).isEof = true ∧
      (nth source n).span = .point source.size) ∧
    (nth source 0).triviaSpan.start = 0 ∧
    (∀ k, (nth source k).triviaSpan.stop = (nth source k).span.start ∧
      (nth source (k + 1)).triviaSpan.start = (nth source k).span.stop) ∧
    (∀ k, source.IsBoundary (nth source k).triviaSpan.start ∧
      source.IsBoundary (nth source k).span.start ∧ source.IsBoundary (nth source k).span.stop) ∧
    (∀ k, (nth source k).span.slice source = some (nth source k).value ∧
      (nth source k).triviaSpan.slice source = some (nth source k).trivia) ∧
    (tokens source).flatMap (fun t => t.trivia ++ t.value) = source ∧
    ∀ k, Measured ((ofText source).after k).current := by
  have hp := placed_after source
  have hv : ∀ k, (nth source k).span.slice source = some (nth source k).value :=
    fun k => slice_span_next (hp k)
  have ht : ∀ k, (nth source k).triviaSpan.slice source = some (nth source k).trivia :=
    fun k => slice_triviaSpan_next (hp k)
  refine ⟨?_, ?_, ?_, ?_, ?_, ?_, ?_⟩
  · obtain ⟨n, hm, hn, he⟩ := finish_eq_map (ofText source)
    refine ⟨n, hm, ?_, ?_, span_of_eof (hp n) he⟩
    · intro k hk
      exact beq_eq_false_iff_ne.mpr (hn k hk)
    · exact beq_iff_eq.mpr he
  · exact triviaSpan_start_next (ofText source)
  · intro k
    refine ⟨rfl, ?_⟩
    rw [nth, triviaSpan_start_next, after_succ, position_next]
    rfl
  · intro k
    exact ⟨(Span.isBoundary_of_slice (ht k)).1, Span.isBoundary_of_slice (hv k)⟩
  · exact fun k => ⟨hv k, ht k⟩
  · exact finish_flatMap (ofText source)
  · exact measured_current source

end Lexer

end LexCalc
