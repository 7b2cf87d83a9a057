import LexCalc.Proofs.Text.Slice
import LexCalc.Proofs.Token.Run

/-! Every token that is read obeys the grammar, at any point of any text. -/
namespace LexCalc
namespace Token
variable {t : Token} {rest : Text}

/-- A string literal names what stands between its quotes; they are one byte each. -/
theorem string?_of_closed (hk : t.kind = .stringLiteral) (h : Conforms t.kind t.value rest) :
    ∃ body, t.string? = some body ∧ '"' ∉ body ∧ t.value = '"' :: (body ++ ['"']) := by
  rw [hk] at h
  obtain ⟨body, hv, hb⟩ := h
  have hs : Span.slice ⟨1, t.value.size - 1⟩ t.value = some body := by
    rw [Span.slice_eq_some_iff]
    refine ⟨['"'], ['"'], hv, rfl, ?_⟩
    rw [hv, Text.size_cons, Text.size_append, Text.size_append, ← Nat.add_assoc]
    rfl
  refine ⟨body, ?_, hb, hv⟩
  rw [string?, hk]
  exact hs

/-- Without a closing quote it names all that follows the opening one. -/
theorem string?_of_open (hk : t.kind = .unterminatedStringLiteral)
    (h : Conforms t.kind t.value rest) :
    ∃ body, t.string? = some body ∧ '"' ∉ body ∧ t.value = '"' :: body := by
  rw [hk] at h
  obtain ⟨body, hv, hb, -⟩ := h
  have hs : Span.slice ⟨1, t.value.size⟩ t.value = some body := by
    rw [Span.slice_eq_some_iff]
    refine ⟨['"'], [], ?_, rfl, ?_⟩
    · rw [hv, List.append_nil, List.singleton_append]
    · rw [hv, List.singleton_append]
  refine ⟨body, ?_, hb, hv⟩
  rw [string?, hk]
  exact hs

end Token

namespace Lexer

/-- The characters of a token and those after it are as its kind asks for, whatever was read
before. -/
theorem nth_conforms (source : Text) (k : Nat) :
    ∃ front rest, source = front ++ (nth source k).trivia ++ (nth source k).value ++ rest ∧
      (front ++ (nth source k).trivia).size = (nth source k).span.start ∧
      Conforms (nth source k).kind (nth source k).value rest ∧
      ((nth source k).kind = .stringLiteral →
        ∃ body, (nth source k).string? = some body ∧ '"' ∉ body ∧
          (nth source k).value = '"' :: (body ++ ['"'])) ∧
      ((nth source k).kind = .unterminatedStringLiteral →
        ∃ body, (nth source k).string? = some body ∧ '"' ∉ body ∧
          (nth source k).value = '"' :: body) := by
  obtain ⟨-, front, hs, hf⟩ := placed_after source k
  have hc : Conforms (nth source k).kind (nth source k).value
      ((ofText source).after k).next.2.rest := conforms_of_lexeme (lexeme_next _)
  refine ⟨front, ((ofText source).after k).next.2.rest, ?_, ?_, hc,
    fun hk => Token.string?_of_closed hk hc, fun hk => Token.string?_of_open hk hc⟩
  · rw [nth, List.append_assoc, List.append_assoc, next_append]
    exact hs
  · rw [nth, start_next, Text.size_append, hf]

end Lexer

end LexCalc
